import MqttBroker.Lib.GoMap
import MqttBroker.Basic

/-!
# The tables of the session manager

`sessionMgr.run` serves one event at a time from its unbuffered channels. The cases that
change something are functions here, from the tables to the session that the case hands to
`CloseSession` at its end, if any, and the new tables. A case sees a session through its
`clientId` and the connection of its channel, both read when the case runs.
-/

namespace MqttBroker

/-- A `*Session`. -/
abbrev SessionRef := ℕ

/-- The `io.ReadWriteCloser` of a channel. -/
abbrev ConnRef := ℕ

/-- The tables of `sessionMgr`, with the client gauges of the dashboard. -/
structure SessionMgr where
  waitingConnectSessionMap : GoMap ConnRef SessionRef := ∅
  connectedSessionMap : GoMap GoString SessionRef := ∅
  activeClients : ℤ := 0
  inactiveClients : ℤ := 0
  maxActiveClinets : ℤ := 0

namespace SessionMgr

/-- `insertSessionChan`. -/
def insertSession (conn : ConnRef) (s : SessionRef) (mgr : SessionMgr) :
    Option SessionRef × SessionMgr :=
  (none, { mgr with waitingConnectSessionMap := mgr.waitingConnectSessionMap.insert conn s })

/-- `connectTimeoutChan`. -/
def connectTimeout (conn : ConnRef) (s : SessionRef) (mgr : SessionMgr) :
    Option SessionRef × SessionMgr :=
  (some s, { mgr with
    waitingConnectSessionMap := mgr.waitingConnectSessionMap.erase conn
    inactiveClients := mgr.inactiveClients - 1 })

/-- `connectedChan`. -/
def connected (conn : ConnRef) (clientId : GoString) (s : SessionRef) (mgr : SessionMgr) :
    Option SessionRef × SessionMgr :=
  (none, { mgr with
    waitingConnectSessionMap := mgr.waitingConnectSessionMap.erase conn
    connectedSessionMap := mgr.connectedSessionMap.insert clientId s
    activeClients := mgr.activeClients + 1
    inactiveClients := mgr.inactiveClients - 1
    maxActiveClinets := max mgr.maxActiveClinets (mgr.activeClients + 1) })

/-- `disconnectSessionByClientIdChan`. -/
def disconnectSessionByClientId (clientId : GoString) (mgr : SessionMgr) :
    Option SessionRef × SessionMgr :=
  match mgr.connectedSessionMap.lookup clientId with
  | some s => (some s, { mgr with
      connectedSessionMap := mgr.connectedSessionMap.erase clientId
      activeClients := mgr.activeClients - 1 })
  | none => (none, mgr)

/-- `disconnectChan`. Whatever session is filed under the client id is deleted, and the
session of the event is the one that is closed. -/
def disconnect (clientId : GoString) (s : SessionRef) (mgr : SessionMgr) :
    Option SessionRef × SessionMgr :=
  if clientId ∈ mgr.connectedSessionMap then
    let connectedSessionMap := mgr.connectedSessionMap.erase clientId
    (some s, { mgr with
      connectedSessionMap
      activeClients := connectedSessionMap.entries.card })
  else (none, mgr)

/-- `pingTimeoutChan`: the same as `disconnectChan`. -/
def pingTimeout (clientId : GoString) (s : SessionRef) (mgr : SessionMgr) :
    Option SessionRef × SessionMgr :=
  disconnect clientId s mgr

/-- `getAllSessionChan`. -/
def getAllSessions (waitingOrder : RangeOrder ConnRef SessionRef)
    (connectedOrder : RangeOrder GoString SessionRef) (mgr : SessionMgr) : List SessionRef :=
  (waitingOrder.toList mgr.waitingConnectSessionMap).map Sigma.snd ++
    (connectedOrder.toList mgr.connectedSessionMap).map Sigma.snd

end SessionMgr
end MqttBroker
