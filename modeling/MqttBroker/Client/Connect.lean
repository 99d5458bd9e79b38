import MqttBroker.Session.Frames
import MqttBroker.Session.System

/-!
# Connecting a client

`Client.Connect` takes a user name, a password and a host out of one address, dials the host,
and sends a CONNECT with the two others on a session of its own. The address is split at every
`@` and what stands before the first one at every `:`, and the pieces are taken from fixed
places: a password that contains one of the two is cut off there.
-/

namespace MqttBroker

open Broker GoM Exec

variable {σ : Type}

/-- `Client`; the fields of the will are read by nothing. -/
structure Client where
  session : Option SessionRef := none
  proto : GoString := []
  addr : GoString := []
  user : GoString := []
  password : GoString := []
  clientId : GoString := []
  keepalive : UInt16 := 0

/-- `net.DialTimeout` and `tls.Dial`. -/
inductive Network
  | tcp
  | tcpTls
deriving DecidableEq

namespace Client

/-- `'@'`. -/
abbrev atSign : UInt8 := 64

/-- `':'`. -/
abbrev colon : UInt8 := 58

/-- `Connect` up to its `switch`: the fields it writes, and the address that is left to dial. -/
def parseAddr (proto addr : GoString) (this : Client) : Client × GoString :=
  match addr.splitOn atSign with
  | tmp :: host :: _ =>
    match tmp.splitOn colon with
    | user :: password :: _ => ({ this with proto, addr, user, password }, host)
    | [user] => ({ this with proto, addr, user }, host)
    | [] => ({ this with proto, addr }, host)
  | _ => ({ this with proto, addr }, addr)

/-- The `switch` of `Connect`. -/
def network (proto : GoString) : Network :=
  if proto = str "mqtt" then .tcp
  else if proto = str "mqtts" then .tcpTls
  else .tcp

/-- The CONNECT of a client, on the session `s`. -/
def connectMsg (s : Session) (this : Client) : ConnectPacket :=
  { header := { messageType := PacketType.connect }
    protocolName := str "MQTT"
    protocolVersion := 4
    usernameFlag := true
    username := this.user
    passwordFlag := true
    password := this.password
    clientIdentifier := this.clientId
    keepalive :=
      if this.keepalive = 0 then UInt16.ofInt (s.keepalive.tdiv second) else this.keepalive }

/-- What a call of `Connect` leaves and returns, with the address that it has dialled. -/
structure Connected where
  client : Client
  dialled : Network × GoString
  token : Option TokenRef
  err : Option GoError

/-- `HandleConnection`, up to the case of the manager that serves it. -/
def handleConnection (conn : ConnRef) (session : SessionRef) : GoM σ Unit :=
  mgrEvent fun mgr =>
    SessionMgr.insertSession conn session { mgr with inactiveClients := mgr.inactiveClients + 1 }

/-- `Connect`; `session` is the session that `NewSession` makes. -/
def connect (cfg : Config) (dial : Network → GoString → Except GoError ConnRef)
    (session : SessionRef) (proto addr : GoString) (this : Client) : GoM σ Connected := do
  let client := (parseAddr proto addr this).1
  let dialled := (network proto, (parseAddr proto addr this).2)
  match dial dialled.1 dialled.2 with
  | .error err => pure { client, dialled, token := none, err := some err }
  | .ok conn =>
    let now ← now
    modifySession session fun _ =>
      { Session.newSession cfg now conn false with clientId := client.clientId }
    handleConnection conn session
    let s ← GoM.session session
    let msg ← newPacket (.connect (connectMsg s client))
    let (token, err) ← Session.send cfg session msg
    pure { client := { client with session := some session }, dialled, token, err }

/-! ## Splitting -/

/-- The first piece is what stands before the first separator. -/
theorem splitOn_cases (a : UInt8) (l : GoString) :
    ∃ piece rest, l.splitOn a = piece :: rest ∧ a ∉ piece ∧
      (l = piece ∧ rest = [] ∨ ∃ l', l = piece ++ a :: l' ∧ rest = l'.splitOn a) := by
  by_cases ha : a ∈ l
  · obtain ⟨piece, l', hl, hpiece⟩ := List.eq_append_cons_of_mem ha
    refine ⟨piece, l'.splitOn a, ?_, hpiece, .inr ⟨l', hl, rfl⟩⟩
    rw [hl, List.splitOn_append_cons_self_of_not_mem hpiece]
  · exact ⟨l, [], List.splitOn_eq_singleton ha, ha, .inl ⟨rfl, rfl⟩⟩

section Address

variable {user password host : GoString}

/-- The part before the first `@` has the user name and the password up to that `@` and to its
own first `:`. -/
theorem parseAddr_credentials (proto password host : GoString) (this : Client)
    (husercolon : colon ∉ user) (huserat : atSign ∉ user) : ∃ piece dialled,
      parseAddr proto (user ++ colon :: password ++ atSign :: host) this =
        ({ this with
            proto
            addr := user ++ colon :: password ++ atSign :: host
            user
            password := piece }, dialled) ∧
      colon ∉ piece ∧ atSign ∉ piece := by
  obtain ⟨first, rest, -, hfirst, hpassword⟩ := splitOn_cases atSign password
  obtain ⟨piece, more, hsplit, hpiece, hcut⟩ := splitOn_cases colon first
  have hat : atSign ∉ piece := by
    obtain ⟨rfl, -⟩ | ⟨l', rfl, -⟩ := hcut
    · exact hfirst
    · exact fun h => hfirst (List.mem_append_left _ h)
  have hhead : atSign ∉ user ++ colon :: first := by
    rw [List.mem_append, List.mem_cons, not_or, not_or]
    exact ⟨huserat, by decide, hfirst⟩
  -- the address goes on after the first `@`, in the password or with the host
  obtain ⟨tail, htail⟩ : ∃ tail, user ++ colon :: password ++ atSign :: host =
      (user ++ colon :: first) ++ atSign :: tail := by
    obtain ⟨rfl, -⟩ | ⟨l', rfl, -⟩ := hpassword
    · exact ⟨host, rfl⟩
    · exact ⟨l' ++ atSign :: host, by simp only [List.append_assoc, List.cons_append]⟩
  obtain ⟨dialled, others, hdialled, -, -⟩ := splitOn_cases atSign tail
  refine ⟨piece, dialled, ?_, hpiece, hat⟩
  unfold parseAddr
  rw [htail, List.splitOn_append_cons_self_of_not_mem hhead, hdialled]
  simp only
  rw [List.splitOn_append_cons_self_of_not_mem husercolon, hsplit]

/-- A password without separators comes out as it went in, and the host is dialled. -/
theorem parseAddr_eq (proto : GoString) (this : Client) (husercolon : colon ∉ user)
    (huserat : atSign ∉ user) (hhost : atSign ∉ host) (hcolon : colon ∉ password)
    (hat : atSign ∉ password) :
    parseAddr proto (user ++ colon :: password ++ atSign :: host) this =
      ({ this with
          proto
          addr := user ++ colon :: password ++ atSign :: host
          user
          password }, host) := by
  have hhead : atSign ∉ user ++ colon :: password := by
    rw [List.mem_append, List.mem_cons, not_or, not_or]
    exact ⟨huserat, by decide, hat⟩
  unfold parseAddr
  rw [List.splitOn_append_cons_self_of_not_mem hhead, List.splitOn_eq_singleton hhost]
  simp only
  rw [List.splitOn_append_cons_self_of_not_mem husercolon, List.splitOn_eq_singleton hcolon]

end Address

/-! ## The call -/

section Call

variable (cfg : Config) {dial : Network → GoString → Except GoError ConnRef} (session : SessionRef)
  {proto addr : GoString} {this : Client} (b : Broker σ)

/-- Without a connection nothing is sent. -/
theorem connect_refused {err : GoError}
    (hdial : dial (network proto) (parseAddr proto addr this).2 = .error err) :
    connect cfg dial session proto addr this b =
      (.ok
        { client := (parseAddr proto addr this).1
          dialled := (network proto, (parseAddr proto addr this).2)
          token := none
          err := some err }, b) := by
  unfold connect
  simp only [hdial]
  rfl

/-- `Send` of a CONNECT on a running channel: it gets a token, and no entry in flight. -/
theorem send_connect_run {s : SessionRef} {r : PacketRef} {m : ConnectPacket} {b : Broker σ}
    (hcell : b.packets.cells r = .connect m)
    (htype : m.header.messageType = PacketType.connect)
    (hrunning : (b.sessions s).channel.isStoped = false) : ∃ b',
      Session.send cfg s r b = (.ok (some b.tokens.next, none), b') ∧
      (b'.sessions s).channel.iSendList = (b.sessions s).channel.iSendList ++ [r] ∧
      b'.packets = b.packets := by
  have hstoped : ¬ (b.sessions s).channel.isStoped = true := by
    rw [hrunning]
    exact Bool.false_ne_true
  have hpacket : packet r b = (.ok (.connect m), b) := by
    rw [packet_run, hcell]
  have htype : (ControlPacket.connect m).type = 1 := htype
  let b₁ : Broker σ := { b with tokens := (b.tokens.alloc { kind := .connect }).2 }
  have htoken : (allocToken 1 : GoM σ (Option TokenRef)) b = (.ok (some b.tokens.next), b₁) := rfl
  have hkind : (newToken 1).map Token.kind = some .connect := rfl
  let keep : Session → Session := fun x => { x with connectToken := some b.tokens.next }
  have hcase : (Session.sendCase s r (.connect m) (some b.tokens.next) (some .connect) :
      GoM σ Bool) b₁ = (.ok false, b₁.setSession s keep) := rfl
  have hkept : ((b₁.setSession s keep).sessions s).channel = (b.sessions s).channel := by
    rw [setSession_self]
  rw [Session.send, bind_run_ok (session_run s _), if_neg hstoped, bind_run_ok hpacket, htype,
    bind_run_ok htoken, hkind, bind_run_ok hcase, if_neg Bool.false_ne_true]
  show ∃ b', (Channel.send s r >>= fun err => pure (some b.tokens.next, err) : GoM σ _)
    (b₁.setSession s keep) = _ ∧ _
  rw [bind_run_ok (Channel.send_running _ (by rw [hkept, hrunning]))]
  refine ⟨_, rfl, ?_, rfl⟩
  show (((b₁.setSession s keep).setSession s (Session.queueSend r)).sessions s).channel.iSendList =
    _
  rw [setSession_self, ← hkept]
  rfl

/-- On a connection the CONNECT is the first packet in the send list of the new session. -/
theorem connect_sends {conn : ConnRef}
    (hdial : dial (network proto) (parseAddr proto addr this).2 = .ok conn) :
    ∃ out b' msg s, connect cfg dial session proto addr this b = (.ok out, b') ∧
      out.dialled = (network proto, (parseAddr proto addr this).2) ∧
      (b'.sessions session).channel.iSendList = [msg] ∧
      b'.packets.cells msg = .connect (connectMsg s (parseAddr proto addr this).1) := by
  let client := (parseAddr proto addr this).1
  let made : Session :=
    { Session.newSession cfg b.now conn false with clientId := client.clientId }
  let b₁ : Broker σ := b.setSession session fun _ => made
  let b₂ : Broker σ :=
    { b₁ with mgr := (SessionMgr.insertSession conn session
        { b₁.mgr with inactiveClients := b₁.mgr.inactiveClients + 1 }).2 }
  have hnew : b₂.sessions session = made := setSession_self session (fun _ => made) b
  have hhanded : handleConnection conn session b₁ = (.ok (), b₂) := by
    rw [handleConnection, mgrEvent_run]
    simp only [b₂, SessionMgr.insertSession, Option.toList_none, List.append_nil]
  let p : ControlPacket := .connect (connectMsg made client)
  let b₃ : Broker σ := { b₂ with packets := (b₂.packets.alloc p).2 }
  have hcell : b₃.packets.cells b₂.packets.next = p := Heap.alloc_self ..
  have hempty : (b₃.sessions session).channel = { conn } := by
    show (b₂.sessions session).channel = _
    rw [hnew]
    rfl
  obtain ⟨b', hsend, hqueue, hpackets⟩ := send_connect_run cfg hcell rfl (by rw [hempty])
  refine ⟨{
    client := { client with session := some session }
    dialled := (network proto, (parseAddr proto addr this).2)
    token := some b₃.tokens.next
    err := none }, b', b₂.packets.next, made, ?_, rfl, ?_, ?_⟩
  · unfold connect
    simp only [hdial]
    rw [bind_run_ok (now_run b), bind_run_ok (modifySession_run _ _ b), bind_run_ok hhanded,
      bind_run_ok (session_run session b₂), hnew, bind_run_ok (newPacket_run _ b₂),
      bind_run_ok hsend]
    rfl
  · rw [hqueue, hempty]
    rfl
  · rw [hpackets, hcell]

variable (proto this) in
/-- `Connect` on the address of a user, a password and a host dials that host, and on a connection
it queues a CONNECT with that user and that password. -/
def ConnectsAs (user password host : GoString) : Prop :=
  ∀ dial, ∃ out b',
    connect cfg dial session proto (user ++ colon :: password ++ atSign :: host) this b =
      (.ok out, b') ∧
    out.dialled = (network proto, host) ∧
    ∀ conn, dial (network proto) host = .ok conn → ∃ msg m,
      (b'.sessions session).channel.iSendList = [msg] ∧ b'.packets.cells msg = .connect m ∧
      (m.usernameFlag = true ∧ m.username = user) ∧ (m.passwordFlag = true ∧ m.password = password)

variable {user password host : GoString}

/-- The password of the CONNECT is the one that the address was split into. -/
theorem ConnectsAs.password_eq (h : ConnectsAs cfg session proto this b user password host) :
    (parseAddr proto (user ++ colon :: password ++ atSign :: host) this).1.password =
      password := by
  let dial : Network → GoString → Except GoError ConnRef := fun _ _ => .ok 0
  obtain ⟨out, b', hrun, hdialled, hsent⟩ := h dial
  obtain ⟨msg, m, hqueue, hcell, -, -, hpassword⟩ := hsent 0 rfl
  have hdial : dial (network proto)
      (parseAddr proto (user ++ colon :: password ++ atSign :: host) this).2 = .ok 0 := rfl
  obtain ⟨out', b'', msg', s, hrun', -, hqueue', hcell'⟩ := connect_sends cfg session b hdial
  obtain rfl : b' = b'' := congrArg Prod.snd (hrun.symm.trans hrun')
  obtain rfl : msg = msg' := List.singleton_inj.mp (hqueue.symm.trans hqueue')
  rw [ControlPacket.connect.inj (hcell.symm.trans hcell')] at hpassword
  exact hpassword

/-- **The client connects as its address says exactly where the password contains neither `:` nor
`@`**: what stands between the first `:` and the last `@` is the password then, and otherwise
only its first piece is sent. -/
theorem connectsAs_iff (proto : GoString) (this : Client) (husercolon : colon ∉ user)
    (huserat : atSign ∉ user) (hhost : atSign ∉ host) :
    ConnectsAs cfg session proto this b user password host ↔
      colon ∉ password ∧ atSign ∉ password := by
  constructor
  · intro h
    obtain ⟨piece, dialled, hparse, hpiece, hat⟩ :=
      parseAddr_credentials proto password host this husercolon huserat
    have hpassword := h.password_eq
    rw [hparse] at hpassword
    obtain rfl : piece = password := hpassword
    exact ⟨hpiece, hat⟩
  · rintro ⟨hcolon, hat⟩ dial
    have hparse := parseAddr_eq proto this husercolon huserat hhost hcolon hat
    cases hdial : dial (network proto) host with
    | error err =>
      refine ⟨_, b, connect_refused cfg session b (by rw [hparse, hdial]), ?_, ?_⟩
      · rw [hparse]
      · intro conn h
        cases h
    | ok conn =>
      have hsome : dial (network proto)
          (parseAddr proto (user ++ colon :: password ++ atSign :: host) this).2 = .ok conn := by
        rw [hparse]
        exact hdial
      obtain ⟨out, b', msg, s, hrun, hdialled, hqueue, hcell⟩ := connect_sends cfg session b hsome
      rw [hparse] at hdialled hcell
      refine ⟨out, b', hrun, hdialled, fun _ _ => ⟨msg, _, hqueue, hcell, ⟨rfl, rfl⟩, rfl, rfl⟩⟩

/-- A user `u` with the password `p` at the host `h:1`. -/
theorem connectsAs_plain : ConnectsAs {} 0 (str "mqtt") {}
    (Process.start {} () fun _ => false).broker (str "u") (str "p") (str "h:1") :=
  (connectsAs_iff {} 0 _ (str "mqtt") {} (by decide) (by decide) (by decide)).mpr (by decide)

/-- With the password `p:q`, the CONNECT has the password `p`. -/
theorem not_connectsAs_colon : ¬ ConnectsAs {} 0 (str "mqtt") {}
    (Process.start {} () fun _ => false).broker (str "u") (str "p:q") (str "h:1") := by
  intro h
  have hsent : (parseAddr (str "mqtt") (str "u:p:q@h:1") {}).1.password = str "p" := by decide
  exact absurd (hsent.symm.trans h.password_eq) (by decide)

end Call

end Client
end MqttBroker
