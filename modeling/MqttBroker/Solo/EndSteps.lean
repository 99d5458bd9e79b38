import MqttBroker.Solo.System

/-!
# What one operation of the end does

`EndOp.Ran` lists the operations of the end branch by branch, with what they find and what
they leave. The invariants of a session's end are derived from it.
-/

namespace MqttBroker.Solo

/-- An operation that finds `x` and `f` leaves `next` to its goroutine, starts the goroutines
`spawned`, and leaves the flags `f'`. -/
inductive EndOp.Ran (x : Outbox) (f : Flags) : EndOp → List Op → Pool Op → Flags → Prop
  | recvIgnored (r : PacketRef) (cleared : Bool) : f.clostep ≠ .running →
      Ran x f (.recvMsg r cleared) [] [] f
  | disconnected {r : PacketRef} (cleared : Bool) : f.clostep = .running →
      (x.packet r).kind = PacketType.disconnect →
      Ran x f (.recvMsg r cleared) [.stop (.load .disconnected)] [] (f.note .disconnected)
  | received {r : PacketRef} (cleared : Bool) : f.clostep = .running →
      (x.packet r).kind ≠ PacketType.disconnect →
      Ran x f (.recvMsg r cleared) (procFrontRemoteMsg f r cleared (x.packet r)) [] f
  | storeConnected (connected : ℤ) : Ran x f (.storeConnected connected) [] [] { f with connected }
  | setWill (willFlag : Bool) :
      Ran x f (.setWill willFlag) [] [] { f with willFlag := willFlag || f.willFlag }
  | readMuted : f.clostep ≠ .running → Ran x f .readFailed [] [] f
  | readFailed : f.clostep = .running →
      Ran x f .readFailed [] [[.stop (.exception .recv)]] (f.note (.spawned .recv))
  | onChannelError {k : Report} : k ≠ .pingTimeout →
      Ran x f .onChannelError [.stop (.load k)] [] f
  | recvExit : Ran x f .recvExit [] [] { f with recvLoop := { f.recvLoop with exited := true } }
  | loadMuted (k : Report) : f.clostep ≠ .running → Ran x f (.load k) [] [] f
  | load (k : Report) : f.clostep = .running → Ran x f (.load k) [.stop (.storeClosing k)] [] f
  | storeClosing (k : Report) :
      Ran x f (.storeClosing k) [.stop (.tellMgr k)] [] { f with clostep := .closing }
  | tellPing : Ran x f (.tellMgr .pingTimeout) [] [[.stop (.exception .pingTimeout)]]
      (f.note (.spawned .pingTimeout))
  | tellMgr {k : Report} : k ≠ .pingTimeout → Ran x f (.tellMgr k) [] [] f
  | tickMuted (timedOut : Bool) : f.clostep ≠ .running → Ran x f (.onTick timedOut) [] [] f
  | onTick (timedOut : Bool) : f.clostep = .running → Ran x f (.onTick timedOut)
      ((if timedOut then [.stop .onTimeout] else []) ++ [.msg .checkInflight]) [] f
  | serverTimeout (k : Report) : Ran x f .onTimeout [.stop (.load k)] [] f
  | clientTimeout (l : List MsgOp) : l ⊆ [.reply (.pingreq newPingreq)] →
      Ran x f .onTimeout (l.map .msg) [] f
  | writeMuted : f.clostep ≠ .running → Ran x f .writeFailed [] [] f
  | writeFailed : f.clostep = .running →
      Ran x f .writeFailed [] [[.stop (.exception .sent)]] (f.note (.spawned .sent))
  | storeStoped : Ran x f .storeStoped [] [] { f with isStoped := true }
  | sendExit : Ran x f .sendExit [] [] { f with sendLoop := { f.sendLoop with exited := true } }
  | hadException (reason : DisconnectReason) : f.hadDisconnectException ≠ .ok →
      Ran x f (.exception reason) [] [] f
  | exception (reason : DisconnectReason) : f.hadDisconnectException = .ok →
      Ran x f (.exception reason) [.stop (.loadWill reason)] [] f
  | loadWill (reason : DisconnectReason) : f.willFlag = true →
      Ran x f (.loadWill reason) [.stop (.publishWill reason)] [] f
  | loadNoWill (reason : DisconnectReason) : f.willFlag = false →
      Ran x f (.loadWill reason) [.stop (.storeException reason)] [] f
  | publishWill (reason : DisconnectReason) :
      Ran x f (.publishWill reason) [.stop (.storeException reason)] [] (f.note .will)
  | storeException (reason : DisconnectReason) :
      Ran x f (.storeException reason) [] [] { f with hadDisconnectException := reason }
  | closedAlready : f.isClosed → Ran x f .loadClostep [.stop .closeReturned] [] f
  | loadClostep : ¬ f.isClosed → Ran x f .loadClostep [.stop .storeClosed] [] f
  | storeClosed :
      Ran x f .storeClosed [.stop .closePedding] [] ({ f with clostep := .closed }.note .closed)
  | closePedding : f.peddingClosed = false →
      Ran x f .closePedding [.stop .loadStoped] [] { f with peddingClosed := true }
  | channelStoped : f.isStoped = true → Ran x f .loadStoped [.stop .loadConnected] [] f
  | channelRuns : f.isStoped = false → Ran x f .loadStoped [.stop .stopChannel] [] f
  | stopChannel : Ran x f .stopChannel [.stop .closeConn] [] { f with isStoped := true }
  | closeConn : Ran x f .closeConn [.stop .openedFiles] [] { f with connClosed := true }
  | openedFiles : Ran x f .openedFiles [.stop .stopSend] []
      ({ f with openedFiles := f.openedFiles - 1 }.note .openedFiles)
  | stopSend : f.sendLoop.running → Ran x f .stopSend [.stop .waitSend] []
      { f with sendLoop := { f.sendLoop with interrupted := true } }
  | sendOver : ¬ f.sendLoop.running → Ran x f .stopSend [.stop .stopRecv] [] f
  | waitSend : ¬ f.sendLoop.running → Ran x f .waitSend [.stop .stopRecv] [] f
  | stopRecv : f.recvLoop.running → Ran x f .stopRecv [.stop .waitRecv] []
      { f with recvLoop := { f.recvLoop with interrupted := true } }
  | recvOver : ¬ f.recvLoop.running → Ran x f .stopRecv [.stop .loadConnected] [] f
  | waitRecv : ¬ f.recvLoop.running → Ran x f .waitRecv [.stop .loadConnected] [] f
  | serverClosed : f.isServer = true → Ran x f .loadConnected [.stop .closeReturned] [] f
  | clientConnected : f.isServer = false → f.isConnected →
      Ran x f .loadConnected [.msg .completeDisconnect, .stop .closeReturned] [] f
  | clientNotConnected : f.isServer = false → ¬ f.isConnected →
      Ran x f .loadConnected [.stop .loadConnectedZero] [] f
  | connectTimeout : f.connected = 0 →
      Ran x f .loadConnectedZero [.msg (.connectErr none), .stop .closeReturned] [] f
  | connectRefused : f.connected ≠ 0 → Ran x f .loadConnectedZero [.stop .closeReturned] [] f
  | closeReturned : Ran x f .closeReturned [] [] (f.note .closeReturned)

/-- What a handler does besides the outbound side: it ends the connection phase, or reports a
DISCONNECT. -/
theorem stop_mem_procFrontRemoteMsg {f : Flags} {r : PacketRef} {cleared : Bool}
    {p : ControlPacket} {o : EndOp} (h : .stop o ∈ procFrontRemoteMsg f r cleared p) :
    (∃ connected, o = .storeConnected connected) ∨ (∃ willFlag, o = .setWill willFlag) ∨
      (o = .load .disconnected ∧ p.kind = PacketType.disconnect) := by
  cases p with
  | connect m =>
    simp only [procFrontRemoteMsg] at h
    split at h
    · exact absurd h (by simp)
    · simp only [List.mem_cons, Op.stop.injEq, reduceCtorEq, List.not_mem_nil, or_false,
        false_or] at h
      exact h.imp (fun h => ⟨_, h⟩) fun h => .inl ⟨_, h⟩
  | connack m =>
    simp only [procFrontRemoteMsg, List.mem_cons, Op.stop.injEq, reduceCtorEq, List.not_mem_nil,
      or_false] at h
    exact .inl ⟨_, h⟩
  | disconnect m => exact .inr (.inr ⟨Op.stop.inj (List.mem_singleton.mp h), rfl⟩)
  | publish m =>
    simp only [procFrontRemoteMsg] at h
    split at h
    · exact absurd h (by simp)
    · split at h <;> exact absurd h (by simp)
  | _ => exact absurd h (by simp [procFrontRemoteMsg])

theorem procFrontRemoteMsg_disconnect {f : Flags} {r : PacketRef} {cleared : Bool}
    {p : ControlPacket} (h : p.kind = PacketType.disconnect) :
    procFrontRemoteMsg f r cleared p = [.stop (.load .disconnected)] := by
  cases p with
  | disconnect m => rfl
  | _ => exact absurd h (by rw [ControlPacket.kind]; decide)

theorem EndOp.ran_of_run {x : Outbox} {f : Flags} {o : EndOp} {r : Ended}
    (h : o.run x f = some r) : Ran x f o r.next r.spawned r.flags := by
  cases o with
  | recvMsg m cleared =>
    rw [EndOp.run] at h
    split at h
    · next hc => exact Option.some.inj h ▸ .recvIgnored m cleared hc
    · next hc =>
      rw [ne_eq, not_not] at hc
      rw [← Option.some.inj h]
      by_cases hk : (x.packet m).kind = PacketType.disconnect
      · dsimp only
        rw [procFrontRemoteMsg_disconnect hk, if_pos hk]
        exact .disconnected cleared hc hk
      · dsimp only
        rw [if_neg hk]
        exact .received cleared hc hk
  | readFailed =>
    rw [EndOp.run] at h
    split at h
    · next hc => exact Option.some.inj h ▸ .readMuted hc
    · next hc => exact Option.some.inj h ▸ .readFailed (not_not.mp hc)
  | writeFailed =>
    rw [EndOp.run] at h
    split at h
    · next hc => exact Option.some.inj h ▸ .writeMuted hc
    · next hc => exact Option.some.inj h ▸ .writeFailed (not_not.mp hc)
  | onChannelError =>
    rw [← Option.some.inj h]
    refine .onChannelError ?_
    split <;> simp
  | load k =>
    rw [EndOp.run] at h
    split at h
    · next hc => exact Option.some.inj h ▸ .loadMuted k hc
    · next hc => exact Option.some.inj h ▸ .load k (not_not.mp hc)
  | tellMgr k =>
    rw [EndOp.run] at h
    split at h
    · next hk =>
      subst hk
      exact Option.some.inj h ▸ .tellPing
    · next hk => exact Option.some.inj h ▸ .tellMgr hk
  | onTick timedOut =>
    rw [EndOp.run] at h
    split at h
    · next hc => exact Option.some.inj h ▸ .tickMuted timedOut hc
    · next hc => exact Option.some.inj h ▸ .onTick timedOut (not_not.mp hc)
  | onTimeout =>
    rw [EndOp.run] at h
    rw [← Option.some.inj h]
    dsimp only
    split
    · exact .serverTimeout _
    · split
      · exact .clientTimeout [.reply (.pingreq newPingreq)] (List.Subset.refl _)
      · exact .clientTimeout [] (List.nil_subset _)
  | exception reason =>
    rw [EndOp.run] at h
    split at h
    · next hc => exact Option.some.inj h ▸ .hadException reason hc
    · next hc => exact Option.some.inj h ▸ .exception reason (not_not.mp hc)
  | loadWill reason =>
    rw [← Option.some.inj h]
    cases hw : f.willFlag with
    | true => exact .loadWill reason hw
    | false => exact .loadNoWill reason hw
  | loadClostep =>
    rw [← Option.some.inj h]
    by_cases hc : f.isClosed
    · dsimp only
      rw [if_pos hc]
      exact .closedAlready hc
    · dsimp only
      rw [if_neg hc]
      exact .loadClostep hc
  | loadStoped =>
    rw [← Option.some.inj h]
    cases hs : f.isStoped with
    | true => exact .channelStoped hs
    | false => exact .channelRuns hs
  | closePedding =>
    rw [EndOp.run] at h
    split at h
    · exact absurd h (by simp)
    · next hc => exact Option.some.inj h ▸ .closePedding (Bool.eq_false_of_not_eq_true hc)
  | stopSend =>
    rw [EndOp.run] at h
    split at h
    · next hr => exact Option.some.inj h ▸ .stopSend hr
    · next hr => exact Option.some.inj h ▸ .sendOver hr
  | stopRecv =>
    rw [EndOp.run] at h
    split at h
    · next hr => exact Option.some.inj h ▸ .stopRecv hr
    · next hr => exact Option.some.inj h ▸ .recvOver hr
  | waitSend =>
    rw [EndOp.run] at h
    split at h
    · exact absurd h (by simp)
    · next hr => exact Option.some.inj h ▸ .waitSend hr
  | waitRecv =>
    rw [EndOp.run] at h
    split at h
    · exact absurd h (by simp)
    · next hr => exact Option.some.inj h ▸ .waitRecv hr
  | loadConnected =>
    rw [EndOp.run] at h
    rw [← Option.some.inj h]
    dsimp only
    split
    · next hs => exact .serverClosed hs
    · next hs =>
      split
      · next hc => exact .clientConnected (Bool.eq_false_of_not_eq_true hs) hc
      · next hc => exact .clientNotConnected (Bool.eq_false_of_not_eq_true hs) hc
  | loadConnectedZero =>
    rw [EndOp.run] at h
    rw [← Option.some.inj h]
    dsimp only
    split
    · next hc => exact .connectTimeout hc
    · next hc => exact .connectRefused hc
  | _ =>
    rw [← Option.some.inj h]
    constructor

end MqttBroker.Solo
