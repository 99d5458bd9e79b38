import MqttBroker.Solo.EndSteps

/-!
# What one step does

`MsgOp.Ran` lists the operations of the outbound side branch by branch, with what they find
and what they leave. `Exchange` is the same for a whole turn, on the operations of all
goroutines up to their order: a turn exchanges some operations for others, and changes the
outbox and the flags. The invariants of the outbound side are derived from these two.
-/

namespace MqttBroker.Solo

variable {cfg : Config}

/-! ## Operations of the outbound side -/

/-- An operation that finds `x` leaves `new` to its goroutine, and the outbox `x'`. -/
inductive MsgOp.Ran (cfg : Config) (f : Flags) (x : Outbox) :
    MsgOp → List MsgOp → Outbox → Prop
  | addMsgId (e : EntryRef) :
      Ran cfg f x (.addMsgId e) [.setMessageID e (UInt16.ofNat (x.lastMsgId + 1))]
        { x with lastMsgId := x.lastMsgId + 1 }
  | numberPublish {e : EntryRef} (id : UInt16) : (x.entry e).published = true →
      Ran cfg f x (.setMessageID e id) [.isConnected e]
        (x.modifyPacket (x.entry e).msg (ControlPacket.setMessageID id))
  | numberSend {e : EntryRef} (id : UInt16) : (x.entry e).published = false →
      Ran cfg f x (.setMessageID e id) [.newInflight (.send e)]
        (x.modifyPacket (x.entry e).msg (ControlPacket.setMessageID id))
  | connected (e : EntryRef) : f.isConnected → Ran cfg f x (.isConnected e) [.isClosed e] x
  | notConnected (e : EntryRef) (err : GoError) :
      Ran cfg f x (.isConnected e) [.returned e (some err)] x
  | notClosed (e : EntryRef) : ¬ f.isClosed → Ran cfg f x (.isClosed e) [.inflightLen e] x
  | closed (e : EntryRef) (err : GoError) :
      Ran cfg f x (.isClosed e) [.returned e (some err)] x
  | windowOpen (e : EntryRef) : x.inflightingList.length < cfg.maxSizeOfInflight →
      Ran cfg f x (.inflightLen e) [.sendLen e] x
  | windowFull (e : EntryRef) : Ran cfg f x (.inflightLen e) [.sendPeddingChan e] x
  | sendListOpen (e : EntryRef) : x.iSendList.length < cfg.maxSizeOfPublishMsg →
      Ran cfg f x (.sendLen e) [.insert2Inflight (.publish e)] x
  | sendListFull (e : EntryRef) : Ran cfg f x (.sendLen e) [.sendPeddingChan e] x
  | peddingClosed (e : EntryRef) : f.peddingClosed = true →
      Ran cfg f x (.sendPeddingChan e) [.returned e none] (x.note (.lost e))
  | peddingRoom (e : EntryRef) :
      Ran cfg f x (.sendPeddingChan e) [.pushPedding e] { x with peddingLen := x.peddingLen + 1 }
  | pushPedding (e : EntryRef) :
      Ran cfg f x (.pushPedding e) [.returned e none]
        { x with peddingMsgList := GoList.push e x.peddingMsgList }
  | refused (c : Caller) : f.isStoped = true →
      Ran cfg f x (.insert2Inflight c) c.rest (x.note (.lost c.entry))
  | inserted (c : Caller) : f.isStoped = false →
      Ran cfg f x (.insert2Inflight c) [.newInflight c] x
  | notInserted {c : Caller} : (x.packet (x.entry c.entry).p).kind ∉
        [PacketType.publish, PacketType.pubrec, PacketType.pubrel] →
      Ran cfg f x (.insert2Inflight c) [.sendEntry c] x
  | newInflight (c : Caller) (timeout : ℤ) :
      Ran cfg f x (.newInflight c) [.pushInflight c]
        (x.modifyEntry c.entry fun i => { i with timeout })
  | pushInflight (c : Caller) :
      Ran cfg f x (.pushInflight c) [c.afterPush x]
        { x with inflightingList := GoList.push c.entry x.inflightingList }
  | sendEntry (c : Caller) :
      Ran cfg f x (.sendEntry c) [.channelSend (some c) (x.entry c.entry).p] x
  | channelStoped (c : Option Caller) (r : PacketRef) : f.isStoped = true →
      Ran cfg f x (.channelSend c r) (c.elim [] Caller.rest) x
  | channelSend (c : Option Caller) (r : PacketRef) : f.isStoped = false →
      Ran cfg f x (.channelSend c r) [.pushSend c r] x
  | pushSend (c : Option Caller) (r : PacketRef) :
      Ran cfg f x (.pushSend c r) (c.elim [] Caller.rest)
        ({ x with iSendList := GoList.push r x.iSendList }.note (.sent c r))
  | returned (e : EntryRef) (err : Option GoError) :
      Ran cfg f x (.returned e err) [] (x.note (.returned e err))
  | sendStoped (e : EntryRef) (err : GoError) :
      Ran cfg f x (.send e) [.returned e (some err)] x
  | send (e : EntryRef) : f.isStoped = false →
      Ran cfg f x (.send e) (sendCase e (x.entry e).msg (x.packet (x.entry e).msg))
        (assignToken e (x.packet (x.entry e).msg) x)
  | inflightNonempty : Ran cfg f x .checkInflight [.readNow, .refillLen true] x
  | inflightEmpty : Ran cfg f x .checkInflight [.refillLen true] x
  | readNow : Ran cfg f x .readNow [.collect x.now] x
  | collect (now : ℤ) : Ran cfg f x (.collect now) ((x.timedOut now).map (.resend · now)) x
  | resend (e : EntryRef) (now timeout : ℤ) :
      Ran cfg f x (.resend e now) [.channelSend (some (.resend e)) (x.entry e).p]
        (x.modifyEntry e fun i => { i with retryCnt := i.retryCnt + 1, timeout })
  | tickWindowOpen : x.inflightingList.length < cfg.maxSizeOfInflight →
      Ran cfg f x (.refillLen true) [.refillSendLen] x
  | doneWindowOpen : x.inflightingList.length < cfg.maxSizeOfInflight →
      Ran cfg f x (.refillLen false) [.recvPeddingChan] x
  | noRefill (tick : Bool) : Ran cfg f x (.refillLen tick) [] x
  | refillSendOpen : Ran cfg f x .refillSendLen [.recvPeddingChan] x
  | refillSendFull : Ran cfg f x .refillSendLen [] x
  | recvPeddingChan :
      Ran cfg f x .recvPeddingChan [.popPedding] { x with peddingLen := x.peddingLen - 1 }
  | popNothing : x.peddingMsgList = [] → Ran cfg f x .popPedding [] x
  | popPedding {e : EntryRef} {rest : List EntryRef} : x.peddingMsgList = e :: rest →
      Ran cfg f x .popPedding [.insert2Inflight (.refill e)] { x with peddingMsgList := rest }
  | loadMessageID (r : PacketRef) :
      Ran cfg f x (.loadMessageID r) [.removeInflight r (x.packet r).messageID] x
  | removeNothing (r : PacketRef) (id : UInt16) : Ran cfg f x (.removeInflight r id) [] x
  | removeInflight {e : EntryRef} (r : PacketRef) {id : UInt16} : x.acknowledged id = some e →
      Ran cfg f x (.removeInflight r id) (afterRemove e r x)
        ((x.removeInflight id).note (.removed e r (x.idOf e)))
  | subackResults {e : EntryRef} (r : PacketRef) {t t' : Token} : (x.entry e).t = some t →
      t'.complete = t.complete →
      Ran cfg f x (.subackResults e r) [.flowComplete e]
        (x.modifyEntry e fun i => { i with t := some t' })
  | flowComplete {e : EntryRef} {t : Token} : (x.entry e).t = some t → t.complete = false →
      Ran cfg f x (.flowComplete e) []
        ((x.modifyEntry e fun i => { i with t := some { t with complete := true } }).note
          (.completed e))
  | onPubrec (messageID : UInt16) :
      Ran cfg f x (.onPubrec messageID)
        [.channelSend none x.packets.next, .updateInflight x.packets.next]
        (x.newPacket (.pubrel { newPubrel with messageID }))
  | updateInflight (r : PacketRef) : Ran cfg f x (.updateInflight r) [] (x.updateInflight r)
  | reply (p : ControlPacket) :
      Ran cfg f x (.reply p) [.channelSend none x.packets.next] (x.newPacket p)
  | writedQos0 {r : PacketRef} : (x.packet r).kind = PacketType.publish →
      (x.packet r).details.qos = 0 → Ran cfg f x (.onWrited r) (onInflightDone r (x.packet r)) x
  | writedOther (r : PacketRef) : Ran cfg f x (.onWrited r) [] x
  | connectErr {e : EntryRef} (code : Option UInt8) : x.connectToken = some e →
      Ran cfg f x (.connectErr code) [.completeConnect] (x.modifyEntry e (setConnectErr code))
  | noConnectErr (code : Option UInt8) : x.connectToken = none →
      Ran cfg f x (.connectErr code) [] x
  | completeConnect : Ran cfg f x .completeConnect (x.connectToken.map .flowComplete).toList x
  | completeDisconnect :
      Ran cfg f x .completeDisconnect (x.disconnectToken.map .flowComplete).toList x

theorem subackToken_complete {p : ControlPacket} {t t' : Token}
    (h : subackToken p t = some t') : t'.complete = t.complete := by
  unfold subackToken at h
  split at h
  · split at h
    · rw [← Option.some.inj h]
    · exact absurd h (by simp)
  · exact absurd h (by simp)

theorem MsgOp.ran_of_run {f : Flags} {x x' : Outbox} {o : MsgOp} {new : List MsgOp}
    (h : o.run cfg f x = some (new, x')) : Ran cfg f x o new x' := by
  cases o with
  | setMessageID e id =>
    obtain ⟨rfl, rfl⟩ := Prod.mk.inj (Option.some.inj h)
    cases hp : (x.entry e).published with
    | true => exact .numberPublish id hp
    | false => exact .numberSend id hp
  | isConnected e =>
    rw [run] at h
    split at h
    · next hc =>
      obtain ⟨rfl, rfl⟩ := Prod.mk.inj (Option.some.inj h)
      exact .connected e hc
    · obtain ⟨rfl, rfl⟩ := Prod.mk.inj (Option.some.inj h)
      exact .notConnected e _
  | isClosed e =>
    rw [run] at h
    split at h
    · obtain ⟨rfl, rfl⟩ := Prod.mk.inj (Option.some.inj h)
      exact .closed e _
    · next hc =>
      obtain ⟨rfl, rfl⟩ := Prod.mk.inj (Option.some.inj h)
      exact .notClosed e hc
  | inflightLen e =>
    rw [run] at h
    split at h
    · next hlt =>
      obtain ⟨rfl, rfl⟩ := Prod.mk.inj (Option.some.inj h)
      exact .windowOpen e hlt
    · obtain ⟨rfl, rfl⟩ := Prod.mk.inj (Option.some.inj h)
      exact .windowFull e
  | sendLen e =>
    rw [run] at h
    split at h
    · next hlt =>
      obtain ⟨rfl, rfl⟩ := Prod.mk.inj (Option.some.inj h)
      exact .sendListOpen e hlt
    · obtain ⟨rfl, rfl⟩ := Prod.mk.inj (Option.some.inj h)
      exact .sendListFull e
  | sendPeddingChan e =>
    rw [run] at h
    split at h
    · next hc =>
      obtain ⟨rfl, rfl⟩ := Prod.mk.inj (Option.some.inj h)
      exact .peddingClosed e hc
    · split at h
      · obtain ⟨rfl, rfl⟩ := Prod.mk.inj (Option.some.inj h)
        exact .peddingRoom e
      · exact absurd h (by simp)
  | insert2Inflight c =>
    rw [run] at h
    split at h
    · next hs =>
      obtain ⟨rfl, rfl⟩ := Prod.mk.inj (Option.some.inj h)
      exact .refused c hs
    · next hs =>
      split at h
      · obtain ⟨rfl, rfl⟩ := Prod.mk.inj (Option.some.inj h)
        exact .inserted c (Bool.eq_false_of_not_eq_true hs)
      · next hk =>
        obtain ⟨rfl, rfl⟩ := Prod.mk.inj (Option.some.inj h)
        exact .notInserted hk
  | channelSend c r =>
    rw [run] at h
    split at h
    · next hs =>
      obtain ⟨rfl, rfl⟩ := Prod.mk.inj (Option.some.inj h)
      exact .channelStoped c r hs
    · next hs =>
      obtain ⟨rfl, rfl⟩ := Prod.mk.inj (Option.some.inj h)
      exact .channelSend c r (Bool.eq_false_of_not_eq_true hs)
  | send e =>
    rw [run] at h
    split at h
    · obtain ⟨rfl, rfl⟩ := Prod.mk.inj (Option.some.inj h)
      exact .sendStoped e _
    · next hs =>
      obtain ⟨rfl, rfl⟩ := Prod.mk.inj (Option.some.inj h)
      exact .send e (Bool.eq_false_of_not_eq_true hs)
  | checkInflight =>
    rw [run] at h
    split at h
    · obtain ⟨rfl, rfl⟩ := Prod.mk.inj (Option.some.inj h)
      exact .inflightNonempty
    · obtain ⟨rfl, rfl⟩ := Prod.mk.inj (Option.some.inj h)
      exact .inflightEmpty
  | refillLen tick =>
    rw [run] at h
    split at h
    · next hlt =>
      obtain ⟨rfl, rfl⟩ := Prod.mk.inj (Option.some.inj h)
      cases tick with
      | true => exact .tickWindowOpen hlt
      | false => exact .doneWindowOpen hlt
    · obtain ⟨rfl, rfl⟩ := Prod.mk.inj (Option.some.inj h)
      exact .noRefill tick
  | refillSendLen =>
    rw [run] at h
    split at h
    · obtain ⟨rfl, rfl⟩ := Prod.mk.inj (Option.some.inj h)
      exact .refillSendOpen
    · obtain ⟨rfl, rfl⟩ := Prod.mk.inj (Option.some.inj h)
      exact .refillSendFull
  | popPedding =>
    rw [run] at h
    split at h
    · next hp =>
      obtain ⟨rfl, rfl⟩ := Prod.mk.inj (Option.some.inj h)
      exact .popNothing hp
    · next hp =>
      obtain ⟨rfl, rfl⟩ := Prod.mk.inj (Option.some.inj h)
      exact .popPedding hp
  | removeInflight r id =>
    rw [run] at h
    split at h
    · obtain ⟨rfl, rfl⟩ := Prod.mk.inj (Option.some.inj h)
      exact .removeNothing r id
    · next he =>
      obtain ⟨rfl, rfl⟩ := Prod.mk.inj (Option.some.inj h)
      exact .removeInflight r he
  | subackResults e r =>
    rw [run] at h
    split at h
    · exact absurd h (by simp)
    · next ht =>
      obtain ⟨rfl, rfl⟩ := Prod.mk.inj (Option.some.inj h)
      obtain ⟨t₀, ht₀, ht⟩ := Option.bind_eq_some_iff.mp ht
      exact .subackResults r ht₀ (subackToken_complete ht)
  | flowComplete e =>
    rw [run] at h
    split at h
    · exact absurd h (by simp)
    · next ht =>
      split at h
      · exact absurd h (by simp)
      · next hc =>
        obtain ⟨rfl, rfl⟩ := Prod.mk.inj (Option.some.inj h)
        exact .flowComplete ht (Bool.eq_false_of_not_eq_true hc)
  | onWrited r =>
    rw [run] at h
    split at h
    · obtain ⟨rfl, rfl⟩ := Prod.mk.inj (Option.some.inj h)
      exact .writedOther r
    · split at h
      · next hq =>
        obtain ⟨rfl, rfl⟩ := Prod.mk.inj (Option.some.inj h)
        exact .writedQos0 hq.1 hq.2
      · obtain ⟨rfl, rfl⟩ := Prod.mk.inj (Option.some.inj h)
        exact .writedOther r
  | connectErr code =>
    rw [run] at h
    split at h
    · next he =>
      obtain ⟨rfl, rfl⟩ := Prod.mk.inj (Option.some.inj h)
      exact .noConnectErr code he
    · next he =>
      obtain ⟨rfl, rfl⟩ := Prod.mk.inj (Option.some.inj h)
      exact .connectErr code he
  | _ =>
    obtain ⟨rfl, rfl⟩ := Prod.mk.inj (Option.some.inj h)
    constructor

/-! What the lists of next operations consist of. -/

theorem countP_eq_zero_of_false {α : Type} {q : α → Bool} {l : List α}
    (h : ∀ a ∈ l, q a = false) : l.countP q = 0 :=
  List.countP_eq_zero.mpr fun a ha => by rw [h a ha]; exact Bool.false_ne_true

theorem mem_rest {c : Caller} {o : MsgOp} (h : o ∈ c.rest) : o = .returned c.entry none := by
  cases c with
  | publish e | send e => exact List.mem_singleton.mp h
  | refill e | resend e => exact absurd h (by simp [Caller.rest])

theorem mem_rest_of_mem_elim {c : Option Caller} {o : MsgOp}
    (h : o ∈ c.elim [] Caller.rest) : ∃ k, c = some k ∧ o = .returned k.entry none := by
  cases c with
  | none => exact absurd h (by simp)
  | some k => exact ⟨k, rfl, mem_rest h⟩

theorem mem_afterRemove {e : EntryRef} {r : PacketRef} {x : Outbox} {o : MsgOp}
    (h : o ∈ afterRemove e r x) : o = .flowComplete e ∨ o = .subackResults e r := by
  unfold afterRemove at h
  split at h
  · exact absurd h (by simp)
  · split at h
    · exact .inr (List.mem_singleton.mp h)
    · exact .inl (List.mem_singleton.mp h)

theorem mem_onInflightDone {r : PacketRef} {p : ControlPacket} {o : MsgOp}
    (h : o ∈ onInflightDone r p) : o = .loadMessageID r ∨ o = .refillLen false := by
  rcases List.mem_append.mp h with h | h
  · split at h
    · exact .inl (List.mem_singleton.mp h)
    · exact absurd h (by simp)
  · exact .inr (List.mem_singleton.mp h)

/-- What the handler of a packet comes to. -/
inductive Handles (r : PacketRef) (p : ControlPacket) : Op → Prop
  | reply (q : ControlPacket) : Handles r p (.msg (.reply q))
  | storeConnected (connected : ℤ) : Handles r p (.stop (.storeConnected connected))
  | setWill (willFlag : Bool) : Handles r p (.stop (.setWill willFlag))
  | connectErr {m : ConnackPacket} : p = .connack m →
      Handles r p (.msg (.connectErr (some m.returnCode)))
  | loadMessageID : Handles r p (.msg (.loadMessageID r))
  | refillLen : Handles r p (.msg (.refillLen false))
  | onPubrec (messageID : UInt16) : Handles r p (.msg (.onPubrec messageID))
  | load : Handles r p (.stop (.load .disconnected))

theorem handles_of_mem {f : Flags} {r : PacketRef} {cleared : Bool} {p : ControlPacket} {o : Op}
    (h : o ∈ procFrontRemoteMsg f r cleared p) : Handles r p o := by
  cases p with
  | connect m =>
    simp only [procFrontRemoteMsg] at h
    split at h
    · exact absurd h (by simp)
    · simp only [List.mem_cons, List.not_mem_nil, or_false] at h
      rcases h with rfl | rfl | rfl
      · exact .reply _
      · exact .storeConnected _
      · exact .setWill _
  | connack m =>
    rcases List.mem_pair.mp h with rfl | rfl
    · exact .storeConnected _
    · exact .connectErr rfl
  | publish m =>
    simp only [procFrontRemoteMsg] at h
    split at h
    · exact List.mem_singleton.mp h ▸ .reply _
    · split at h
      · exact List.mem_singleton.mp h ▸ .reply _
      · exact absurd h (by simp)
  | puback m | pubcomp m | suback m | unsuback m =>
    obtain ⟨o, ho, rfl⟩ := List.mem_map.mp h
    rcases mem_onInflightDone ho with rfl | rfl
    · exact .loadMessageID
    · exact .refillLen
  | pubrec m => exact List.mem_singleton.mp h ▸ .onPubrec _
  | pubrel m | subscribe m | unsubscribe m | pingreq m => exact List.mem_singleton.mp h ▸ .reply _
  | pingresp m => exact absurd h (by simp [procFrontRemoteMsg])
  | disconnect m => exact List.mem_singleton.mp h ▸ .load

theorem mem_handshake {t : Option EntryRef} {o : MsgOp}
    (h : o ∈ (t.map MsgOp.flowComplete).toList) : ∃ e, t = some e ∧ o = .flowComplete e := by
  obtain ⟨e, he, rfl⟩ := Option.map_eq_some_iff.mp (Option.mem_toList.mp h)
  exact ⟨e, he, rfl⟩

theorem mem_sendCase {e : EntryRef} {r : PacketRef} {p : ControlPacket} {o : MsgOp}
    (h : o ∈ sendCase e r p) : o = .addMsgId e ∨
      (o = .newInflight (.send e) ∧ p.kind ∈ [PacketType.pubrec, PacketType.pubrel]) ∨
      o = .channelSend (some (.send e)) r := by
  cases p with
  | publish m | subscribe m | unsubscribe m => exact .inl (List.mem_singleton.mp h)
  | pubrec m | pubrel m =>
    exact .inr (.inl ⟨List.mem_singleton.mp h, by rw [ControlPacket.kind]; decide⟩)
  | _ => exact .inr (.inr (List.mem_singleton.mp h))

/-- The operations that an operation may leave next to its goroutine. -/
inductive MsgOp.Follows (cfg : Config) (f : Flags) (x : Outbox) : MsgOp → MsgOp → Prop
  | setMessageID (e : EntryRef) (id : UInt16) : Follows cfg f x (.addMsgId e) (.setMessageID e id)
  | isConnected {e : EntryRef} (id : UInt16) : (x.entry e).published = true →
      Follows cfg f x (.setMessageID e id) (.isConnected e)
  | numbered {e : EntryRef} (id : UInt16) : (x.entry e).published = false →
      Follows cfg f x (.setMessageID e id) (.newInflight (.send e))
  | isClosed (e : EntryRef) : Follows cfg f x (.isConnected e) (.isClosed e)
  | notConnected (e : EntryRef) (err : GoError) :
      Follows cfg f x (.isConnected e) (.returned e (some err))
  | inflightLen (e : EntryRef) : ¬ f.isClosed → Follows cfg f x (.isClosed e) (.inflightLen e)
  | closed (e : EntryRef) (err : GoError) : Follows cfg f x (.isClosed e) (.returned e (some err))
  | sendLen (e : EntryRef) : Follows cfg f x (.inflightLen e) (.sendLen e)
  | windowFull (e : EntryRef) : Follows cfg f x (.inflightLen e) (.sendPeddingChan e)
  | sendListOpen (e : EntryRef) : x.iSendList.length < cfg.maxSizeOfPublishMsg →
      Follows cfg f x (.sendLen e) (.insert2Inflight (.publish e))
  | sendListFull (e : EntryRef) : Follows cfg f x (.sendLen e) (.sendPeddingChan e)
  | peddingClosed (e : EntryRef) : f.peddingClosed = true →
      Follows cfg f x (.sendPeddingChan e) (.returned e none)
  | pushPedding (e : EntryRef) : Follows cfg f x (.sendPeddingChan e) (.pushPedding e)
  | pended (e : EntryRef) : Follows cfg f x (.pushPedding e) (.returned e none)
  | refused (c : Caller) : f.isStoped = true →
      Follows cfg f x (.insert2Inflight c) (.returned c.entry none)
  | newInflight (c : Caller) : Follows cfg f x (.insert2Inflight c) (.newInflight c)
  | notInserted (c : Caller) : Follows cfg f x (.insert2Inflight c) (.sendEntry c)
  | pushInflight (c : Caller) : Follows cfg f x (.newInflight c) (.pushInflight c)
  | sendPushed (e : EntryRef) :
      Follows cfg f x (.pushInflight (.send e)) (.channelSend (some (.send e)) (x.entry e).msg)
  | afterPush (c : Caller) : Follows cfg f x (.pushInflight c) (.sendEntry c)
  | sendEntry (c : Caller) :
      Follows cfg f x (.sendEntry c) (.channelSend (some c) (x.entry c.entry).p)
  | channelStoped (c : Caller) (r : PacketRef) : f.isStoped = true →
      Follows cfg f x (.channelSend (some c) r) (.returned c.entry none)
  | pushSend (c : Option Caller) (r : PacketRef) : f.isStoped = false →
      Follows cfg f x (.channelSend c r) (.pushSend c r)
  | pushed {c : Caller} (r : PacketRef) : (∀ e, c ≠ .resend e) →
      Follows cfg f x (.pushSend (some c) r) (.returned c.entry none)
  | sendStoped (e : EntryRef) (err : GoError) : Follows cfg f x (.send e) (.returned e (some err))
  | addMsgId (e : EntryRef) : Follows cfg f x (.send e) (.addMsgId e)
  | sendReleased {e : EntryRef} :
      (x.packet (x.entry e).msg).kind ∈ [PacketType.pubrec, PacketType.pubrel] →
      Follows cfg f x (.send e) (.newInflight (.send e))
  | sendAtOnce (e : EntryRef) :
      Follows cfg f x (.send e) (.channelSend (some (.send e)) (x.entry e).msg)
  | readNow : Follows cfg f x .checkInflight .readNow
  | tickRefill : Follows cfg f x .checkInflight (.refillLen true)
  | collect : Follows cfg f x .readNow (.collect x.now)
  | resend {e : EntryRef} {now : ℤ} : e ∈ x.timedOut now →
      Follows cfg f x (.collect now) (.resend e now)
  | sendAgain (e : EntryRef) (now : ℤ) :
      Follows cfg f x (.resend e now) (.channelSend (some (.resend e)) (x.entry e).p)
  | refillSendLen : Follows cfg f x (.refillLen true) .refillSendLen
  | doneRecv : Follows cfg f x (.refillLen false) .recvPeddingChan
  | tickRecv : Follows cfg f x .refillSendLen .recvPeddingChan
  | popPedding : Follows cfg f x .recvPeddingChan .popPedding
  | refill {e : EntryRef} {rest : List EntryRef} : x.peddingMsgList = e :: rest →
      Follows cfg f x .popPedding (.insert2Inflight (.refill e))
  | removeInflight (r : PacketRef) :
      Follows cfg f x (.loadMessageID r) (.removeInflight r (x.packet r).messageID)
  | removed (e : EntryRef) (r : PacketRef) (id : UInt16) :
      Follows cfg f x (.removeInflight r id) (.flowComplete e)
  | subackResults (e : EntryRef) (r : PacketRef) (id : UInt16) :
      Follows cfg f x (.removeInflight r id) (.subackResults e r)
  | subacked (e : EntryRef) (r : PacketRef) : Follows cfg f x (.subackResults e r) (.flowComplete e)
  | pubrel (messageID : UInt16) :
      Follows cfg f x (.onPubrec messageID) (.channelSend none x.packets.next)
  | updateInflight (messageID : UInt16) :
      Follows cfg f x (.onPubrec messageID) (.updateInflight x.packets.next)
  | reply (p : ControlPacket) : Follows cfg f x (.reply p) (.channelSend none x.packets.next)
  | loadMessageID (r : PacketRef) : Follows cfg f x (.onWrited r) (.loadMessageID r)
  | writedRefill (r : PacketRef) : Follows cfg f x (.onWrited r) (.refillLen false)
  | completeConnect (code : Option UInt8) : Follows cfg f x (.connectErr code) .completeConnect
  | connectComplete (e : EntryRef) : Follows cfg f x .completeConnect (.flowComplete e)
  | disconnectComplete (e : EntryRef) : Follows cfg f x .completeDisconnect (.flowComplete e)

theorem MsgOp.Ran.follows {f : Flags} {x x' : Outbox} {o o' : MsgOp} {new : List MsgOp}
    (h : Ran cfg f x o new x') (hmem : o' ∈ new) : Follows cfg f x o o' := by
  cases h with
  | peddingClosed e hc => exact List.mem_singleton.mp hmem ▸ .peddingClosed e hc
  | refused c hs => exact mem_rest hmem ▸ .refused c hs
  | channelStoped c r hs =>
    obtain ⟨k, rfl, rfl⟩ := mem_rest_of_mem_elim hmem
    exact .channelStoped k r hs
  | pushSend c r =>
    obtain ⟨k, rfl, rfl⟩ := mem_rest_of_mem_elim hmem
    refine .pushed r ?_
    rintro e rfl
    exact absurd hmem (by simp [Caller.rest])
  | pushInflight c =>
    obtain rfl := List.mem_singleton.mp hmem
    cases c with
    | send e => exact .sendPushed e
    | _ => exact .afterPush _
  | send e _ =>
    rcases mem_sendCase hmem with rfl | ⟨rfl, hk⟩ | rfl
    · exact .addMsgId e
    · exact .sendReleased hk
    · exact .sendAtOnce e
  | inflightNonempty =>
    rcases List.mem_pair.mp hmem with rfl | rfl
    · exact .readNow
    · exact .tickRefill
  | collect now =>
    obtain ⟨e, he, rfl⟩ := List.mem_map.mp hmem
    exact .resend he
  | popPedding hp => exact List.mem_singleton.mp hmem ▸ .refill hp
  | @removeInflight e r id _ =>
    rcases mem_afterRemove hmem with rfl | rfl
    · exact .removed e r id
    · exact .subackResults e r id
  | onPubrec messageID =>
    rcases List.mem_pair.mp hmem with rfl | rfl
    · exact .pubrel messageID
    · exact .updateInflight messageID
  | @writedQos0 r _ _ =>
    rcases mem_onInflightDone hmem with rfl | rfl
    · exact .loadMessageID r
    · exact .writedRefill r
  | completeConnect =>
    obtain ⟨e, -, rfl⟩ := mem_handshake hmem
    exact .connectComplete e
  | completeDisconnect =>
    obtain ⟨e, -, rfl⟩ := mem_handshake hmem
    exact .disconnectComplete e
  | returned _ _ | noRefill _ | refillSendFull | popNothing _ | removeNothing _ _
  | flowComplete _ _ | updateInflight _ | writedOther _ | noConnectErr _ _ =>
    exact absurd hmem List.not_mem_nil
  | numberPublish id hpub => exact List.mem_singleton.mp hmem ▸ .isConnected id hpub
  | numberSend id hsend => exact List.mem_singleton.mp hmem ▸ .numbered id hsend
  | notClosed e hnot => exact List.mem_singleton.mp hmem ▸ .inflightLen e hnot
  | sendListOpen e hlt => exact List.mem_singleton.mp hmem ▸ .sendListOpen e hlt
  | channelSend c r hs => exact List.mem_singleton.mp hmem ▸ .pushSend c r hs
  | _ =>
    obtain rfl := List.mem_singleton.mp hmem
    constructor

/-- The fields that the switch of `Send` does not write. -/
theorem assignToken_fields (e : EntryRef) (p : ControlPacket) (x : Outbox) :
    (assignToken e p x).packets = x.packets ∧
    (assignToken e p x).entries.next = x.entries.next ∧
    (assignToken e p x).inflightingList = x.inflightingList ∧
    (assignToken e p x).peddingMsgList = x.peddingMsgList ∧
    (assignToken e p x).iSendList = x.iSendList ∧
    (assignToken e p x).log = x.log := by
  cases p with
  | _ => exact ⟨rfl, rfl, rfl, rfl, rfl, rfl⟩

/-! ## Operations of the end -/

/-- The operations of the outbound side that other operations begin, for packets with `P`. -/
inductive MsgOp.Starts (P : PacketRef → Prop) : MsgOp → Prop
  | checkInflight : Starts P .checkInflight
  | loadMessageID {r : PacketRef} : P r → Starts P (.loadMessageID r)
  | refillLen : Starts P (.refillLen false)
  | onPubrec (messageID : UInt16) : Starts P (.onPubrec messageID)
  | reply {p : ControlPacket} : p.type = p.kind ∨ p.kind = PacketType.unsuback →
      Starts P (.reply p)
  | connectErr (code : Option UInt8) : Starts P (.connectErr code)
  | completeDisconnect : Starts P .completeDisconnect

/-- An operation of the end that other operations lead to; `RecvMsg` is called by a round of
the receive loop only. -/
def EndOp.Starts : EndOp → Prop
  | recvMsg _ _ => False
  | _ => True

/-- An operation with which a loop or the ticker begins a round. -/
def EndOp.Round : EndOp → Prop
  | readFailed | onChannelError | recvExit | storeStoped | sendExit | onTick _ => True
  | _ => False

def Op.Starts (P : PacketRef → Prop) : Op → Prop
  | .msg o => o.Starts P
  | .stop o => o.Starts

/-- The operations in a list are ones that others begin. -/
def Begins (P : PacketRef → Prop) (l : List Op) : Prop := ∀ o ∈ l, o.Starts P

namespace Begins

variable {P : PacketRef → Prop}

theorem nil : Begins P [] := by simp [Begins]

theorem cons {o : Op} {l : List Op} (ho : o.Starts P) (hl : Begins P l) : Begins P (o :: l) :=
  List.forall_mem_cons.mpr ⟨ho, hl⟩

theorem msg {o : MsgOp} (ho : o.Starts P) : Begins P [.msg o] := cons ho nil

theorem stop {o : EndOp} (ho : o.Starts) : Begins P [.stop o] := cons ho nil

theorem round {l : List EndOp} (h : ∀ o ∈ l, o.Round) : Begins P (l.map .stop) := by
  refine List.forall_mem_map.mpr fun o ho => ?_
  cases o with
  | recvMsg r cleared => exact (h _ ho).elim
  | _ => trivial

theorem ite {c : Prop} [Decidable c] {l l' : List Op} (hl : Begins P l) (hl' : Begins P l') :
    Begins P (if c then l else l') := by
  split
  · exact hl
  · exact hl'

theorem append {l l' : List Op} (hl : Begins P l) (hl' : Begins P l') : Begins P (l ++ l') :=
  List.forall_mem_append.mpr ⟨hl, hl'⟩

theorem onInflightDone {r : PacketRef} (hr : P r) (p : ControlPacket) :
    Begins P ((onInflightDone r p).map .msg) := by
  rw [Solo.onInflightDone, List.map_append]
  refine append ?_ (msg .refillLen)
  split
  · exact msg (.loadMessageID hr)
  · exact nil

theorem procFrontRemoteMsg (f : Flags) {r : PacketRef} (hr : P r) (cleared : Bool)
    (p : ControlPacket) : Begins P (procFrontRemoteMsg f r cleared p) := by
  cases p with
  | connect m =>
    exact ite nil (cons (.reply (.inl rfl)) (cons trivial (stop trivial)))
  | connack m => exact cons trivial (msg (.connectErr _))
  | publish m => exact ite (msg (.reply (.inl rfl))) (ite (msg (.reply (.inl rfl))) nil)
  | puback m | pubcomp m | suback m | unsuback m => exact onInflightDone hr _
  | pubrec m => exact msg (.onPubrec _)
  | pubrel m | subscribe m | pingreq m => exact msg (.reply (.inl rfl))
  | unsubscribe m => exact msg (.reply (.inr rfl))
  | pingresp m => exact nil
  | disconnect m => exact stop trivial

theorem of_run {x : Outbox} {f : Flags} {o : EndOp} {r : Ended} (h : o.run x f = some r) :
    Begins (fun m => ∃ cleared, o = .recvMsg m cleared) (r.next ++ Pool.ops r.spawned) := by
  obtain ⟨next, spawned, f'⟩ := r
  have hran : EndOp.Ran x f o next spawned f' := EndOp.ran_of_run h
  cases hran with
  | received cleared _ _ =>
    exact append (procFrontRemoteMsg _ ⟨cleared, rfl⟩ cleared _) nil
  | onTick timedOut hc => exact append (append (ite (stop trivial) nil) (msg .checkInflight)) nil
  | clientTimeout l hl =>
    refine append (fun o ho => ?_) nil
    obtain ⟨o', ho', rfl⟩ := List.mem_map.mp ho
    exact List.mem_singleton.mp (hl ho') ▸ .reply (.inl rfl)
  | clientConnected _ _ => exact cons .completeDisconnect (stop trivial)
  | connectTimeout _ => exact cons (.connectErr _) (stop trivial)
  | recvIgnored | storeConnected | setWill | readMuted | recvExit | loadMuted | tellMgr
  | tickMuted | writeMuted | storeStoped | sendExit | hadException | storeException
  | closeReturned => exact nil
  | _ => exact stop trivial

/-- What no operation that others begin counts for. -/
theorem countP_eq_zero {q : Op → Bool} {l : List Op} (h : Begins P l)
    (hmsg : ∀ o : MsgOp, o.Starts P → q (.msg o) = false) (hstop : ∀ o, q (.stop o) = false) :
    l.countP q = 0 := by
  refine countP_eq_zero_of_false fun o ho => ?_
  cases o with
  | msg o => exact hmsg o (h _ ho)
  | stop o => exact hstop o

end Begins

/-- A channel that has stopped stays so, and so does a closed `peddingChan`. -/
theorem EndOp.run_stays {x : Outbox} {f : Flags} {o : EndOp} {r : Ended}
    (h : o.run x f = some r) : (f.isStoped = true → r.flags.isStoped = true) ∧
      (f.peddingClosed = true → r.flags.peddingClosed = true) := by
  obtain ⟨next, spawned, f'⟩ := r
  have hran : Ran x f o next spawned f' := ran_of_run h
  cases hran with
  | closePedding _ => exact ⟨id, fun _ => rfl⟩
  | storeStoped | stopChannel => exact ⟨fun _ => rfl, id⟩
  | _ => exact ⟨id, id⟩

/-! ## Turns -/

/-- A turn exchanges the operations `old` for `new`, and leaves an outbox and flags. -/
inductive Exchange (cfg : Config) (s : Solo) :
    Solo.Turn → List Op → List Op → Outbox → Flags → Prop
  | msg {i : ℕ} {o : MsgOp} {new : List MsgOp} {x : Outbox} : s.nextOp i = some (.msg o) →
      MsgOp.Ran cfg s.flags s.outbox o new x →
      Exchange cfg s (.run i) [.msg o] (new.map .msg) x s.flags
  | stop {i : ℕ} {o : EndOp} {r : Ended} : s.nextOp i = some (.stop o) →
      o.run s.outbox s.flags = some r →
      Exchange cfg s (.run i) [.stop o] (r.next ++ Pool.ops r.spawned) s.outbox r.flags
  | publish {r : PacketRef} : r < s.outbox.packets.next →
      (s.outbox.packet r).kind = PacketType.publish →
      Exchange cfg s (.publish r) [] [.msg (.addMsgId s.outbox.entries.next)]
        (s.outbox.newEntry r true) s.flags
  | send (p : Outbound) :
      Exchange cfg s (.send p) [] [.msg (.send s.outbox.entries.next)]
        ((s.outbox.newPacket p.1).newEntry s.outbox.packets.next false) s.flags
  | newPacket (p : Outbound) :
      Exchange cfg s (.newPacket p) [] [] (s.outbox.newPacket p.1) s.flags
  | renumber {r : PacketRef} (id : UInt16) : r < s.outbox.packets.next →
      Exchange cfg s (.renumber r id) [] []
        (s.outbox.modifyPacket r (ControlPacket.setMessageID id)) s.flags
  | recvPacket (p : Inbound) (cleared : Bool) :
      Exchange cfg s (.recvPacket p cleared) [] [.stop (.recvMsg s.outbox.packets.next cleared)]
        (s.outbox.newPacket p.1) s.flags
  | written {r : PacketRef} {rest : List PacketRef} : s.outbox.iSendList = r :: rest →
      Exchange cfg s (.sendRound true) [] [.msg (.onWrited r)]
        ({ s.outbox with iSendList := rest }.note (.written r)) s.flags
  | notWritten {r : PacketRef} {rest : List PacketRef} : s.outbox.iSendList = r :: rest →
      Exchange cfg s (.sendRound false) []
        [.stop .writeFailed, .stop .storeStoped, .stop .sendExit]
        { s.outbox with iSendList := rest } s.flags
  | elapse (d : ℕ) :
      Exchange cfg s (.elapse d) [] [] { s.outbox with now := s.outbox.now + d } s.flags
  | start : s.flags.recvLoop.started = false → Exchange cfg s .start [] [] s.outbox
      { s.flags with
        openedFiles := s.flags.openedFiles + 1
        recvLoop := { started := true }
        sendLoop := { started := true } }
  | close : s.flags.recvLoop.started = true →
      Exchange cfg s .close [] [.stop .loadClostep] s.outbox s.flags
  | round (t : Solo.Turn) (new : List EndOp) : (∀ o ∈ new, o.Round) →
      Exchange cfg s t [] (new.map .stop) s.outbox s.flags

/-- The operation that a turn does is the next one of its goroutine. -/
theorem Exchange.msgOp {s : Solo} {t : Solo.Turn} {old new : List Op} {x : Outbox} {f : Flags}
    (h : Exchange cfg s t old new x f) {o : MsgOp} (ho : .msg o ∈ old) : o ∈ t.msgOp s := by
  cases h with
  | msg hnext _ =>
    obtain rfl := Op.msg.inj (List.mem_singleton.mp ho)
    exact Solo.Turn.msgOp_run hnext
  | _ => exact absurd ho (by simp)

/-- An operation of the outbound side that does not come after another one. -/
inductive MsgOp.Opens (x : Outbox) : MsgOp → Prop
  | starts {P : PacketRef → Prop} {o : MsgOp} : o.Starts P → Opens x o
  | addMsgId : Opens x (.addMsgId x.entries.next)
  | send : Opens x (.send x.entries.next)
  | onWrited (r : PacketRef) : Opens x (.onWrited r)

/-- What a turn leaves to do comes after an operation of the outbound side, or opens. -/
theorem Exchange.origin {s : Solo} {t : Solo.Turn} {old new : List Op} {x : Outbox} {f : Flags}
    (h : Exchange cfg s t old new x f) {o' : MsgOp} (hmem : .msg o' ∈ new) :
    (∃ o l, MsgOp.Ran cfg s.flags s.outbox o l x ∧ o' ∈ l ∧ o ∈ t.msgOp s ∧ old = [.msg o] ∧
      new = l.map .msg) ∨ o'.Opens s.outbox := by
  cases h with
  | msg hnext hran =>
    obtain ⟨o'', hnew, heq⟩ := List.mem_map.mp hmem
    obtain rfl := Op.msg.inj heq
    exact .inl ⟨_, _, hran, hnew, Solo.Turn.msgOp_run hnext, rfl, rfl⟩
  | stop _ hrun => exact .inr (.starts (Begins.of_run hrun _ hmem))
  | publish _ _ =>
    obtain rfl := Op.msg.inj (List.mem_singleton.mp hmem)
    exact .inr .addMsgId
  | send p =>
    obtain rfl := Op.msg.inj (List.mem_singleton.mp hmem)
    exact .inr .send
  | written _ =>
    obtain rfl := Op.msg.inj (List.mem_singleton.mp hmem)
    exact .inr (.onWrited _)
  | _ => exact absurd hmem (by simp)

theorem begin_eq_some {s s' : Solo} {i : ℕ} {code : List Op} (h : Solo.begin i code s = some s') :
    s.goroutines[i]? = some [] ∧ s' = { s with goroutines := s.goroutines.set i code } := by
  rw [Solo.begin] at h
  split at h
  · next hi => exact ⟨hi, (Option.some.inj h).symm⟩
  · exact absurd h (by simp)

/-- The goroutine that begins a round or does its next operation. -/
def Turn.goroutine : Solo.Turn → Option ℕ
  | .recvPacket _ _ | .recvError => some 0
  | .sendRound _ => some 1
  | .tick _ => some 2
  | .close => some 3
  | .run i => some i
  | _ => none

/-- A goroutine that begins a round had nothing left. -/
theorem turned_of_begin {s s' : Solo} {t : Solo.Turn} {i : ℕ} {code : List Op} {x : Outbox}
    (h : Solo.begin i code { s with outbox := x } = some s') (ht : t.goroutine = some i)
    (hx : Exchange cfg s t [] code x s.flags) :
    ∃ old new, Exchange cfg s t old new s'.outbox s'.flags ∧
      Pool.Turned s.goroutines t.goroutine old new s'.goroutines := by
  obtain ⟨hi, rfl⟩ := begin_eq_some h
  have hidle : s.goroutines[i]? = some ([] ++ []) := hi
  have hrun := Pool.Turned.run code [] hidle
  rw [← ht] at hrun
  simp only [List.append_nil, Pool.ops, List.flatten_nil] at hrun
  exact ⟨[], code, hx, hrun⟩

/-- Every step exchanges operations of one goroutine. -/
theorem turned_of_step {s s' : Solo} {t : Solo.Turn} (h : Solo.step cfg t s = some s') :
    ∃ old new, Exchange cfg s t old new s'.outbox s'.flags ∧
      Pool.Turned s.goroutines t.goroutine old new s'.goroutines := by
  have hnone : Pool.Turned s.goroutines none [] [] s.goroutines := by
    simpa using Pool.Turned.start (p := s.goroutines) []
  have hstart : ∀ o : Op, Pool.Turned s.goroutines none [] [o] (s.goroutines ++ [[o]]) :=
    fun o => by simpa using Pool.Turned.start (p := s.goroutines) [[o]]
  cases t with
  | start =>
    rw [Solo.step] at h
    split at h
    · exact absurd h (by simp)
    · next hs =>
      exact Option.some.inj h ▸ ⟨[], [], .start (Bool.eq_false_of_not_eq_true hs), hnone⟩
  | newPacket p => exact Option.some.inj h ▸ ⟨[], [], .newPacket p, hnone⟩
  | renumber r id =>
    rw [Solo.step] at h
    split at h
    · next hr => exact Option.some.inj h ▸ ⟨[], [], .renumber id hr, hnone⟩
    · exact absurd h (by simp)
  | publish r =>
    rw [Solo.step] at h
    split at h
    · next hr => exact Option.some.inj h ▸ ⟨[], _, .publish hr.1 hr.2, hstart _⟩
    · exact absurd h (by simp)
  | send p => exact Option.some.inj h ▸ ⟨[], _, .send p, hstart _⟩
  | recvPacket p cleared =>
    rw [Solo.step] at h
    split at h
    · exact turned_of_begin h rfl (.recvPacket p cleared)
    · exact absurd h (by simp)
  | recvError =>
    rw [Solo.step] at h
    split at h
    · exact turned_of_begin h rfl
        (.round _ [.readFailed, .onChannelError, .recvExit] (by simp [EndOp.Round]))
    · exact absurd h (by simp)
  | sendRound written =>
    rw [Solo.step] at h
    split at h
    · rw [Solo.sendRound] at h
      split at h
      · exact turned_of_begin h rfl
          (.round _ [.storeStoped, .sendExit] (by simp [EndOp.Round]))
      · split at h
        · exact absurd h (by simp)
        · next hlist =>
          cases written with
          | true =>
            rw [if_pos rfl] at h
            split at h
            · exact absurd h (by simp)
            · exact turned_of_begin h rfl (.written hlist)
          | false => exact turned_of_begin h rfl (.notWritten hlist)
    · exact absurd h (by simp)
  | tick timedOut =>
    exact turned_of_begin h rfl (.round _ [.onTick timedOut] (by simp [EndOp.Round]))
  | close =>
    rw [Solo.step] at h
    split at h
    · next hs => exact turned_of_begin h rfl (.close hs)
    · exact absurd h (by simp)
  | elapse d => exact Option.some.inj h ▸ ⟨[], [], .elapse d, hnone⟩
  | run i =>
    rw [Solo.step] at h
    split at h
    · next o code hi =>
      obtain ⟨r, hr, rfl⟩ := Option.map_eq_some_iff.mp h
      have hfirst : s.goroutines[i]? = some ([o] ++ code) := hi
      have hrun := Pool.Turned.run r.1 r.2.1 hfirst
      have hnext : s.nextOp i = some o := by
        rw [Solo.nextOp, hi]
        rfl
      cases o with
      | msg o =>
        obtain ⟨q, hq, rfl⟩ := Option.map_eq_some_iff.mp hr
        refine ⟨[.msg o], q.1.map .msg, .msg hnext (MsgOp.ran_of_run hq), ?_⟩
        show Pool.Turned _ (some i) _ _ _
        simpa only [Pool.ops, List.flatten_nil, List.append_nil] using hrun
      | stop o =>
        obtain ⟨q, hq, rfl⟩ := Option.map_eq_some_iff.mp hr
        exact ⟨[.stop o], _, .stop hnext hq, hrun⟩
    · exact absurd h (by simp)

/-- Which goroutine it is does not matter to most invariants. -/
theorem exchange_of_step {s s' : Solo} {t : Solo.Turn} (h : Solo.step cfg t s = some s') :
    ∃ old new, Exchange cfg s t old new s'.outbox s'.flags ∧
      Pool.Exchanged old new s.goroutines s'.goroutines := by
  obtain ⟨old, new, hx, hturned⟩ := turned_of_step h
  exact ⟨old, new, hx, hturned.exchanged⟩

/-- A turn of a goroutine runs its next operation. -/
theorem run_of_nextOp {s s' : Solo} {i : ℕ} {o : MsgOp} (hnext : s.nextOp i = some (.msg o))
    (h : Solo.step cfg (.run i) s = some s') :
    ∃ new, o.run cfg s.flags s.outbox = some (new, s'.outbox) ∧
      Pool.Exchanged [.msg o] (new.map .msg) s.goroutines s'.goroutines := by
  rw [Solo.step] at h
  split at h
  · next o' code hi =>
    obtain rfl : o' = .msg o := by
      rw [Solo.nextOp, hi] at hnext
      exact Option.some.inj hnext
    obtain ⟨r, hr, rfl⟩ := Option.map_eq_some_iff.mp h
    obtain ⟨q, hq, rfl⟩ := Option.map_eq_some_iff.mp hr
    have hfirst : s.goroutines[i]? = some ([.msg o] ++ code) := hi
    have hrun := (Pool.Turned.run (q.1.map Op.msg) [] hfirst).exchanged
    rw [Pool.ops, List.flatten_nil, List.append_nil] at hrun
    exact ⟨q.1, hq, hrun⟩
  · exact absurd h (by simp)

/-! ## The code of one goroutine -/

/-- What goroutine `i` begins with. -/
inductive Begun : ℕ → List Op → Prop
  | publish {i : ℕ} (e : EntryRef) : Begun i [.msg (.addMsgId e)]
  | send {i : ℕ} (e : EntryRef) : Begun i [.msg (.send e)]
  | exception {i : ℕ} (reason : DisconnectReason) : Begun i [.stop (.exception reason)]
  | recvPacket (r : PacketRef) (cleared : Bool) : Begun 0 [.stop (.recvMsg r cleared)]
  | recvError : Begun 0 [.stop .readFailed, .stop .onChannelError, .stop .recvExit]
  | written (r : PacketRef) : Begun 1 [.msg (.onWrited r)]
  | notWritten : Begun 1 [.stop .writeFailed, .stop .storeStoped, .stop .sendExit]
  | interrupted : Begun 1 [.stop .storeStoped, .stop .sendExit]
  | tick (timedOut : Bool) : Begun 2 [.stop (.onTick timedOut)]
  | close : Begun 3 [.stop .loadClostep]

section Code

variable {s s' : Solo} {t : Solo.Turn} {i : ℕ} {code : List Op}

theorem runOp_msg {o : MsgOp} {new : List Op} {spawned : Pool Op} {x : Outbox}
    {f : Flags} (h : s.runOp cfg (.msg o) = some (new, spawned, x, f)) :
    ∃ l, MsgOp.Ran cfg s.flags s.outbox o l x ∧ new = l.map .msg ∧ spawned = [] ∧ f = s.flags := by
  obtain ⟨r, hrun, hr⟩ := Option.map_eq_some_iff.mp h
  simp only [Prod.mk.injEq] at hr
  obtain ⟨rfl, rfl, rfl, rfl⟩ := hr
  exact ⟨r.1, MsgOp.ran_of_run hrun, rfl, rfl, rfl⟩

theorem runOp_stop {o : EndOp} {new : List Op} {spawned : Pool Op} {x : Outbox}
    {f : Flags} (h : s.runOp cfg (.stop o) = some (new, spawned, x, f)) :
    EndOp.Ran s.outbox s.flags o new spawned f ∧ x = s.outbox := by
  obtain ⟨r, hrun, hr⟩ := Option.map_eq_some_iff.mp h
  simp only [Prod.mk.injEq] at hr
  obtain ⟨rfl, rfl, rfl, rfl⟩ := hr
  exact ⟨EndOp.ran_of_run hrun, rfl⟩

theorem nextOp_of_msgOp {o : MsgOp} (h : o ∈ t.msgOp s) :
    ∃ i, t = .run i ∧ s.nextOp i = some (.msg o) := by
  cases t with
  | run i =>
    refine ⟨i, rfl, ?_⟩
    rw [Solo.Turn.msgOp, Solo.Turn.op] at h
    split at h
    · next o' ho' =>
      rw [ho', Option.some.inj h]
    · exact absurd h (by simp)
  | _ => exact absurd h (by simp [Solo.Turn.msgOp, Solo.Turn.op])

theorem mem_ops_of_msgOp {o : MsgOp} (h : o ∈ t.msgOp s) : .msg o ∈ s.goroutines.ops := by
  obtain ⟨i, -, hnext⟩ := nextOp_of_msgOp h
  obtain ⟨code, hcode, hhead⟩ := Option.bind_eq_some_iff.mp hnext
  exact List.mem_flatten.mpr ⟨code, List.mem_of_getElem? hcode, List.mem_of_head? hhead⟩

theorem flags_of_msgOp {o : MsgOp} (ho : o ∈ t.msgOp s) (h : Solo.step cfg t s = some s') :
    s'.flags = s.flags := by
  obtain ⟨i, rfl, hnext⟩ := nextOp_of_msgOp ho
  obtain ⟨code, hcode, hhead⟩ := Option.bind_eq_some_iff.mp hnext
  obtain ⟨rest, rfl⟩ := List.head?_eq_some_iff.mp hhead
  rw [Solo.step, hcode] at h
  obtain ⟨r, hr, rfl⟩ := Option.map_eq_some_iff.mp h
  obtain ⟨_, -, -, -, hflags⟩ := runOp_msg hr
  exact hflags

/-- What an operation starts. -/
theorem begun_of_spawned {o : Op} {new : List Op} {spawned : Pool Op} {x : Outbox} {f : Flags}
    (h : s.runOp cfg o = some (new, spawned, x, f)) : ∀ code ∈ spawned, Begun i code := by
  cases o with
  | msg o =>
    obtain ⟨-, -, -, rfl, -⟩ := runOp_msg h
    exact fun code hcode => absurd hcode (by simp)
  | stop o =>
    have hran := (runOp_stop h).1
    cases hran with
    | readFailed | tellPing | writeFailed =>
      exact List.forall_mem_singleton.mpr (.exception _)
    | _ => exact fun code hcode => absurd hcode (by simp)

theorem code_of_begin {j : ℕ} {begun : List Op} (h : Solo.begin j begun s = some s')
    (hcode : s'.goroutines[i]? = some code) :
    j ≠ i ∧ s.goroutines[i]? = some code ∨ j = i ∧ code = begun := by
  obtain ⟨hidle, rfl⟩ := begin_eq_some h
  by_cases hij : j = i
  · subst hij
    rw [List.getElem?_set_self (List.getElem?_eq_some_iff.mp hidle).1] at hcode
    exact .inr ⟨rfl, (Option.some.inj hcode).symm⟩
  · rw [List.getElem?_set_ne hij] at hcode
    exact .inl ⟨hij, hcode⟩

theorem code_of_append {p spawned : Pool Op} (h : (p ++ spawned)[i]? = some code) :
    p[i]? = some code ∨ code ∈ spawned := by
  by_cases hlt : i < p.length
  · rw [List.getElem?_append_left hlt] at h
    exact .inl h
  · rw [List.getElem?_append_right (Nat.not_lt.mp hlt)] at h
    exact .inr (List.mem_of_getElem? h)

/-- After a turn a goroutine has its code as before, or it has begun, or it was its turn and it
has done its next operation. -/
theorem code_of_step (h : Solo.step cfg t s = some s') (hcode : s'.goroutines[i]? = some code) :
    t.goroutine ≠ some i ∧ s.goroutines[i]? = some code ∨ Begun i code ∨
    ∃ o rest new spawned, t = .run i ∧ s.goroutines[i]? = some (o :: rest) ∧
      s.runOp cfg o = some (new, spawned, s'.outbox, s'.flags) ∧ code = new ++ rest := by
  have hround : ∀ {j : ℕ} {x : Outbox} {begun : List Op}, t.goroutine = some j →
      Solo.begin j begun { s with outbox := x } = some s' → Begun j begun →
      t.goroutine ≠ some i ∧ s.goroutines[i]? = some code ∨ Begun i code ∨
      ∃ o rest new spawned, t = .run i ∧ s.goroutines[i]? = some (o :: rest) ∧
        s.runOp cfg o = some (new, spawned, s'.outbox, s'.flags) ∧ code = new ++ rest := by
    intro j x begun ht hbegin hbegun
    rcases code_of_begin hbegin hcode with ⟨hne, hsame⟩ | ⟨rfl, rfl⟩
    · exact .inl ⟨fun h => hne (Option.some.inj (ht.symm.trans h)), hsame⟩
    · exact .inr (.inl hbegun)
  cases t with
  | start =>
    rw [Solo.step] at h
    split at h
    · exact absurd h (by simp)
    · rw [← Option.some.inj h] at hcode
      exact .inl ⟨by simp [Turn.goroutine], hcode⟩
  | newPacket p | elapse d =>
    rw [← Option.some.inj h] at hcode
    exact .inl ⟨by simp [Turn.goroutine], hcode⟩
  | renumber r id =>
    rw [Solo.step] at h
    split at h
    · rw [← Option.some.inj h] at hcode
      exact .inl ⟨by simp [Turn.goroutine], hcode⟩
    · exact absurd h (by simp)
  | publish r =>
    rw [Solo.step] at h
    split at h
    · rw [← Option.some.inj h] at hcode
      rcases code_of_append hcode with hsame | hnew
      · exact .inl ⟨by simp [Turn.goroutine], hsame⟩
      · exact .inr (.inl (List.mem_singleton.mp hnew ▸ .publish _))
    · exact absurd h (by simp)
  | send p =>
    rw [← Option.some.inj h] at hcode
    rcases code_of_append hcode with hsame | hnew
    · exact .inl ⟨by simp [Turn.goroutine], hsame⟩
    · exact .inr (.inl (List.mem_singleton.mp hnew ▸ .send _))
  | recvPacket p cleared =>
    rw [Solo.step] at h
    split at h
    · exact hround rfl h (.recvPacket _ _)
    · exact absurd h (by simp)
  | recvError =>
    rw [Solo.step] at h
    split at h
    · exact hround rfl h .recvError
    · exact absurd h (by simp)
  | sendRound written =>
    rw [Solo.step] at h
    split at h
    · rw [Solo.sendRound] at h
      split at h
      · exact hround rfl h .interrupted
      · split at h
        · exact absurd h (by simp)
        · cases written with
          | true =>
            rw [if_pos rfl] at h
            split at h
            · exact absurd h (by simp)
            · exact hround rfl h (.written _)
          | false => exact hround rfl h .notWritten
    · exact absurd h (by simp)
  | tick timedOut => exact hround rfl h (.tick timedOut)
  | close =>
    rw [Solo.step] at h
    split at h
    · exact hround rfl h .close
    · exact absurd h (by simp)
  | run j =>
    rw [Solo.step] at h
    split at h
    · next o rest hj =>
      obtain ⟨r, hr, rfl⟩ := Option.map_eq_some_iff.mp h
      have hlt : j < s.goroutines.length := (List.getElem?_eq_some_iff.mp hj).1
      rcases code_of_append hcode with hset | hnew
      · by_cases hij : j = i
        · subst hij
          rw [List.getElem?_set_self hlt] at hset
          exact .inr (.inr ⟨o, rest, r.1, r.2.1, rfl, hj, hr, (Option.some.inj hset).symm⟩)
        · rw [List.getElem?_set_ne hij] at hset
          exact .inl ⟨fun h => hij (Option.some.inj h), hset⟩
      · exact .inr (.inl (begun_of_spawned hr code hnew))
    · exact absurd h (by simp)

end Code

theorem countP_map_msg (q : Op → Bool) (l : List MsgOp) :
    (l.map Op.msg).countP q = l.countP fun o => q (.msg o) :=
  List.countP_map

/-- So it is for whole turns. -/
theorem Exchange.stays {s : Solo} {t : Solo.Turn} {old new : List Op} {x : Outbox} {f : Flags}
    (h : Exchange cfg s t old new x f) : (s.flags.isStoped = true → f.isStoped = true) ∧
      (s.flags.peddingClosed = true → f.peddingClosed = true) := by
  cases h with
  | stop _ hrun => exact EndOp.run_stays hrun
  | _ => exact ⟨id, id⟩

end MqttBroker.Solo
