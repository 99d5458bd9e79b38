import MqttBroker.Session.Numbering
import MqttBroker.Session.Timing

/-!
# Entries in flight

An entry leaves `inflightingList`, or gets another packet, when its id is acknowledged, and
the results of a token are written then and at no other time. Every other run `Stays`: the
entries in flight stay, and tokens keep their kind. From this, what one step of the process
does to an entry that waits for its acknowledgement and to a token that is complete.
-/

namespace MqttBroker

open Broker GoM Exec

variable {σ : Type}

/-! ## Runs without an acknowledgement -/

/-- Between `b` and `b'`, entries stayed in flight, and tokens kept their kind and stayed
complete. -/
structure Stays (b b' : Broker σ) : Prop where
  flight : ∀ s, (b.sessions s).flight ⊆ (b'.sessions s).flight
  next : b.tokens.next ≤ b'.tokens.next
  kind : ∀ t < b.tokens.next, (b'.tokens.cells t).kind = (b.tokens.cells t).kind
  complete : ∀ t < b.tokens.next, (b.tokens.cells t).complete = true →
    (b'.tokens.cells t).complete = true

namespace Stays

/-- Only lists are longer. -/
theorem of_flight {b b' : Broker σ} (hflight : ∀ s, (b.sessions s).flight ⊆ (b'.sessions s).flight)
    (htokens : b'.tokens = b.tokens) : Stays b b' := by
  refine ⟨hflight, ?_, fun t _ => ?_, fun t _ hcomplete => ?_⟩
  · rw [htokens]
  · rw [htokens]
  · rwa [htokens]

/-- Neither the sessions nor the tokens are written. -/
theorem of_sessions {b b' : Broker σ} (hsessions : b'.sessions = b.sessions)
    (htokens : b'.tokens = b.tokens) : Stays b b' :=
  of_flight (fun s => by rw [hsessions]; exact List.Subset.refl _) htokens

theorem refl (b : Broker σ) : Stays b b := of_sessions rfl rfl

theorem trans {b b' b'' : Broker σ} (h : Stays b b') (h' : Stays b' b'') : Stays b b'' where
  flight s := List.Subset.trans (h.flight s) (h'.flight s)
  next := le_trans h.next h'.next
  kind t ht := (h'.kind t (lt_of_lt_of_le ht h.next)).trans (h.kind t ht)
  complete t ht hcomplete :=
    h'.complete t (lt_of_lt_of_le ht h.next) (h.complete t ht hcomplete)

instance : Std.Refl (Stays (σ := σ)) := ⟨refl⟩

instance : IsTrans (Broker σ) Stays := ⟨fun _ _ _ => trans⟩

theorem setSession {s : SessionRef} {f : Session → Session} {b : Broker σ}
    (hf : (b.sessions s).flight ⊆ (f (b.sessions s)).flight) : Stays b (b.setSession s f) := by
  refine of_flight (fun s' => ?_) rfl
  by_cases hs : s' = s
  · rw [hs, setSession_self]
    exact hf
  · rw [setSession_of_ne f b hs]
    exact List.Subset.refl _

theorem setSession_eq {s : SessionRef} {f : Session → Session} {b : Broker σ}
    (hf : (f (b.sessions s)).flight = (b.sessions s).flight) : Stays b (b.setSession s f) :=
  setSession (by rw [hf]; exact List.Subset.refl _)

/-- All functions but those of acknowledgements. -/
theorem framing : Framing (Stays (σ := σ)) where
  rest _ _ hsessions _ _ htokens := of_sessions hsessions htokens
  alloc _ _ := of_sessions rfl rfl
  packet _ _ _ _ := of_sessions rfl rfl
  allocToken tok b := by
    refine ⟨fun s => List.Subset.refl _, Nat.le_succ _, fun t ht => ?_, fun t ht hcomplete => ?_⟩
    · rw [Heap.alloc_of_lt tok ht]
    · rwa [Heap.alloc_of_lt tok ht]
  token t f b hkind hcomplete := by
    refine ⟨fun s => List.Subset.refl _, le_refl _, fun t' _ => ?_, fun t' _ h => ?_⟩
    · by_cases ht : t' = t
      · rw [ht, Heap.modify_self, hkind]
      · rw [Heap.modify_of_ne f _ ht]
    · by_cases ht : t' = t
      · rw [ht] at h ⊢
        rw [Heap.modify_self]
        exact hcomplete _ h
      · rwa [Heap.modify_of_ne f _ ht]
  field _ _ _ _ hsettled _ := setSession_eq (congrArg (fun x => x.2.1) (hsettled _))
  ending _ _ _ _ hsettled _ := setSession_eq (congrArg (fun x => x.2.1) (hsettled _))

theorem queueing (s : SessionRef) : Queueing s (Stays (σ := σ)) := fun _ _ hflight =>
  setSession hflight

/-- The refill of the window. -/
theorem refill (cfg : Config) (s : SessionRef) : Respects (Stays (σ := σ)) (do
    let s₁ ← session s
    if s₁.inflightingList.length < cfg.maxSizeOfInflight then Session.takePedding cfg s) :=
  Session.refill_respects cfg s (Session.takePedding_respects framing cfg (queueing s))

end Stays

/-- All other steps leave the entries in flight. -/
theorem Process.step_stays {cfg : Config} {S : StoreMgr σ} {P P' : Process σ} {a : Action}
    (ha : ∀ s, ¬ a.acknowledges s) (h : (system cfg S).step a P = some P') :
    Stays P.broker P'.broker :=
  step_respects Stays.framing Stays.queueing
    (fun _ _ _ _ hf => .setSession_eq (congrArg (fun x => x.2.1) (hf _)))
    (fun _ m _ _ => .setSession_eq (congrArg Prod.fst (Session.setWill_queues m _)))
    (fun s hs => absurd hs (ha s))
    (fun _ _ _ => .of_sessions rfl rfl) h

/-! ## Acknowledgements -/

/-- What the acknowledgement of `id` to `this` does to the entries in flight and to tokens. -/
structure Acked (this : SessionRef) (id : UInt16) (b b' : Broker σ) : Prop where
  others : ∀ s, s ≠ this → (b'.sessions s).flight = (b.sessions s).flight
  flight : ∀ pt ∈ (b.sessions this).flight, b.idOf pt.p ≠ id → pt ∈ (b'.sessions this).flight
  next : b'.tokens.next = b.tokens.next
  token : ∀ t, (∀ pt ∈ (b.sessions this).flight, pt.t = some t → b.idOf pt.p ≠ id) →
    b'.tokens.cells t = b.tokens.cells t

/-- Between `b` and `b'`, no other token than `t` was written. -/
structure OnlyToken (t : TokenRef) (b b' : Broker σ) : Prop where
  sessions : b'.sessions = b.sessions
  next : b'.tokens.next = b.tokens.next
  cells : ∀ t', t' ≠ t → b'.tokens.cells t' = b.tokens.cells t'

namespace OnlyToken

variable {t : TokenRef}

instance : Std.Refl (OnlyToken (σ := σ) t) := ⟨fun _ => ⟨rfl, rfl, fun _ _ => rfl⟩⟩

instance : IsTrans (Broker σ) (OnlyToken t) :=
  ⟨fun _ _ _ h h' => ⟨h'.sessions.trans h.sessions, h'.next.trans h.next,
    fun t' ht => (h'.cells t' ht).trans (h.cells t' ht)⟩⟩

theorem modifyToken (f : Token → Token) :
    Respects (OnlyToken t) (modifyToken t f : GoM σ Unit) :=
  Respects.modify fun b => ⟨rfl, rfl, fun _ ht => Heap.modify_of_ne f b.tokens ht⟩

theorem flowComplete : Respects (OnlyToken t) (flowComplete t : GoM σ Unit) :=
  Respects.bind (Respects.gets _) fun _ => Respects.ite (Respects.fault _) (modifyToken _)

theorem subackResults (msg : ControlPacket) :
    Respects (OnlyToken t) (Session.subackResults msg t : GoM σ Unit) := by
  refine Respects.bind (Respects.gets _) fun tok => ?_
  split
  · split
    · exact Respects.fault _
    · exact modifyToken _
  · exact Respects.fault _

end OnlyToken

theorem Acked.refl (this : SessionRef) (id : UInt16) (b : Broker σ) : Acked this id b b :=
  ⟨fun _ _ => rfl, fun _ h _ => h, rfl, fun _ _ => rfl⟩

namespace Session

/-- Removing the first entry with the id. -/
theorem withoutInflight_acked (this : SessionRef) (id : UInt16) (b : Broker σ) :
    Acked this id b (withoutInflight this id b) := by
  refine ⟨fun s hs => ?_, fun pt hpt hid => ?_, rfl, fun _ _ => rfl⟩
  · rw [withoutInflight, setSession_of_ne _ _ hs]
  · obtain ⟨imsg, himsg, rfl⟩ := List.mem_map.mp hpt
    rw [withoutInflight, setSession_self]
    refine List.mem_map_of_mem ((List.mem_eraseP_of_neg ?_).mpr himsg)
    rw [hasId, decide_eq_true_iff]
    exact hid

theorem finishFlow_acked (this : SessionRef) (msg : ControlPacket) (b : Broker σ) :
    Acked this msg.messageID b (finishFlow this msg b).2 := by
  have hremoved := withoutInflight_acked this msg.messageID b
  rw [finishFlow, bind_run_ok (removeInflightMsg_run this msg.messageID b)]
  cases hfind : (b.sessions this).inflightingList.find? (hasId b msg.messageID) with
  | none => exact hremoved
  | some imsg =>
    obtain ⟨⟨p, t⟩, timeout, retryCnt⟩ := imsg
    cases t with
    | none => exact hremoved
    | some t =>
      have honly : OnlyToken t (withoutInflight this msg.messageID b)
          ((if msg.type = PacketType.suback then
            subackResults msg t >>= fun _ => flowComplete t
          else flowComplete t : GoM σ Unit) (withoutInflight this msg.messageID b)).2 :=
        Respects.ite (Respects.bind (OnlyToken.subackResults msg) fun _ => OnlyToken.flowComplete)
          OnlyToken.flowComplete _
      refine ⟨fun s hs => ?_, fun pt hpt hid => ?_, honly.next, fun t' ht' => ?_⟩
      · rw [honly.sessions]
        exact hremoved.others s hs
      · rw [honly.sessions]
        exact hremoved.flight pt hpt hid
      · refine honly.cells t' fun heq => ?_
        -- the entry that is removed has the id
        have hmem := List.mem_of_find?_eq_some hfind
        have hfound := List.find?_some hfind
        have hid : b.idOf p = msg.messageID := of_decide_eq_true hfound
        exact ht' ⟨p, some t⟩ (List.mem_map_of_mem (f := InflightingMsg.pt) hmem)
          (congrArg some heq.symm) hid

theorem updateInflightMsg_acked (this : SessionRef) (msg : PacketRef) (b : Broker σ) :
    Acked this (b.idOf msg) b (updateInflightMsg this msg b).2 := by
  rw [updateInflightMsg_run]
  refine ⟨fun s hs => ?_, fun pt hpt hid => ?_, rfl, fun _ _ => rfl⟩
  · rw [setSession_of_ne _ _ hs]
  · obtain ⟨imsg, himsg, rfl⟩ := List.mem_map.mp hpt
    rw [setSession_self]
    refine List.mem_map_of_mem (List.mem_map.mpr ⟨imsg, himsg, ?_⟩)
    rw [relabel, if_neg hid]

end Session

/-! ## The two functions on the list -/

namespace Session

variable (this : SessionRef) (b : Broker σ)

/-- The first entry with the id, where it stands, and what is left without it. -/
theorem withoutInflight_first {msgId : UInt16} {imsg : InflightingMsg} {l₁ l₂ : List InflightingMsg}
    (hl : (b.sessions this).inflightingList = l₁ ++ imsg :: l₂)
    (hbefore : ∀ i ∈ l₁, b.idOf i.pt.p ≠ msgId) (hid : b.idOf imsg.pt.p = msgId) :
    (b.sessions this).inflightingList.find? (hasId b msgId) = some imsg ∧
      withoutInflight this msgId b = b.setSession this (setInflight (l₁ ++ l₂)) := by
  have hhas : hasId b msgId imsg = true := decide_eq_true hid
  have hnone : ∀ i ∈ l₁, ¬ hasId b msgId i = true :=
    fun i hi hi' => hbefore i hi (of_decide_eq_true hi')
  constructor
  · rw [hl, List.find?_append, List.find?_eq_none.mpr hnone, List.find?_cons_of_pos hhas]
    rfl
  · rw [withoutInflight, hl, List.eraseP_append_right _ fun i hi => by simpa using hnone i hi,
      List.eraseP_cons_of_pos hhas]

/-- Without an entry of the id there is nothing to remove. -/
theorem withoutInflight_none {msgId : UInt16}
    (hnone : ∀ i ∈ (b.sessions this).inflightingList, b.idOf i.pt.p ≠ msgId) :
    (b.sessions this).inflightingList.find? (hasId b msgId) = none ∧
      withoutInflight this msgId b = b := by
  have hhas : ∀ i ∈ (b.sessions this).inflightingList, ¬ hasId b msgId i = true :=
    fun i hi hi' => hnone i hi (of_decide_eq_true hi')
  refine ⟨List.find?_eq_none.mpr hhas, ?_⟩
  rw [withoutInflight, List.eraseP_of_forall_not hhas]
  exact congrArg (fun sessions => { b with sessions }) (Function.update_eq_self this b.sessions)

/-- `removeInflightMsg` takes out and returns the first entry whose packet has the id, and
leaves the others in their order; when there is none it returns nil and changes nothing.
`updateInflightMsg` changes nothing but the packets of the entries with the id of its argument:
the entries stand where they stood, with their tokens, deadlines and counts of retries. -/
theorem removeInflightMsg_updateInflightMsg :
    (∀ msgId,
      (∃ l₁ imsg l₂, (b.sessions this).inflightingList = l₁ ++ imsg :: l₂ ∧
        (∀ i ∈ l₁, b.idOf i.pt.p ≠ msgId) ∧ b.idOf imsg.pt.p = msgId ∧
        removeInflightMsg this msgId b =
          (.ok (some imsg), b.setSession this (setInflight (l₁ ++ l₂)))) ∨
      (∀ i ∈ (b.sessions this).inflightingList, b.idOf i.pt.p ≠ msgId) ∧
        removeInflightMsg this msgId b = (.ok none, b)) ∧
    ∀ msg, ∃ last l, updateInflightMsg this msg b =
        (.ok last, b.setSession this (setInflight l)) ∧
      List.Forall₂ (fun imsg imsg' : InflightingMsg =>
        imsg'.pt.t = imsg.pt.t ∧ imsg'.timeout = imsg.timeout ∧
          imsg'.retryCnt = imsg.retryCnt ∧
          imsg'.pt.p = if b.idOf imsg.pt.p = b.idOf msg then msg else imsg.pt.p)
        (b.sessions this).inflightingList l := by
  refine ⟨fun msgId => ?_, fun msg => ⟨_, _, updateInflightMsg_run this msg b, ?_⟩⟩
  · rw [removeInflightMsg_run]
    by_cases hex : ∃ i ∈ (b.sessions this).inflightingList, b.idOf i.pt.p = msgId
    · obtain ⟨i, hi, hid⟩ := hex
      obtain ⟨imsg, l₁, l₂, hbefore, himsg, hl, -⟩ :=
        List.exists_of_eraseP (p := hasId b msgId) hi (decide_eq_true hid)
      have hbefore' : ∀ i ∈ l₁, b.idOf i.pt.p ≠ msgId :=
        fun i hi hid => hbefore i hi (decide_eq_true hid)
      have himsg' : b.idOf imsg.pt.p = msgId := of_decide_eq_true himsg
      obtain ⟨hfind, hwithout⟩ := withoutInflight_first this b hl hbefore' himsg'
      exact .inl ⟨l₁, imsg, l₂, hl, hbefore', himsg', by rw [hfind, hwithout]⟩
    · have hnone : ∀ i ∈ (b.sessions this).inflightingList, b.idOf i.pt.p ≠ msgId :=
        fun i hi hid => hex ⟨i, hi, hid⟩
      obtain ⟨hfind, hwithout⟩ := withoutInflight_none this b hnone
      exact .inr ⟨hnone, by rw [hfind, hwithout]⟩
  · rw [List.forall₂_map_right_iff, List.forall₂_same]
    intro imsg _
    unfold relabel
    split
    · exact ⟨rfl, rfl, rfl, rfl⟩
    · exact ⟨rfl, rfl, rfl, rfl⟩

end Session

/-- Between `b` and `b'`, the id was acknowledged once, and everything else stayed. -/
def AckedOnce (this : SessionRef) (id : UInt16) (b b' : Broker σ) : Prop :=
  ∃ b₁ b₂, Quiet b b₁ ∧ Stays b b₁ ∧ Acked this id b₁ b₂ ∧ Stays b₂ b'

namespace Session

variable (cfg : Config) (S : StoreMgr σ) {this : SessionRef} {b : Broker σ}

/-- Whatever `onInflightDone` does after the removal leaves the entries in flight. -/
theorem onInflightDone_acked (this : SessionRef) (msg : ControlPacket) (b : Broker σ) :
    ∃ b₂, Acked this msg.messageID b b₂ ∧ Stays b₂ (onInflightDone cfg this msg b).2 := by
  have hrefill := Stays.refill (σ := σ) cfg this
  by_cases hdone : finishesFlow msg = true
  · refine ⟨_, finishFlow_acked this msg b, ?_⟩
    rw [onInflightDone, if_pos hdone]
    exact Respects.after (fun _ => hrefill) b
  · refine ⟨b, .refl this _ b, ?_⟩
    rw [onInflightDone, if_neg hdone]
    exact hrefill b

theorem onPubrec_acked (this : SessionRef) (m : IdPacket) (b : Broker σ) :
    AckedOnce this m.messageID b (onPubrec this m b).2 := by
  let relmsg : ControlPacket := .pubrel { newPubrel with messageID := m.messageID }
  let b₀ : Broker σ := { b with packets := (b.packets.alloc relmsg).2 }
  have hnew : Quiet b b₀ := newPacket_quiet relmsg b
  have hnewStays : Stays b b₀ := .of_sessions rfl rfl
  have hlt : b.packets.next < b₀.packets.next := Nat.lt_succ_self _
  have hquiet : Quiet b₀ (Channel.send this b.packets.next b₀).2 := Channel.send_quiet this hlt
  have hstays := Channel.send_respects (σ := σ) Stays.framing this b.packets.next b₀
  have hcells := (Channel.send_queues (σ := σ) this b.packets.next b₀).cells b.packets.next hlt
  obtain ⟨a, b₁, hsend⟩ := (channel_send_returns (σ := σ) this b.packets.next).ok b₀
  rw [hsend] at hquiet hstays hcells
  have hid : b₁.idOf b.packets.next = m.messageID := by
    rw [idOf, hcells, Heap.alloc_self]
    rfl
  have hrun : (onPubrec this m b).2 = (updateInflightMsg this b.packets.next b₁).2 := by
    rw [onPubrec, bind_run_ok (newPacket_run _ b), bind_run_ok hsend, bind_pure_snd]
  refine ⟨b₁, _, trans_of Quiet hnew hquiet, hnewStays.trans hstays, ?_, .refl _⟩
  rw [hrun, ← hid]
  exact updateInflightMsg_acked this b.packets.next b₁

/-- An acknowledgement takes out or relabels an entry of its id. -/
theorem procFrontRemoteMsg_acked (this : SessionRef) (msg : PacketRef) {p : ControlPacket}
    (hp : p.acknowledges) (b : Broker σ) :
    AckedOnce this p.messageID b (procFrontRemoteMsg cfg S this msg p b).2 := by
  have hack : AckedOnce this p.messageID b (onAck cfg this p b).2 := by
    obtain ⟨b₂, hacked, hstays⟩ := onInflightDone_acked cfg this p b
    refine ⟨b, b₂, refl_of Quiet b, .refl b, hacked, hstays.trans ?_⟩
    exact Respects.after (fun _ => Respects.pure _) b
  cases p with
  | puback m => exact hack
  | pubcomp m => exact hack
  | suback m => exact hack
  | unsuback m => exact hack
  | pubrec m => exact onPubrec_acked this m b
  | _ => exact hp.elim

end Session

section

variable (cfg : Config) (S : StoreMgr σ) {this : SessionRef} {b : Broker σ}

theorem reads_quiet (p : ControlPacket) (timeout : ℤ) : Quiet b (b.reads this p timeout) :=
  trans_of Quiet
    (modifySession_quiet (f := fun x => { x with timeout := timeout }) (fun _ => rfl) b)
    (newPacket_quiet p _)

theorem reads_stays (p : ControlPacket) (timeout : ℤ) : Stays b (b.reads this p timeout) :=
  .trans (.setSession_eq (f := fun x => { x with timeout := timeout }) rfl) (.of_sessions rfl rfl)

theorem recvStart_acked (order : SubscriberOrder) {p : ControlPacket} (hp : p.acknowledges) :
    AckedOnce this p.messageID b (recvStart cfg S order this p b).2 := by
  by_cases hrunning : (b.sessions this).clostep = .running
  · let timeout := (b.sessions this).deadline cfg b.now
    obtain ⟨b₁, b₂, hquiet, hbefore, hacked, hafter⟩ :=
      Session.procFrontRemoteMsg_acked cfg S this b.packets.next hp (b.reads this p timeout)
    rw [recvStart_run cfg S order p hrunning]
    refine ⟨b₁, b₂, trans_of Quiet (reads_quiet p timeout) hquiet,
      (reads_stays p timeout).trans hbefore, hacked, hafter.trans ?_⟩
    exact Respects.after (fun handled => forwardStart_respects Stays.framing order this _) _
  · rw [recvStart_ended order p hrunning]
    exact ⟨b, b, refl_of Quiet b, .refl b, .refl this _ b, .refl b⟩

/-- A packet that is written acknowledges itself if it is a PUBLISH of QoS 0. -/
theorem sendRound_acked (this : SessionRef) (b : Broker σ) :
    Stays b (Session.sendRound cfg this true b).2 ∨ ∃ r rest,
      (b.sessions this).channel.iSendList = r :: rest ∧
      (b.packets.cells r).kind = PacketType.publish ∧ (b.packets.cells r).details.qos = 0 ∧
      AckedOnce this (b.idOf r) b (Session.sendRound cfg this true b).2 := by
  rw [Session.sendRound, bind_run_ok (session_run this b)]
  cases hlist : (b.sessions this).channel.iSendList with
  | nil => exact .inl (.refl b)
  | cons r rest =>
    let b₁ := b.setSession this fun s => { s with channel := { s.channel with iSendList := rest } }
    have hpop : Stays b b₁ := .setSession_eq rfl
    have hreset : Respects Stays (Session.resetTimeout cfg this : GoM σ Unit) :=
      Session.resetTimeout_set cfg fun f b hf => .setSession_eq (congrArg (fun x => x.2.1) (hf _))
    show Stays b (Session.onChannelWrited cfg this r b₁).2 ∨ ∃ r' rest', r :: rest = r' :: rest' ∧
      _ ∧ _ ∧ AckedOnce this _ b (Session.onChannelWrited cfg this r b₁).2
    rw [Session.onChannelWrited, bind_run_ok (session_run this b₁)]
    split
    · rw [bind_run_ok (packet_run r b₁)]
      split
      · next hqos =>
        refine .inr ⟨r, rest, rfl, hqos.1, hqos.2, ?_⟩
        obtain ⟨b₂, hacked, hafter⟩ :=
          Session.onInflightDone_acked cfg this (b.packets.cells r) b₁
        refine ⟨b₁, b₂, Session.popSend_quiet hlist, hpop, hacked, hafter.trans ?_⟩
        exact Respects.after (fun _ => hreset) b₁
      · exact .inl (hpop.trans (hreset b₁))
    · exact .inl hpop

end

/-- The step acknowledges `id` to `this`: an acknowledgement is read, or a PUBLISH of QoS 0 is
written, which nobody acknowledges. -/
def Action.answers (b : Broker σ) (this : SessionRef) (id : UInt16) : Action → Prop
  | .recvPacket s p _ => s = this ∧ p.1.acknowledges ∧ p.1.messageID = id
  | .sendRound s written => s = this ∧ written = true ∧ ∃ r rest,
      (b.sessions s).channel.iSendList = r :: rest ∧
      (b.packets.cells r).kind = PacketType.publish ∧ (b.packets.cells r).details.qos = 0 ∧
      b.idOf r = id
  | _ => False

namespace Process

variable {cfg : Config} {S : StoreMgr σ} {P P' : Process σ} {a : Action}

/-- A step leaves the entries in flight, or acknowledges one id of one session. -/
theorem step_stays_or_acked (h : (system cfg S).step a P = some P') :
    Stays P.broker P'.broker ∨
      ∃ this id, a.answers P.broker this id ∧ AckedOnce this id P.broker P'.broker := by
  by_cases ha : ∃ s, a.acknowledges s
  · obtain ⟨this, ha⟩ := ha
    cases a with
    | recvPacket s p order =>
      have hbroker := launch_respects (R := fun b b' => b' = (recvStart cfg S order s p.1 b).2)
        (fun _ => rfl) (of_not_waiting h)
      refine .inr ⟨s, p.1.messageID, ⟨rfl, ha.2, rfl⟩, ?_⟩
      rw [hbroker]
      exact recvStart_acked cfg S order ha.2
    | sendRound s written =>
      obtain ⟨rfl, rfl⟩ := ha
      have hbroker := run_respects (R := fun b b' => b' = (Session.sendRound cfg s true b).2)
        (fun _ => rfl) h
      rw [hbroker]
      rcases sendRound_acked cfg s P.broker with hstays | ⟨r, rest, hlist, hkind, hqos, hacked⟩
      · exact .inl hstays
      · exact .inr ⟨s, P.broker.idOf r, ⟨rfl, rfl, r, rest, hlist, hkind, hqos, rfl⟩, hacked⟩
    | _ => exact ha.elim
  · exact .inl (step_stays (fun s hs => ha ⟨s, hs⟩) h)

end Process

/-! ## An entry that waits for its acknowledgement -/

/-- The entry `pt` of `this` waits for the acknowledgement of `id`, which no call of `Publish`
gives to another packet in its place, and its token `t` is of the given kind. -/
structure Waits (this : SessionRef) (pt : PacketAndToken) (id : UInt16) (t : TokenRef)
    (kind : TokenKind) (b : Broker σ) : Prop where
  flight : pt ∈ (b.sessions this).flight
  token : pt.t = some t
  id_eq : b.idOf pt.p = id
  notPublish : (b.kindOf pt.p).1 ≠ PacketType.publish
  kind_eq : (b.tokens.cells t).kind = kind

/-- The token is complete, with the given kind. -/
def Completed (t : TokenRef) (kind : TokenKind) (b : Broker σ) : Prop :=
  t < b.tokens.next ∧ (b.tokens.cells t).kind = kind ∧ (b.tokens.cells t).complete = true

theorem Completed.stays {t : TokenRef} {kind : TokenKind} {b b' : Broker σ}
    (h : Completed t kind b) (hstays : Stays b b') : Completed t kind b' := by
  obtain ⟨hlt, hkind, hcomplete⟩ := h
  exact ⟨lt_of_lt_of_le hlt hstays.next, (hstays.kind t hlt).trans hkind,
    hstays.complete t hlt hcomplete⟩

namespace Process

variable {cfg : Config} {S : StoreMgr σ} {P P' : Process σ} {a : Action} {this : SessionRef}
  {pt : PacketAndToken} {id : UInt16} {t : TokenRef} {kind : TokenKind}

theorem Consistent.tokensDistinct (hP : P.Consistent) : TokensDistinct P.broker.entries :=
  hP.sound.distinct.of_subperm fun _ =>
    ((List.sublist_append_right _ _).filterMap _).subperm

/-- An entry waits on as long as its id is not acknowledged. -/
theorem step_waits (hP : P.Consistent) (hwaits : Waits this pt id t kind P.broker)
    (ha : ¬ a.answers P.broker this id) (h : (system cfg S).step a P = some P') :
    Waits this pt id t kind P'.broker := by
  have hentry : pt ∈ P.broker.entries this := List.mem_append_left _ hwaits.flight
  have hlt := hP.sound.inRange.entries this pt hentry
  have hlive := hP.sound.live this pt (List.mem_append_right _ hentry) t hwaits.token
  have hmove := (step_moves hP h).move
  have hkept : pt ∈ (P'.broker.sessions this).flight ∧
      (P'.broker.tokens.cells t).kind = (P.broker.tokens.cells t).kind := by
    rcases step_stays_or_acked h with
      hstays | ⟨s, id', hans, b₁, b₂, hquiet, hbefore, hacked, hafter⟩
    · exact ⟨hstays.flight this hwaits.flight, hstays.kind t hlive.1⟩
    · have hledger := hquiet hP.sound.inRange
      have hid₁ : b₁.idOf pt.p = id := (hledger.ids pt.p hlt).trans hwaits.id_eq
      have hflight₁ := hbefore.flight this hwaits.flight
      have hother : s = this → id' ≠ id := fun hs hid => ha (hs ▸ hid ▸ hans)
      have hdistinct : TokensDistinct b₁.entries :=
        hledger.tokensDistinct (w := noEntries) hP.tokensDistinct
      have htoken : b₂.tokens.cells t = b₁.tokens.cells t := by
        refine hacked.token t fun pt' hpt' ht' hid' => ?_
        -- an entry with this token is the one that waits, and has its id
        obtain ⟨hs, rfl⟩ := hdistinct.eq_of_token (List.mem_append_left _ hflight₁)
          (List.mem_append_left _ hpt') hwaits.token ht'
        exact hother hs (hid'.symm.trans hid₁)
      have hflight₂ : pt ∈ (b₂.sessions this).flight := by
        by_cases hs : this = s
        · rw [hs] at hflight₁ ⊢
          exact hacked.flight pt hflight₁ fun hid => hother hs.symm (hid.symm.trans hid₁)
        · rw [hacked.others this hs]
          exact hflight₁
      have hlt₁ : t < b₁.tokens.next := lt_of_lt_of_le hlive.1 hbefore.next
      refine ⟨hafter.flight this hflight₂, ?_⟩
      rw [hafter.kind t (lt_of_lt_of_eq hlt₁ hacked.next.symm), htoken, hbefore.kind t hlive.1]
  refine ⟨hkept.1, hwaits.token, ?_, ?_, hkept.2.trans hwaits.kind_eq⟩
  · rw [hmove.idOf_other hP.sound.inRange hlt hwaits.notPublish]
    exact hwaits.id_eq
  · rw [(hmove.kept hP.sound.inRange).kinds pt.p hlt]
    exact hwaits.notPublish

/-- A token that is complete keeps its results. -/
theorem step_completed (hP : P.Consistent) (hcompleted : Completed t kind P.broker)
    (h : (system cfg S).step a P = some P') : Completed t kind P'.broker := by
  rcases step_stays_or_acked h with
    hstays | ⟨s, id', hans, b₁, b₂, hquiet, hbefore, hacked, hafter⟩
  · exact hcompleted.stays hstays
  · have htoken : b₂.tokens.cells t = b₁.tokens.cells t := by
      refine hacked.token t fun pt' hpt' ht' _ => ?_
      -- the tokens of entries are not complete
      obtain ⟨pt₀, hpt₀, ht₀, -⟩ :=
        (hquiet hP.sound.inRange).token_mem (List.mem_append_left _ hpt')
      have hopen := (hP.sound.live s pt₀ (List.mem_append_right _ hpt₀) t (ht₀.trans ht')).2.1
      exact absurd (hopen.symm.trans hcompleted.2.2) Bool.false_ne_true
    obtain ⟨hlt₁, hkind₁, hcomplete₁⟩ := hcompleted.stays hbefore
    have hcompleted₂ : Completed t kind b₂ := by
      refine ⟨lt_of_lt_of_eq hlt₁ hacked.next.symm, ?_, ?_⟩
      · rw [htoken, hkind₁]
      · rw [htoken, hcomplete₁]
    exact hcompleted₂.stays hafter

theorem step_consistent (hP : P.Consistent) (h : (system cfg S).step a P = some P') :
    P'.Consistent :=
  (step_moves hP h).consistent hP

theorem exec_waits {as : List Action} (hP : P.Consistent)
    (hwaits : Waits this pt id t kind P.broker)
    (hothers : (system cfg S).Along (fun P a => ¬ a.answers P.broker this id) as P)
    (h : (system cfg S).exec as P = some P') :
    P'.Consistent ∧ Waits this pt id t kind P'.broker :=
  StepSystem.invariant_of_exec
    (I := fun P : Process σ => P.Consistent ∧ Waits this pt id t kind P.broker)
    (fun _ _ _ hI ha hs => ⟨step_consistent hI.1 hs, step_waits hI.1 hI.2 ha hs⟩)
    ⟨hP, hwaits⟩ hothers h

theorem exec_completed {as : List Action} (hP : P.Consistent)
    (hcompleted : Completed t kind P.broker) (h : (system cfg S).exec as P = some P') :
    Completed t kind P'.broker :=
  (StepSystem.invariant_of_exec
    (I := fun P : Process σ => P.Consistent ∧ Completed t kind P.broker)
    (fun _ _ _ hI _ hs => ⟨step_consistent hI.1 hs, step_completed hI.1 hI.2 hs⟩)
    ⟨hP, hcompleted⟩ (StepSystem.along_true as P) h).2

end Process

end MqttBroker
