import Mathlib.Data.List.Find
import MqttBroker.Session.SystemTheorems
import MqttBroker.Store.MemStore

/-!
# When an inbound packet ends the process

No handler recovers from a panic. In a state whose tokens are in order, which every
reachable state is, a decoded packet makes `RecvMsg` panic in exactly two cases: a CONNACK
on a session whose CONNECT token is complete already, and a SUBACK for an entry that is not
that of a SUBSCRIBE, or with fewer return codes than the SUBSCRIBE has filters.
-/

namespace MqttBroker

open Broker GoM Exec

variable {σ : Type} (cfg : Config) (S : StoreMgr σ)

namespace Session

/-! ## Handlers that always return -/

theorem sendNew_returns (this : SessionRef) (p : ControlPacket) :
    Returns (Channel.sendNew this p : GoM σ (Option GoError)) :=
  FaultsIn.bind (.modifyGet _) fun msg => channel_send_returns this msg

theorem resetTimeout_returns (this : SessionRef) :
    Returns (resetTimeout cfg this : GoM σ Unit) :=
  FaultsIn.bind (.gets _) fun _ => .modify _

theorem takePedding_returns (this : SessionRef) : Returns (takePedding cfg this : GoM σ Unit) := by
  refine FaultsIn.bind (.modifyGet _) fun pt => ?_
  cases pt with
  | none => exact .pure ()
  | some pt => exact FaultsIn.bind (insert2Inflight_returns cfg this pt) fun _ => .pure ()

/-- What `onInflightDone` does after the removal. -/
theorem refill_returns (this : SessionRef) : Returns (do
    let s ← session this
    if s.inflightingList.length < cfg.maxSizeOfInflight then takePedding cfg this :
      GoM σ Unit) :=
  FaultsIn.bind (.gets _) fun _ => .ite (takePedding_returns cfg this) (.pure ())

theorem onConnect_returns (this : SessionRef) (msg : ConnectPacket) :
    Returns (onConnect cfg this msg : GoM σ Handled) := by
  refine FaultsIn.bind (.gets _) fun s => .ite (.pure _) (.ite (.pure _) ?_)
  refine FaultsIn.bind (.modify _) fun _ => FaultsIn.bind (.modify _) fun _ => ?_
  refine FaultsIn.bind (.modify _) fun _ => FaultsIn.bind (sendNew_returns this _) fun _ => ?_
  refine FaultsIn.bind (.modify _) fun _ => FaultsIn.bind (.modify _) fun _ => ?_
  refine FaultsIn.bind (.modify _) fun _ => ?_
  refine FaultsIn.bind (resetTimeout_returns cfg this) fun _ => ?_
  exact .pure _

theorem saveRetained_returns (smsg : Msg) (p : PublishPacket) :
    Returns (saveRetained S smsg p) := by
  refine FaultsIn.ite (FaultsIn.bind (.modifyGet _) fun err => ?_) (.pure _)
  cases err with
  | none => exact .pure _
  | some err => exact .pure _

theorem onPublish_returns (this : SessionRef) (msg : PacketRef) (p : PublishPacket) :
    Returns (onPublish S this msg p) := by
  have hclear : Returns (clearRetained S p) :=
    FaultsIn.ite (FaultsIn.bind (.modifyGet _) fun _ => .ite (.pure _) (.pure _)) (.pure _)
  refine FaultsIn.bind hclear fun err => ?_
  cases err with
  | some err => exact .pure _
  | none =>
    dsimp only
    split
    · exact FaultsIn.ite (FaultsIn.bind (.modifyGet _) fun _ =>
        FaultsIn.bind (.modifyGet _) fun _ => .pure _) (.pure _)
    · refine FaultsIn.bind (sendNew_returns this _) fun _ => FaultsIn.bind (.gets _) fun s => ?_
      refine FaultsIn.bind (saveRetained_returns S _ p) fun err => ?_
      cases err with
      | none => exact .pure _
      | some err => exact .pure _
    · refine FaultsIn.bind (sendNew_returns this _) fun _ => FaultsIn.bind (.gets _) fun s => ?_
      refine FaultsIn.bind (.modifyGet _) fun r => ?_
      cases r with
      | ok _ => exact .pure _
      | error err =>
        refine FaultsIn.ite (FaultsIn.bind (.modifyGet _) fun err => ?_) (.pure _)
        cases err with
        | some _ => exact .pure _
        | none => exact FaultsIn.bind (saveRetained_returns S _ p) fun _ => .pure _
    · exact .pure _

theorem onPubrel_returns (this : SessionRef) (msg : IdPacket) : Returns (onPubrel S this msg) := by
  refine FaultsIn.bind (sendNew_returns this _) fun _ => FaultsIn.bind (.gets _) fun s => ?_
  refine FaultsIn.bind (.modifyGet _) fun r => ?_
  cases r with
  | error err => exact .pure _
  | ok smsg =>
    exact FaultsIn.bind (.modifyGet _) fun _ => FaultsIn.bind (.modifyGet _) fun _ => .pure _

theorem onPubrec_returns (this : SessionRef) (msg : IdPacket) :
    Returns (onPubrec this msg : GoM σ Handled) :=
  FaultsIn.bind (.modifyGet _) fun relmsg => FaultsIn.bind (channel_send_returns this relmsg)
    fun _ => FaultsIn.bind (.modifyGet _) fun _ => .pure _

/-- With one QoS for each filter, a SUBSCRIBE does not panic. -/
theorem onSubscribe_returns (this : SessionRef) {msg : SubscribePacket}
    (h : msg.topics.length = msg.qoss.length) :
    Returns (onSubscribe this msg : GoM σ Handled) := by
  refine FaultsIn.bind (.gets id) fun b => ?_
  obtain ⟨tree, htree⟩ :=
    TreeSubsMgr.addAll_isOk this msg.topics msg.qoss b.subscriptionMgr h.le
  rw [htree]
  refine FaultsIn.bind (.modify _) fun _ => FaultsIn.bind (.modify _) fun _ => ?_
  exact FaultsIn.bind (sendNew_returns this _) fun _ => .pure _

theorem onUnsubscribe_returns (this : SessionRef) (msg : UnsubscribePacket) :
    Returns (onUnsubscribe this msg : GoM σ Handled) :=
  FaultsIn.bind (.modify _) fun _ => FaultsIn.bind (sendNew_returns this _) fun _ => .pure _

theorem onDisconnect_returns (this : SessionRef) :
    Returns (onDisconnect this : GoM σ Handled) := by
  refine FaultsIn.bind (FaultsIn.bind (.gets _) fun s => .ite (.pure ()) ?_) fun _ => .pure _
  refine FaultsIn.bind (.modify _) fun _ => FaultsIn.bind (.modify _) fun _ => ?_
  exact FaultsIn.bind (.modify _) fun _ => .pure ()

/-! ## Acknowledgements -/

/-- The loop over the filters ends exactly when there is a return code for each of them. -/
theorem subResults_isOk_iff (subs : List GoString) :
    ∀ (returnCodes : List UInt8) (m : GoMap GoString UInt8),
      (∃ m', subResults subs returnCodes m = .ok m') ↔ subs.length ≤ returnCodes.length := by
  induction subs with
  | nil => exact fun _ m => iff_of_true ⟨m, by rw [subResults]⟩ (Nat.zero_le _)
  | cons sub subs ih =>
    intro returnCodes m
    cases returnCodes with
    | nil =>
      refine iff_of_false (fun h => ?_) (Nat.not_succ_le_zero _)
      obtain ⟨m', hm'⟩ := h
      rw [subResults] at hm'
      exact absurd hm' (by simp)
    | cons code returnCodes =>
      rw [subResults, ih returnCodes _, List.length_cons, List.length_cons]
      omega

/-- The token of the entry that an acknowledgement removes. -/
def ackedToken (b : Broker σ) (this : SessionRef) (msgId : UInt16) : Option TokenRef :=
  ((b.sessions this).inflightingList.find? (hasId b msgId)).bind fun imsg => imsg.pt.t

/-- The token of a SUBSCRIBE with at most that many filters. -/
def takesResults (returnCodes : List UInt8) : TokenKind → Bool
  | .subscribe subs _ => subs.length ≤ returnCodes.length
  | _ => false

/-- A SUBACK fits the token of the entry it removes, if that entry has a token. -/
def SubackFits (b : Broker σ) (this : SessionRef) (m : SubackPacket) : Prop :=
  ∀ t ∈ ackedToken b this m.messageID, takesResults m.returnCodes (b.tokens.cells t).kind = true

instance (b : Broker σ) (this : SessionRef) (m : SubackPacket) : Decidable (SubackFits b this m) :=
  inferInstanceAs (Decidable (∀ t ∈ ackedToken b this m.messageID,
    takesResults m.returnCodes (b.tokens.cells t).kind = true))

/-- The packet is not one of the two that panic. -/
def Harmless (b : Broker σ) (this : SessionRef) : ControlPacket → Prop
  | .connack _ => ∀ t ∈ (b.sessions this).connectToken, (b.tokens.cells t).complete = false
  | .suback m => SubackFits b this m
  | _ => True

instance (b : Broker σ) (this : SessionRef) (p : ControlPacket) : Decidable (Harmless b this p) :=
  match p with
  | .connack _ => inferInstanceAs (Decidable (∀ t ∈ (b.sessions this).connectToken,
      (b.tokens.cells t).complete = false))
  | .suback m => inferInstanceAs (Decidable (SubackFits b this m))
  | .connect _ | .publish _ | .puback _ | .pubrec _ | .pubrel _ | .pubcomp _ | .subscribe _
  | .unsubscribe _ | .unsuback _ | .pingreq _ | .pingresp _ | .disconnect _ => .isTrue trivial

end Session

/-! ## Runs that return or panic -/

/-- Whether a run ends in a panic. -/
def Panics {α : Type} (m : GoM σ α) (b : Broker σ) : Prop :=
  ∃ p b', m b = (.error (.panic p), b')

theorem Panics.of_fst {α : Type} {m : GoM σ α} {b : Broker σ} {p : Panic}
    (h : (m b).1 = .error (.panic p)) : Panics m b :=
  ⟨p, (m b).2, Prod.ext h rfl⟩

/-- The run returns if `c` holds, and panics otherwise. -/
structure Settles {α : Type} (c : Prop) (m : GoM σ α) (b : Broker σ) : Prop where
  returns : c → ∃ r b', m b = (.ok r, b')
  panics : ¬ c → Panics m b

namespace Settles

variable {α β : Type} {c : Prop} {m : GoM σ α} {f : α → GoM σ β} {b b₁ : Broker σ}

theorem of_returns (hm : Returns m) (hc : c) : Settles c m b :=
  ⟨fun _ => hm.ok b, fun h => absurd hc h⟩

theorem of_run (h : ∃ r b', m b = (.ok r, b')) (hc : c) : Settles c m b :=
  ⟨fun _ => h, fun hn => absurd hc hn⟩

theorem of_panic (h : Panics m b) (hc : ¬ c) : Settles c m b :=
  ⟨fun hn => absurd hn hc, fun _ => h⟩

/-- A first part that returns is left out. -/
theorem bind {a : α} (hm : m b = (.ok a, b₁)) (h : Settles c (f a) b₁) :
    Settles c (m >>= f) b := by
  constructor
  · intro hc
    rw [bind_run_ok hm]
    exact h.returns hc
  · intro hc
    obtain ⟨p, b', hr⟩ := h.panics hc
    exact ⟨p, b', (bind_run_ok hm).trans hr⟩

/-- What follows a part that settles returns. -/
theorem bind_of (h : Settles c m b)
    (hf : ∀ a b', m b = (.ok a, b') → ∃ r b'', f a b' = (.ok r, b'')) :
    Settles c (m >>= f) b := by
  constructor
  · intro hc
    obtain ⟨a, b', hr⟩ := h.returns hc
    rw [bind_run_ok hr]
    exact hf a b' hr
  · intro hc
    obtain ⟨p, b', hr⟩ := h.panics hc
    exact ⟨p, b', bind_run_error hr⟩

theorem bind_returns (h : Settles c m b) (hf : ∀ a, Returns (f a)) : Settles c (m >>= f) b :=
  h.bind_of fun a b' _ => (hf a).ok b'

theorem congr {c' : Prop} (h : Settles c m b) (hc : c' ↔ c) : Settles c' m b :=
  ⟨fun h' => h.returns (hc.mp h'), fun h' => h.panics fun hn => h' (hc.mpr hn)⟩

end Settles

/-- A token can be completed once. -/
theorem flowComplete_settles (t : TokenRef) (b : Broker σ) :
    Settles ((b.tokens.cells t).complete = false) (flowComplete t) b := by
  refine .bind (token_run t b) ?_
  cases h : (b.tokens.cells t).complete with
  | false => exact .of_run ⟨_, _, rfl⟩ rfl
  | true => exact .of_panic ⟨_, _, rfl⟩ (by decide)

namespace Session

/-- CONNACK completes the token of the CONNECT, whoever completed it before. -/
theorem onConnack_settles (this : SessionRef) (msg : ConnackPacket) (b : Broker σ) :
    Settles (Harmless b this (.connack msg)) (onConnack this msg) b := by
  have hflow : ∀ (t : TokenRef) (b₁ : Broker σ), (b.sessions this).connectToken = some t →
      (b₁.tokens.cells t).complete = (b.tokens.cells t).complete →
      Settles (Harmless b this (.connack msg))
        (flowComplete t >>= fun _ => pure {} : GoM σ Handled) b₁ := by
    intro t b₁ ht hcomplete
    have hiff : Harmless b this (.connack msg) ↔ (b₁.tokens.cells t).complete = false := by
      rw [hcomplete]
      exact ⟨fun h => h t ht, fun h t' ht' => Option.some.inj (ht.symm.trans ht') ▸ h⟩
    rw [hiff]
    exact (flowComplete_settles t b₁).bind_returns fun _ => .pure _
  have htail : ∀ (b₁ : Broker σ), (b₁.sessions this).connectToken = (b.sessions this).connectToken →
      b₁.tokens = b.tokens →
        Settles (Harmless b this (.connack msg)) (finishConnack this msg : GoM σ Handled) b₁ := by
    intro b₁ hconnect htokens
    refine .bind (session_run this b₁) (.bind (mgrEvent_run _ _) ?_)
    rw [hconnect]
    cases ht : (b.sessions this).connectToken with
    | none => exact .of_run ⟨_, _, rfl⟩ fun t ht' => absurd (ht.symm.trans ht') (by simp)
    | some t =>
      dsimp only
      split
      · refine .bind (modifyToken_run _ _ _) (hflow t _ ht ?_)
        have hself := congrArg Token.complete (Heap.modify_self t (fun tok : Token =>
          { tok with err := connErrors msg.returnCode }) b₁.tokens)
        rw [← htokens]
        exact hself
      · refine hflow t _ ht ?_
        show (b₁.tokens.cells t).complete = _
        rw [htokens]
  rw [onConnack_eq]
  split
  · refine .bind (modifySession_run _ _ _) (htail _ ?_ rfl)
    rw [setSession_self]
  · refine .bind (modifySession_run _ _ _) (htail _ ?_ rfl)
    rw [setSession_self]

/-- A SUBACK that fits gives the results to the token. -/
theorem subackResults_settles (m : SubackPacket) (t : TokenRef) (b : Broker σ) :
    Settles (takesResults m.returnCodes (b.tokens.cells t).kind = true)
      (subackResults (.suback m) t) b := by
  refine .bind (token_run t b) ?_
  cases hk : (b.tokens.cells t).kind with
  | subscribe subs subResult =>
    have hiff := subResults_isOk_iff subs m.returnCodes subResult
    rw [takesResults, decide_eq_true_iff, ← hiff]
    cases hr : subResults subs m.returnCodes subResult with
    | ok m' =>
      simp only [hr]
      exact .of_run ⟨_, _, rfl⟩ ⟨m', rfl⟩
    | error p =>
      simp only [hr]
      exact .of_panic ⟨_, _, rfl⟩ fun ⟨m', hm'⟩ => absurd hm' (by simp)
  | _ => exact .of_panic ⟨_, _, rfl⟩ (by simp [takesResults])

/-- The results of a SUBACK leave the tokens as complete as they were. -/
theorem subackResults_complete {msg : ControlPacket} {t : TokenRef} {b b' : Broker σ} {u : Unit}
    (h : subackResults msg t b = (.ok u, b')) :
    (b'.tokens.cells t).complete = (b.tokens.cells t).complete := by
  obtain ⟨tok, b₁, hget, h₁⟩ := bind_eq_ok h
  obtain rfl : b = b₁ := congrArg Prod.snd hget
  cases hk : tok.kind with
  | subscribe subs subResult =>
    simp only [hk] at h₁
    cases msg with
    | suback m =>
      cases hr : subResults subs m.returnCodes subResult with
      | error p =>
        simp only [hr] at h₁
        exact absurd (congrArg Prod.fst h₁) (by simp)
      | ok m' =>
        simp only [hr] at h₁
        obtain rfl := congrArg Prod.snd h₁
        have hself := congrArg Token.complete (Heap.modify_self t
          (fun tok : Token => { tok with kind := .subscribe subs m' }) b.tokens)
        exact hself
    | _ => exact absurd (congrArg Prod.fst h₁) (by simp)
  | _ =>
    simp only [hk] at h₁
    exact absurd (congrArg Prod.fst h₁) (by simp)

/-- Removing the acknowledged entry ends well unless the packet is a SUBACK that does not
fit: the token of an entry is never complete. -/
theorem finishFlow_settles {w : SessionRef → List PacketAndToken} {b : Broker σ} (hb : Sound w b)
    (this : SessionRef) {msg : ControlPacket} (htyped : msg.type = msg.kind) :
    Settles (∀ m, msg = .suback m → SubackFits b this m) (finishFlow this msg) b := by
  have hvacuous : ackedToken b this msg.messageID = none →
      ∀ m, msg = .suback m → SubackFits b this m := by
    rintro hnone m rfl t ht
    exact absurd (hnone.symm.trans ht) (by simp)
  rw [finishFlow]
  refine .bind (removeInflightMsg_run this msg.messageID b) ?_
  cases hfind : (b.sessions this).inflightingList.find? (hasId b msg.messageID) with
  | none =>
    refine .of_run ⟨_, _, rfl⟩ (hvacuous ?_)
    rw [ackedToken, hfind]
    rfl
  | some imsg =>
    have hacked : ackedToken b this msg.messageID = imsg.pt.t := by
      rw [ackedToken, hfind]
      rfl
    cases ht : imsg.pt.t with
    | none =>
      simp only [ht]
      exact .of_run ⟨_, _, rfl⟩ (hvacuous (hacked.trans ht))
    | some t =>
      simp only [ht]
      have hopen : (b.tokens.cells t).complete = false := by
        refine (hb.live this imsg.pt (List.mem_append_right _ ?_) t ht).2.1
        exact List.mem_append_left _ (List.mem_map_of_mem (List.mem_of_find?_eq_some hfind))
      by_cases hsuback : msg.type = PacketType.suback
      · rw [if_pos hsuback]
        rw [htyped] at hsuback
        cases msg with
        | suback m =>
          refine ((subackResults_settles m t _).congr ?_).bind_of fun u b' hr => ?_
          · constructor
            · exact fun h => h m rfl t (hacked.trans ht)
            · rintro h m' hm' t' ht'
              obtain rfl := ControlPacket.suback.inj hm'
              obtain rfl := Option.some.inj ((hacked.trans ht).symm.trans ht')
              exact h
          · refine (flowComplete_settles t b').returns ?_
            exact (subackResults_complete hr).trans hopen
        | _ =>
          rw [ControlPacket.kind] at hsuback
          exact absurd hsuback (by decide)
      · rw [if_neg hsuback]
        refine .of_run ((flowComplete_settles t _).returns hopen) fun m hm => ?_
        rw [htyped, hm] at hsuback
        exact absurd rfl hsuback

theorem onAck_settles (cfg : Config) {w : SessionRef → List PacketAndToken} {b : Broker σ}
    (hb : Sound w b) (this : SessionRef) {msg : ControlPacket} (htyped : msg.type = msg.kind)
    (hack : finishesFlow msg = true) :
    Settles (∀ m, msg = .suback m → SubackFits b this m) (onAck cfg this msg) b := by
  refine Settles.bind_returns ?_ fun _ => .pure _
  rw [onInflightDone, if_pos hack]
  exact (finishFlow_settles hb this htyped).bind_returns fun _ => refill_returns cfg this

/-! ## Every packet -/

/-- The dispatch panics exactly on the packets that are not harmless. -/
theorem procFrontRemoteMsg_settles {w : SessionRef → List PacketAndToken} {b : Broker σ}
    (hb : Sound w b) (this : SessionRef) (msg : PacketRef) {p : ControlPacket} (hp : Decoded p) :
    Settles (Harmless b this p) (procFrontRemoteMsg cfg S this msg p) b := by
  have hack : finishesFlow p = true → (∀ m, p ≠ .suback m) → (Harmless b this p ↔ True) →
      Settles (Harmless b this p) (onAck cfg this p) b :=
    fun hf hne htrue => (onAck_settles cfg hb this hp.typed hf).congr
      (htrue.trans (iff_of_true trivial fun m hm => absurd hm (hne m)))
  have hdone : p.kind ∈ [PacketType.puback, PacketType.pubcomp, PacketType.suback,
      PacketType.unsuback] → finishesFlow p = true := by
    intro hkind
    rw [finishesFlow, hp.typed, if_neg fun h => ?_]
    · exact decide_eq_true hkind
    · rw [h] at hkind
      exact absurd hkind (by decide)
  cases p with
  | connect m => exact .of_returns (onConnect_returns cfg this m) trivial
  | connack m => exact onConnack_settles this m b
  | publish m => exact .of_returns (onPublish_returns S this msg m) trivial
  | puback m => exact hack (hdone (by simp [ControlPacket.kind])) (by simp) Iff.rfl
  | pubrec m => exact .of_returns (onPubrec_returns this m) trivial
  | pubrel m => exact .of_returns (onPubrel_returns S this m) trivial
  | pubcomp m => exact hack (hdone (by simp [ControlPacket.kind])) (by simp) Iff.rfl
  | subscribe m => exact .of_returns (onSubscribe_returns this hp.paired) trivial
  | suback m =>
    refine (onAck_settles cfg hb this hp.typed (hdone (by simp [ControlPacket.kind]))).congr ?_
    exact ⟨fun h m' hm' => ControlPacket.suback.inj hm' ▸ h, fun h => h m rfl⟩
  | unsubscribe m => exact .of_returns (onUnsubscribe_returns this m) trivial
  | unsuback m => exact hack (hdone (by simp [ControlPacket.kind])) (by simp) Iff.rfl
  | pingreq h =>
    exact .of_returns (FaultsIn.bind (sendNew_returns this _) fun _ => .pure _) trivial
  | pingresp h => exact .of_returns (.pure _) trivial
  | disconnect h => exact .of_returns (onDisconnect_returns this) trivial

/-! ## Forwarding -/

/-- The run ends in a state whose tokens are in order, or blocks. -/
def EndsSound {α : Type} (w : SessionRef → List PacketAndToken) (m : GoM σ α) (b : Broker σ) :
    Prop :=
  match m b with
  | (.ok _, b') => Sound w b'
  | (.error e, _) => ∃ s pt, e = .blocked s pt

theorem EndsSound.of_triple {α : Type} {w : SessionRef → List PacketAndToken}
    {P : Broker σ → Prop} {m : GoM σ α} {b : Broker σ}
    (h : Triple P m (fun _ => Sound w) fun e _ => ∃ s pt, e = .blocked s pt) (hb : P b) :
    EndsSound w m b := by
  unfold EndsSound
  rcases hr : m b with ⟨e | a, b'⟩
  · exact h.error hb hr
  · exact h.ok hb hr

theorem EndsSound.ok {α : Type} {w : SessionRef → List PacketAndToken} {m : GoM σ α}
    {b b' : Broker σ} {a : α} (h : EndsSound w m b) (hr : m b = (.ok a, b')) : Sound w b' := by
  rwa [EndsSound, hr] at h

theorem EndsSound.bind {α β : Type} {w : SessionRef → List PacketAndToken} {m : GoM σ α}
    {f : α → GoM σ β} {b b' : Broker σ} {a : α} (hm : m b = (.ok a, b'))
    (h : EndsSound w (f a) b') : EndsSound w (m >>= f) b := by
  rw [EndsSound, bind_run_ok hm]
  exact h

include S in
/-- A round of `sendToSubcriber` leaves the tokens in order and the message a PUBLISH, or blocks. -/
theorem sendToSubcriberRound_triple {w : SessionRef → List PacketAndToken} (this : SessionRef)
    (msg : PacketRef) (v : Σ _ : SessionRef, UInt8) :
    Triple (fun b => Sound w b ∧ b.ValidMsg msg)
      (sendToSubcriberRound cfg this msg v : GoM σ Bool)
      (fun _ b => Sound w b ∧ b.ValidMsg msg) (fun e _ => ∃ s pt, e = .blocked s pt) := by
  rintro b ⟨hb, hmsg⟩
  have hvalid : (Work.subscribers this msg [v]).Valid b := Work.valid_of_msg rfl hmsg
  have hround : (Work.subscribers this msg [v]).round cfg S b =
    sendToSubcriberRound cfg this msg v b := rfl
  have hmove := Process.round_move cfg S w hb.inRange hvalid
  rw [hround] at hmove
  rcases hr : sendToSubcriberRound cfg this msg v b with ⟨e | go, b'⟩
  · rw [hr] at hmove
    obtain ⟨s, pt, he, -⟩ := hmove
    exact ⟨s, pt, he⟩
  · rw [hr] at hmove
    exact ⟨hmove.sound hb, (hmove.kept hb.inRange).validMsg hmsg⟩

include S in
/-- The loop of `sendToSubcriber`, by induction over the subscribers that are left. -/
theorem subscribers_triple {w : SessionRef → List PacketAndToken} (this : SessionRef)
    (msg : PacketRef) (subs : Subscribers) :
    Triple (fun b => Sound w b ∧ b.ValidMsg msg)
      (rounds (sendToSubcriberRound cfg this msg) subs : GoM σ Unit)
      (fun _ => Sound w) (fun e _ => ∃ s pt, e = .blocked s pt) := by
  induction subs with
  | nil => exact .pure fun _ hb => hb.1
  | cons v subs ih =>
    rw [rounds]
    refine .bind (sendToSubcriberRound_triple cfg S this msg v) fun go => ?_
    cases go with
    | true => exact ih
    -- the round gave up, and the loop with it
    | false => exact .pure fun _ hb => hb.1

theorem sendToSubcriberStart_returns (order : SubscriberOrder) (this : SessionRef)
    (msg : PacketRef) : Returns (sendToSubcriberStart order this msg : GoM σ Subscribers) :=
  FaultsIn.bind (.gets _) fun _ => FaultsIn.bind (.modify _) fun _ =>
    FaultsIn.bind (.gets _) fun _ => FaultsIn.bind (.modify _) fun _ => .pure _

include S in
theorem forward_endsSound {w : SessionRef → List PacketAndToken} {b : Broker σ}
    (hb : Sound w b) (order : SubscriberOrder) (this : SessionRef) {forwarded : Option PacketRef}
    (hvalid : ∀ r, forwarded = some r → b.ValidMsg r) :
    EndsSound w (forward cfg order this forwarded) b := by
  cases forwarded with
  | none => exact hb
  | some msg =>
    refine .bind (session_run this b) ?_
    split
    · have hstart := sendToSubcriberStart_quiet (σ := σ) order this msg
      obtain ⟨subs, b₁, hr⟩ := (sendToSubcriberStart_returns order this msg).ok b
      have hquiet := hstart b
      rw [hr] at hquiet
      exact .bind hr (.of_triple (subscribers_triple cfg S this msg subs)
        ⟨hb.quiet hquiet, hquiet.validMsg hb.inRange (hvalid msg rfl)⟩)
    · refine .bind (packet_run msg b) ?_
      exact hb.quiet (emit_quiet (fun _ _ _ => by simp) b)

/-! ## `RecvMsg` -/

/-- Where the packet is kept does not matter. -/
theorem harmless_alloc {b : Broker σ} (hb : b.InRange) (this : SessionRef) (p q : ControlPacket) :
    Harmless { b with packets := (b.packets.alloc q).2 } this p ↔ Harmless b this p := by
  cases p with
  | suback m =>
    have hfind : (b.sessions this).inflightingList.find?
        (hasId { b with packets := (b.packets.alloc q).2 } m.messageID) =
        (b.sessions this).inflightingList.find? (hasId b m.messageID) := by
      refine List.find?_congr fun imsg himsg => ?_
      have hlt := hb.entries this imsg.pt
        (List.mem_append_left _ (List.mem_map_of_mem himsg))
      rw [hasId, hasId, idOf, idOf]
      exact congrArg (fun p : ControlPacket => decide (p.messageID = m.messageID))
        (Heap.alloc_of_lt q hlt)
    rw [Harmless, Harmless, SubackFits, SubackFits, ackedToken, ackedToken, hfind]
  | _ => rfl

/-- A decoded packet makes `RecvMsg` panic exactly when the session is running and the packet
is not harmless; otherwise the state stays in order. -/
theorem recvMsg_spec {w : SessionRef → List PacketAndToken} {b : Broker σ} (hb : Sound w b)
    (order : SubscriberOrder) (this : SessionRef) {p : ControlPacket} (hp : Decoded p) :
    (((b.sessions this).clostep = .running → Harmless b this p) →
      EndsSound w (recvMsg cfg S order this p) b) ∧
    (¬ ((b.sessions this).clostep = .running → Harmless b this p) →
      Panics (recvMsg cfg S order this p) b) := by
  by_cases hclostep : (b.sessions this).clostep = .running
  · have hsound : Sound w { b with packets := (b.packets.alloc p).2 } :=
      hb.quiet (newPacket_quiet p b)
    have hsettles := (procFrontRemoteMsg_settles cfg S hsound this b.packets.next hp).congr
      (harmless_alloc hb.inRange this p p).symm
    have hrun : recvMsg cfg S order this p b =
        (procFrontRemoteMsg cfg S this b.packets.next p >>= fun handled =>
          forward cfg order this handled.forwarded : GoM σ Unit)
          { b with packets := (b.packets.alloc p).2 } := by
      rw [recvMsg, bind_run_ok (session_run this b), if_neg (not_not.mpr hclostep),
        bind_run_ok (newPacket_run p b)]
    constructor
    · intro h
      obtain ⟨handled, b₁, hr⟩ := hsettles.returns (h hclostep)
      have hquiet := procFrontRemoteMsg_quiet cfg S this b.packets.next p
        { b with packets := (b.packets.alloc p).2 }
      rw [hr] at hquiet
      rw [EndsSound, hrun, bind_run_ok hr]
      refine forward_endsSound cfg S (hsound.quiet hquiet) order this ?_
      refine procFrontRemoteMsg_forwards cfg S hsound.inRange (fun hkind => ?_) hr
      exact newPacket_validMsg hkind (hp.typed.trans hkind) (newPacket_run p b)
    · intro h
      obtain ⟨e, b₁, hr⟩ := hsettles.panics fun hharmless => h fun _ => hharmless
      exact ⟨e, b₁, by rw [hrun, bind_run_error hr]⟩
  · have hrun : recvMsg cfg S order this p b = (.ok (), b) := by
      rw [recvMsg, bind_run_ok (session_run this b), if_pos hclostep]
      rfl
    refine ⟨fun _ => ?_, fun h => absurd (fun hc => absurd hc hclostep) h⟩
    rw [EndsSound, hrun]
    exact hb

/-- `RecvMsg` on one packet after another, each with an order of its subscribers. -/
def recvMsgs (this : SessionRef) : List (Inbound × SubscriberOrder) → GoM σ Unit
  | [] => pure ()
  | (p, order) :: ps => do
    recvMsg cfg S order this p.1
    recvMsgs this ps

/-- Each packet finds its session closing or is harmless in the state before it. -/
def AllHarmless (this : SessionRef) : List (Inbound × SubscriberOrder) → Broker σ → Prop
  | [], _ => True
  | (p, order) :: ps, b =>
    ((b.sessions this).clostep = .running → Harmless b this p.1) ∧
      match recvMsg cfg S order this p.1 b with
      | (.ok _, b') => AllHarmless this ps b'
      | (.error _, _) => True

instance allHarmlessDecidable (this : SessionRef) : ∀ (ps : List (Inbound × SubscriberOrder))
    (b : Broker σ), Decidable (AllHarmless cfg S this ps b)
  | [], _ => .isTrue trivial
  | (p, order) :: ps, b =>
    have : Decidable (match recvMsg cfg S order this p.1 b with
        | (.ok _, b') => AllHarmless cfg S this ps b'
        | (.error _, _) => True) :=
      match recvMsg cfg S order this p.1 b with
      | (.ok _, b') => allHarmlessDecidable this ps b'
      | (.error _, _) => .isTrue trivial
    inferInstanceAs (Decidable (_ ∧ _))

/-- By induction over the packets: each one keeps the tokens in order. -/
theorem recvMsgs_panics_iff {w : SessionRef → List PacketAndToken} (this : SessionRef)
    (ps : List (Inbound × SubscriberOrder)) :
    ∀ {b : Broker σ}, Sound w b →
      (¬ Panics (recvMsgs cfg S this ps) b ↔ AllHarmless cfg S this ps b) := by
  induction ps with
  | nil => exact fun _ => iff_of_true (fun ⟨_, _, h⟩ => absurd h (by simp [recvMsgs])) trivial
  | cons pp ps ih =>
    intro b hb
    obtain ⟨p, order⟩ := pp
    obtain ⟨hgood, hbad⟩ := recvMsg_spec cfg S hb order this p.2
    rw [recvMsgs, AllHarmless]
    by_cases h : (b.sessions this).clostep = .running → Harmless b this p.1
    · have hends := hgood h
      rcases hr : recvMsg cfg S order this p.1 b with ⟨e | u, b'⟩
      · rw [EndsSound, hr] at hends
        obtain ⟨s, pt, rfl⟩ := hends
        refine iff_of_true (fun ⟨e, b'', hp⟩ => ?_) ⟨h, trivial⟩
        rw [bind_run_error hr] at hp
        exact absurd (congrArg Prod.fst hp) (by simp)
      · have hrest := ih (hends.ok hr)
        rw [Panics, bind_run_ok hr]
        exact hrest.trans (and_iff_right h).symm
    · obtain ⟨e, b', hr⟩ := hbad h
      exact iff_of_false (fun hn => hn ⟨e, b', bind_run_error hr⟩) fun hall => h hall.1

end Session

/-! ## Reachable states -/

/-- The next step of a goroutine panics. -/
def Goroutine.Panics (g : Goroutine) (b : Broker σ) : Prop :=
  (∃ w ∈ g.work, MqttBroker.Panics (w.round cfg S) b) ∨
    ∃ s pt, g.waiting = some (s, pt) ∧ MqttBroker.Panics (Session.pushPedding cfg s pt) b

namespace Process

variable {cfg S} {P : Process σ}

theorem pushPedding_not_panics (s : SessionRef) (pt : PacketAndToken) (b : Broker σ) :
    ¬ Panics (Session.pushPedding cfg s pt) b := by
  rintro ⟨p, b', hr⟩
  rw [Session.pushPedding, bind_run_ok (session_run s b)] at hr
  split at hr
  · exact absurd (congrArg Prod.fst hr) (by simp)
  · split at hr
    · exact absurd (congrArg Prod.fst hr) (by simp [bind_run])
    · exact absurd (congrArg Prod.fst hr) (by simp)

/-- A loop with calls of `Publish` that goes on after a block does not panic. -/
theorem Consistent.goroutine_not_panics (hP : P.Consistent) :
    ∀ g ∈ P.goroutines, ¬ g.Panics cfg S P.broker := by
  rintro g hg (⟨w, hw, p, b', hr⟩ | ⟨s, pt, -, hpanics⟩)
  · have hmove := round_move cfg S noEntries hP.sound.inRange (hP.valid g hg w hw)
    rw [hr] at hmove
    obtain ⟨this, pt, he, -⟩ := hmove
    exact absurd he (by simp)
  · exact pushPedding_not_panics s pt P.broker hpanics

/-- In every reachable state, a session handles any packets without a panic if and only if
each of them is harmless when it arrives; code that is blocked in `Publish` never panics. -/
theorem recvMsgs_not_panics_iff (h : (system cfg S).Reachable P) (this : SessionRef)
    (ps : List (Inbound × SubscriberOrder)) :
    (¬ Panics (Session.recvMsgs cfg S this ps) P.broker ↔
      Session.AllHarmless cfg S this ps P.broker) ∧
    ∀ g ∈ P.goroutines, ¬ g.Panics cfg S P.broker :=
  have hP := reach_consistent h
  ⟨Session.recvMsgs_panics_iff cfg S this ps hP.sound, hP.goroutine_not_panics⟩

/-- A SUBACK with one return code. -/
def subackOf (messageID : UInt16) : ControlPacket :=
  .suback { header := { messageType := PacketType.suback }, messageID, returnCodes := [1] }

theorem subackOf_decoded (messageID : UInt16) : Decoded (subackOf messageID) :=
  .other _ rfl (by rw [subackOf, ControlPacket.kind]; decide)

/-- A client session has sent a SUBSCRIBE for one filter; its SUBACK arrives twice. -/
theorem recvMsgs_not_panics_subscribe : ∃ P : Process MemStore,
    (system {} (MemStore.storeMgr default)).exec
      [.send 0 ⟨_, (subscribeByte_decoded 120 1).typed⟩]
      (start {} MemStore.newStoreMgr fun _ => false) = some P ∧
    (P.broker.entries 0).length = 1 ∧
    ¬ Panics (Session.recvMsgs {} (MemStore.storeMgr default) 0
      [(⟨_, subackOf_decoded 1⟩, RangeOrder.ascending),
        (⟨_, subackOf_decoded 1⟩, RangeOrder.ascending)]) P.broker := by
  have hend : ((system {} (MemStore.storeMgr default)).exec
      [.send 0 ⟨_, (subscribeByte_decoded 120 1).typed⟩]
      (start {} MemStore.newStoreMgr fun _ => false)).any (fun P =>
        decide ((P.broker.entries 0).length = 1 ∧
          Session.AllHarmless {} (MemStore.storeMgr default) 0
            [(⟨_, subackOf_decoded 1⟩, RangeOrder.ascending),
              (⟨_, subackOf_decoded 1⟩, RangeOrder.ascending)] P.broker)) = true := by
    decide +kernel
  obtain ⟨P, hP, hcheck⟩ := StepSystem.exists_of_any hend
  have hboth := of_decide_eq_true hcheck
  have hinit := start_initial {} MemStore.newStoreMgr fun _ => false
  exact ⟨P, hP, hboth.1,
    (recvMsgs_not_panics_iff (StepSystem.reachable_of_exec hinit hP) 0 _).1.mpr hboth.2⟩

/-- A client that acknowledges the PUBLISH it gets with a SUBACK ends the broker. -/
theorem recvMsgs_panics_suback : ∃ P : Process MemStore,
    (system {} (MemStore.storeMgr default)).Reachable P ∧
    ∃ ps, Panics (Session.recvMsgs {} (MemStore.storeMgr default) 0 ps) P.broker := by
  have hend : (Session.recvMsgs {} (MemStore.storeMgr default) 0
      [(⟨_, connectAs_decoded (str "a")⟩, RangeOrder.ascending),
        (⟨_, subscribeByte_decoded 120 1⟩, RangeOrder.ascending),
        (⟨_, publishOf_decoded (str "x") (str "m") 1 7⟩, RangeOrder.ascending),
        (⟨_, subackOf_decoded 1⟩, RangeOrder.ascending)]
      (start {} MemStore.newStoreMgr fun _ => true).broker).1 =
        .error (.panic .typeAssertion) := by
    decide +kernel
  exact ⟨_, .init (start_initial {} MemStore.newStoreMgr fun _ => true), _, Panics.of_fst hend⟩

end Process
end MqttBroker
