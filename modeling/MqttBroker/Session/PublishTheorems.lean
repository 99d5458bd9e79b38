import MqttBroker.Session.Sound
import MqttBroker.Store.MemStore

/-!
# What `Publish` tells its caller

The caller of `Publish` learns from its error whether the message was taken. The error of
`insert2Inflight` is ignored and the panic of a send on the closed `peddingChan` is
recovered, so a call can return without an error although the message is in no list. A
refill of the window ignores the same error, for an entry that it has taken from the pending
list. For every state it is said here exactly when this happens.
-/

namespace MqttBroker

open Broker GoM Exec

variable {σ : Type} (cfg : Config)

namespace Session

/-! ## Lists -/

/-- The entries in flight. -/
def inflight (s : Session) : List PacketAndToken := s.inflightingList.map InflightingMsg.pt

/-- Both lists are as they were. -/
def Untouched (s s' : Session) : Prop :=
  s'.inflightingList = s.inflightingList ∧ s'.peddingMsgList = s.peddingMsgList

/-- The entry was put at the end of one of the lists. -/
def Entered (pt : PacketAndToken) (s s' : Session) : Prop :=
  (∃ imsg : InflightingMsg, imsg.pt = pt ∧ s'.inflightingList = s.inflightingList ++ [imsg]) ∧
      s'.peddingMsgList = s.peddingMsgList ∨
    s'.inflightingList = s.inflightingList ∧ s'.peddingMsgList = s.peddingMsgList ++ [pt]

/-- What was taken from the pending list was put in flight, after the entries `l`. -/
def Refilled (l : List PacketAndToken) (s s' : Session) : Prop :=
  ∃ popped, s.peddingMsgList = popped ++ s'.peddingMsgList ∧ s'.inflight = l ++ popped

section Lists

variable {s s' : Session} {pt : PacketAndToken} {l : List PacketAndToken}

theorem Untouched.not_entered (h : Untouched s s') : ¬ Entered pt s s' := by
  rintro (⟨⟨imsg, -, hinflight⟩, -⟩ | ⟨-, hpedding⟩)
  · exact absurd (h.1.symm.trans hinflight) (by simp)
  · exact absurd (h.2.symm.trans hpedding) (by simp)

/-- An entry that was entered is in one of the lists. -/
theorem Entered.mem (h : Entered pt s s') : pt ∈ s'.inflight ∨ pt ∈ s'.peddingMsgList := by
  rcases h with ⟨⟨imsg, rfl, hinflight⟩, -⟩ | ⟨-, hpedding⟩
  · refine .inl (List.mem_map_of_mem ?_)
    rw [hinflight]
    exact List.mem_append_right _ (List.mem_singleton_self _)
  · rw [hpedding]
    exact .inr (List.mem_append_right _ (List.mem_singleton_self _))

/-- Nothing was taken. -/
theorem Refilled.of_eq (hpedding : s'.peddingMsgList = s.peddingMsgList)
    (hinflight : s'.inflight = l) : Refilled l s s' :=
  ⟨[], hpedding.symm, by rw [hinflight, List.append_nil]⟩

/-- The first entry was taken: it has to be in flight. -/
theorem refilled_iff_of_pop (hpop : s.peddingMsgList = pt :: s'.peddingMsgList) :
    Refilled l s s' ↔ s'.inflight = l ++ [pt] := by
  constructor
  · rintro ⟨popped, hpopped, hinflight⟩
    have : popped = [pt] := List.append_cancel_right (hpopped.symm.trans hpop)
    rw [hinflight, this]
  · exact fun h => ⟨[pt], hpop, h⟩

end Lists

/-! ## Entering the window -/

/-- `insert2Inflight` puts an entry with this packet in flight. -/
def Enters (b : Broker σ) (this : SessionRef) (msg : PacketRef) : Prop :=
  (b.sessions this).channel.isStoped = false ∧
    (b.packets.cells msg).kind ∈ [PacketType.publish, PacketType.pubrec, PacketType.pubrel]

instance (b : Broker σ) (this : SessionRef) (msg : PacketRef) : Decidable (Enters b this msg) :=
  inferInstanceAs (Decidable (_ ∧ _))

/-- `Channel.Send` writes to the send list only, and not on a stopped channel. -/
theorem channel_send_run (this : SessionRef) (msg : PacketRef) (b : Broker σ) : ∃ b',
    Channel.send this msg b = (.ok none, b') ∧ b'.packets = b.packets ∧
      b'.sessions this = if (b.sessions this).channel.isStoped then b.sessions this
        else queueSend msg (b.sessions this) := by
  unfold Channel.send
  rw [bind_run_ok (session_run this b)]
  split
  · exact ⟨b, rfl, rfl, rfl⟩
  · exact ⟨_, rfl, rfl, setSession_self ..⟩

theorem channel_send_untouched (this : SessionRef) (msg : PacketRef) (b : Broker σ) : ∃ b',
    Channel.send this msg b = (.ok none, b') ∧ Untouched (b.sessions this) (b'.sessions this) := by
  obtain ⟨b', hrun, -, hs⟩ := channel_send_run this msg b
  refine ⟨b', hrun, ?_⟩
  rw [hs]
  split
  · exact ⟨rfl, rfl⟩
  · exact ⟨rfl, rfl⟩

theorem insert2Inflight_enters {this : SessionRef} {pt : PacketAndToken} {b : Broker σ}
    (h : Enters b this pt.p) : ∃ b', insert2Inflight cfg this pt b = (.ok none, b') ∧
      (∃ imsg : InflightingMsg, imsg.pt = pt ∧
        (b'.sessions this).inflightingList = (b.sessions this).inflightingList ++ [imsg]) ∧
      (b'.sessions this).peddingMsgList = (b.sessions this).peddingMsgList := by
  obtain ⟨hstoped, hkind⟩ := h
  have hpush : pushInflight cfg this pt b = (.ok (), b.setSession this
      (queueInflight { pt, timeout := b.now + cfg.sentTimeout })) := rfl
  obtain ⟨b', hsend, hsame⟩ := channel_send_untouched this pt.p (b.setSession this
    (queueInflight { pt, timeout := b.now + cfg.sentTimeout }))
  rw [setSession_self] at hsame
  refine ⟨b', ?_, ⟨_, rfl, hsame.1⟩, hsame.2⟩
  rw [insert2Inflight, bind_run_ok (session_run this b), hstoped, if_neg Bool.false_ne_true,
    bind_run_ok (packet_run pt.p b), if_pos hkind, bind_run_ok hpush]
  exact bind_run_ok hsend

theorem insert2Inflight_refuses {this : SessionRef} {pt : PacketAndToken} {b : Broker σ}
    (h : ¬ Enters b this pt.p) : ∃ err b', insert2Inflight cfg this pt b = (.ok err, b') ∧
      Untouched (b.sessions this) (b'.sessions this) := by
  rw [insert2Inflight, bind_run_ok (session_run this b)]
  cases hstoped : (b.sessions this).channel.isStoped with
  | true => exact ⟨_, b, rfl, rfl, rfl⟩
  | false =>
    obtain ⟨b', hsend, hsame⟩ := channel_send_untouched this pt.p b
    refine ⟨none, b', ?_, hsame⟩
    rw [if_neg Bool.false_ne_true, bind_run_ok (packet_run pt.p b),
      if_neg fun hkind => h ⟨hstoped, hkind⟩]
    exact bind_run_ok hsend

/-! ## `Publish` -/

/-- What a call of `Publish` on packet `msg` tells is so. While it waits for room it has told
nothing. -/
def TellsTruth (this : SessionRef) (msg : PacketRef) (b : Broker σ) :
    Except Fault (Option TokenRef × Option GoError) × Broker σ → Prop
  | (.ok (t, none), b') => Entered ⟨msg, t⟩ (b.sessions this) (b'.sessions this)
  | (.ok (_, some _), b') => Untouched (b.sessions this) (b'.sessions this)
  | (.error (.blocked this' pt), b') =>
    this' = this ∧ pt.p = msg ∧ Untouched (b.sessions this) (b'.sessions this)
  | (.error (.panic _), _) => False

/-- The window and the send list have room. -/
abbrev HasRoom (s : Session) : Prop :=
  s.inflightingList.length < cfg.maxSizeOfInflight ∧
    s.channel.iSendList.length < cfg.maxSizeOfPublishMsg

/-- Past its first test, `Publish` finds what it goes on to: an entry is put in flight if
there is room, and `peddingChan` is open if there is none. -/
def FindsPlace (b : Broker σ) (this : SessionRef) (msg : PacketRef) : Prop :=
  (b.sessions this).isConnected → ¬ (b.sessions this).isClosed →
    if HasRoom cfg (b.sessions this) then Enters b this msg
    else (b.sessions this).peddingChan.closed = false

instance (b : Broker σ) (this : SessionRef) (msg : PacketRef) :
    Decidable (FindsPlace cfg b this msg) :=
  inferInstanceAs (Decidable (_ → _ → _))

/-- A call that waits for room goes on, in any state. -/
theorem pushPedding_tellsTruth_iff (this : SessionRef) (pt : PacketAndToken) (b : Broker σ) :
    TellsTruth this pt.p b (pushPedding cfg this pt b) ↔
      (b.sessions this).peddingChan.closed = false := by
  rw [pushPedding, bind_run_ok (session_run this b)]
  cases hclosed : (b.sessions this).peddingChan.closed with
  | true =>
    rw [if_pos rfl]
    exact iff_of_false (Untouched.not_entered ⟨rfl, rfl⟩) Bool.false_ne_true.symm
  | false =>
    rw [if_neg Bool.false_ne_true]
    refine iff_of_true ?_ rfl
    split
    · refine .inr ?_
      rw [setSession_self]
      exact ⟨rfl, rfl⟩
    · exact ⟨rfl, rfl, rfl, rfl⟩

theorem enqueue_tellsTruth_iff (this : SessionRef) (pt : PacketAndToken) (b : Broker σ) :
    TellsTruth this pt.p b (enqueue cfg this pt b) ↔ FindsPlace cfg b this pt.p := by
  rw [enqueue, bind_run_ok (session_run this b), FindsPlace]
  by_cases hopen : (b.sessions this).isConnected ∧ ¬ (b.sessions this).isClosed
  · rw [if_neg (by tauto)]
    have hiff : (if HasRoom cfg (b.sessions this) then Enters b this pt.p
        else (b.sessions this).peddingChan.closed = false) ↔
        ((b.sessions this).isConnected → ¬ (b.sessions this).isClosed →
          if HasRoom cfg (b.sessions this) then Enters b this pt.p
          else (b.sessions this).peddingChan.closed = false) :=
      ⟨fun h _ _ => h, fun h => h hopen.1 hopen.2⟩
    rw [← hiff]
    by_cases hroom : HasRoom cfg (b.sessions this)
    · rw [if_pos hroom, if_pos hroom]
      by_cases henters : Enters b this pt.p
      · obtain ⟨b', hrun, hlists⟩ := insert2Inflight_enters cfg henters
        rw [bind_run_ok hrun]
        exact iff_of_true (.inl hlists) henters
      · obtain ⟨err, b', hrun, hlists⟩ := insert2Inflight_refuses cfg henters
        rw [bind_run_ok hrun]
        exact iff_of_false hlists.not_entered henters
    · rw [if_neg hroom, if_neg hroom]
      exact pushPedding_tellsTruth_iff cfg this pt b
  · rw [if_pos (by tauto)]
    exact iff_of_true ⟨rfl, rfl⟩ fun hc hn => absurd ⟨hc, hn⟩ hopen

theorem setMessageID_kind (id : UInt16) (p : ControlPacket) :
    (p.setMessageID id).kind = p.kind := by
  cases p with
  | _ => rfl

theorem publish_tellsTruth_iff (this : SessionRef) (msg : PacketRef) (b : Broker σ) :
    TellsTruth this msg b (publish cfg this msg b) ↔ FindsPlace cfg b this msg := by
  obtain ⟨t, b₁, hpub, hrun⟩ := publish_run cfg this msg b
  have hself : b₁.sessions this = advanceMsgId (b.sessions this) := by
    rw [hpub.sessions, setSession_self]
  have hkind : (b₁.packets.cells msg).kind = (b.packets.cells msg).kind := by
    rw [hpub.packets, Heap.modify_self, setMessageID_kind]
  have htells : ∀ r, TellsTruth this msg b r ↔ TellsTruth this msg b₁ r := by
    rintro ⟨e | ⟨t, _ | err⟩, b'⟩
    · cases e with
      | panic p => exact Iff.rfl
      | blocked s pt => rw [TellsTruth, TellsTruth, hself]; exact Iff.rfl
    · rw [TellsTruth, TellsTruth, hself]; exact Iff.rfl
    · rw [TellsTruth, TellsTruth, hself]; exact Iff.rfl
  rw [hrun, htells, enqueue_tellsTruth_iff cfg this ⟨msg, t⟩ b₁, FindsPlace, FindsPlace, Enters,
    Enters, hself, hkind]
  exact Iff.rfl

/-! ## Refills -/

/-- The first pending entry can be put in flight. -/
def EntersFirst (b : Broker σ) (this : SessionRef) : Prop :=
  ∀ pt ∈ (b.sessions this).peddingMsgList.head?, Enters b this pt.p

instance (b : Broker σ) (this : SessionRef) : Decidable (EntersFirst b this) :=
  inferInstanceAs (Decidable (∀ pt ∈ (b.sessions this).peddingMsgList.head?, _))

theorem takePedding_refilled_iff (this : SessionRef) (b : Broker σ) : ∃ b',
    takePedding cfg this b = (.ok (), b') ∧
      (Refilled (b.sessions this).inflight (b.sessions this) (b'.sessions this) ↔
        EntersFirst b this) := by
  have hpop : popPedding this b = (.ok (GoList.pop (b.sessions this).peddingMsgList).1,
      b.setSession this dropPedding) := rfl
  have hlists : ((b.setSession this dropPedding).sessions this).inflight =
      (b.sessions this).inflight ∧
      ((b.setSession this dropPedding).sessions this).peddingMsgList =
        (GoList.pop (b.sessions this).peddingMsgList).2 := by
    rw [setSession_self]
    exact ⟨rfl, rfl⟩
  unfold takePedding
  rw [bind_run_ok hpop]
  cases hpedding : (b.sessions this).peddingMsgList with
  | nil =>
    rw [hpedding] at hlists
    refine ⟨_, rfl, iff_of_true ?_ fun pt hpt => ?_⟩
    · exact .of_eq (hlists.2.trans hpedding.symm) hlists.1
    · rw [hpedding] at hpt
      exact absurd hpt (by simp)
  | cons pt rest =>
    rw [hpedding] at hlists
    have henters : Enters (b.setSession this dropPedding) this pt.p ↔ Enters b this pt.p := by
      rw [Enters, Enters, setSession_self]
      exact Iff.rfl
    have hfirst : EntersFirst b this ↔ Enters b this pt.p := by
      rw [EntersFirst, hpedding]
      simp
    rw [hfirst, ← henters]
    by_cases h : Enters (b.setSession this dropPedding) this pt.p
    · obtain ⟨b', hrun, ⟨imsg, rfl, hinflight⟩, hsame⟩ := insert2Inflight_enters cfg h
      refine ⟨b', bind_run_ok hrun, ?_⟩
      rw [refilled_iff_of_pop (hpedding.trans (by rw [hsame, hlists.2]; rfl))]
      refine iff_of_true ?_ h
      rw [inflight, hinflight, List.map_append, ← hlists.1]
      rfl
    · obtain ⟨err, b', hrun, hsame⟩ := insert2Inflight_refuses cfg h
      refine ⟨b', bind_run_ok hrun, ?_⟩
      rw [refilled_iff_of_pop (hpedding.trans (by rw [hsame.2, hlists.2]; rfl))]
      refine iff_of_false ?_ h
      rw [inflight, hsame.1, ← inflight, hlists.1]
      simp

/-- The entries of `inflightingList` that a tick finds timed out. -/
def timedOut (now : ℤ) (s : Session) : List InflightingMsg :=
  s.inflightingList.filter fun imsg => imsg.timeout ≤ now

/-- A tick finds room after it has resent: a stopped channel takes nothing. -/
abbrev HasRoomAfterResend (now : ℤ) (s : Session) : Prop :=
  s.inflightingList.length < cfg.maxSizeOfInflight ∧
    s.channel.iSendList.length + (if s.channel.isStoped then 0 else (s.timedOut now).length) <
      cfg.maxSizeOfPublishMsg

/-- The resend loop writes to the send list only. -/
theorem resend_run (this : SessionRef) (tmMsg : List InflightingMsg) : ∀ b : Broker σ, ∃ b',
    resend this tmMsg b = (.ok (), b') ∧ b'.packets = b.packets ∧
      Untouched (b.sessions this) (b'.sessions this) ∧
      (b'.sessions this).channel.isStoped = (b.sessions this).channel.isStoped ∧
      (b'.sessions this).channel.iSendList.length = (b.sessions this).channel.iSendList.length +
        if (b.sessions this).channel.isStoped then 0 else tmMsg.length := by
  induction tmMsg with
  | nil => exact fun b => ⟨b, rfl, rfl, ⟨rfl, rfl⟩, rfl, by simp⟩
  | cons imsg tmMsg ih =>
    intro b
    obtain ⟨b₁, hsend, hpackets₁, hs₁⟩ := channel_send_run this imsg.pt.p b
    obtain ⟨b₂, hrest, hpackets₂, hsame, hstoped, hlen⟩ := ih b₁
    refine ⟨b₂, by rw [resend, bind_run_ok hsend]; exact hrest, hpackets₂.trans hpackets₁, ?_⟩
    rw [hs₁] at hsame hstoped hlen
    cases hc : (b.sessions this).channel.isStoped with
    | true =>
      rw [hc, if_pos rfl] at hsame hstoped hlen
      rw [hc] at hstoped
      exact ⟨hsame, hstoped, by simpa [hc] using hlen⟩
    | false =>
      rw [hc, if_neg Bool.false_ne_true] at hsame hstoped hlen
      refine ⟨hsame, hstoped.trans hc, ?_⟩
      simp only [queueSend, GoList.push, hc, List.length_append, List.length_singleton] at hlen
      simp only [List.length_cons]
      simpa [Nat.add_comm, Nat.add_left_comm, Nat.add_assoc] using hlen

theorem checkInflightList_refilled_iff (this : SessionRef) (b : Broker σ) : ∃ b',
    checkInflightList cfg this b = (.ok (), b') ∧
      (Refilled (b.sessions this).inflight (b.sessions this) (b'.sessions this) ↔
        (HasRoomAfterResend cfg b.now (b.sessions this) → EntersFirst b this)) := by
  have hmap : ∀ now, ((b.sessions this).inflightingList.map (renew cfg now)).map
      InflightingMsg.pt = (b.sessions this).inflight := by
    intro now
    rw [List.map_map]
    refine List.map_congr_left fun imsg _ => ?_
    rw [Function.comp_apply, renew]
    split
    · rfl
    · rfl
  obtain ⟨b₁, hresend, hpackets, ⟨hinflight, hpedding⟩, hstoped, hlen⟩ := resend_run this
    ((b.sessions this).timedOut b.now) (b.setSession this
      (setInflight ((b.sessions this).inflightingList.map (renew cfg b.now))))
  rw [setSession_self] at hinflight hpedding hstoped hlen
  have hroom : HasRoom cfg (b₁.sessions this) ↔
      HasRoomAfterResend cfg b.now (b.sessions this) := by
    have hlength : (b₁.sessions this).inflightingList.length =
        (b.sessions this).inflightingList.length := by
      rw [hinflight]
      exact List.length_map ..
    rw [HasRoom, hlength, hlen]
    exact Iff.rfl
  have hsame : (b₁.sessions this).inflight = (b.sessions this).inflight := by
    rw [inflight, hinflight]
    exact hmap b.now
  have hrun : checkInflightList cfg this b =
      (if HasRoom cfg (b₁.sessions this) then takePedding cfg this else pure ()) b₁ := by
    rw [checkInflightList, bind_run_ok (now_run b), bind_run_ok (session_run this b),
      bind_run_ok (modifySession_run _ _ b)]
    exact (bind_run_ok hresend).trans (bind_run_ok (session_run this b₁))
  rw [hrun, ← hroom]
  by_cases h : HasRoom cfg (b₁.sessions this)
  · rw [if_pos h]
    obtain ⟨b', htake, hiff⟩ := takePedding_refilled_iff cfg this b₁
    refine ⟨b', htake, ?_⟩
    have hfirst : EntersFirst b₁ this ↔ EntersFirst b this := by
      rw [EntersFirst, EntersFirst, hpedding]
      simp only [Enters, hstoped, hpackets]
      exact Iff.rfl
    have hrefilled : Refilled (b.sessions this).inflight (b.sessions this) (b'.sessions this) ↔
        Refilled (b₁.sessions this).inflight (b₁.sessions this) (b'.sessions this) := by
      rw [Refilled, Refilled, hsame, hpedding]
      exact Iff.rfl
    rw [hrefilled, hiff, hfirst]
    exact ⟨fun hf _ => hf, fun hf => hf h⟩
  · rw [if_neg h]
    exact ⟨b₁, rfl, iff_of_true (.of_eq hpedding hsame) fun hc => absurd hc h⟩

/-- The in-flight list without the entry that a packet acknowledges. -/
def unacknowledged (b : Broker σ) (this : SessionRef) (msg : ControlPacket) :
    List InflightingMsg :=
  if finishesFlow msg then
    (b.sessions this).inflightingList.eraseP (hasId b msg.messageID)
  else (b.sessions this).inflightingList

/-- Only tokens were written. -/
def TokensOnly (b b' : Broker σ) : Prop := b'.sessions = b.sessions ∧ b'.packets = b.packets

instance : Std.Refl (TokensOnly (σ := σ)) := ⟨fun _ => ⟨rfl, rfl⟩⟩

instance : IsTrans (Broker σ) TokensOnly :=
  ⟨fun _ _ _ h h' => ⟨h'.1.trans h.1, h'.2.trans h.2⟩⟩

theorem flowComplete_tokensOnly (t : TokenRef) :
    Respects TokensOnly (flowComplete t : GoM σ Unit) :=
  Respects.bind (Respects.gets _) fun _ =>
    Respects.ite (Respects.fault _) (Respects.modify fun _ => ⟨rfl, rfl⟩)

theorem subackResults_tokensOnly (msg : ControlPacket) (t : TokenRef) :
    Respects TokensOnly (subackResults msg t : GoM σ Unit) := by
  refine Respects.bind (Respects.gets _) fun tok => ?_
  split
  · split
    · exact Respects.fault _
    · exact Respects.modify fun _ => ⟨rfl, rfl⟩
  · exact Respects.fault _

theorem finishFlow_run (this : SessionRef) (msg : ControlPacket) (b : Broker σ) :
    TokensOnly (withoutInflight this msg.messageID b) (finishFlow this msg b).2 := by
  rw [finishFlow, bind_run_ok (removeInflightMsg_run this msg.messageID b)]
  cases (b.sessions this).inflightingList.find? (hasId b msg.messageID) with
  | none => exact ⟨rfl, rfl⟩
  | some imsg =>
    cases ht : imsg.pt.t with
    | none =>
      simp only [ht]
      exact ⟨rfl, rfl⟩
    | some t =>
      simp only [ht]
      split
      · exact Respects.bind (subackResults_tokensOnly msg t)
          (fun _ => flowComplete_tokensOnly t) _
      · exact flowComplete_tokensOnly t _

/-- The end of `onInflightDone`, after what was acknowledged has left the list. -/
theorem refill_refilled_iff {this : SessionRef} {l : List InflightingMsg} {b b₁ b' : Broker σ}
    (hs : b₁.sessions this = setInflight l (b.sessions this)) (hpackets : b₁.packets = b.packets)
    (h : (session this >>= fun s => if s.inflightingList.length < cfg.maxSizeOfInflight then
      takePedding cfg this else pure ()) b₁ = (.ok (), b')) :
    Refilled (l.map InflightingMsg.pt) (b.sessions this) (b'.sessions this) ↔
      (l.length < cfg.maxSizeOfInflight → EntersFirst b this) := by
  have hinflight : (b₁.sessions this).inflight = l.map InflightingMsg.pt := by
    rw [hs]
    rfl
  have hpedding : (b₁.sessions this).peddingMsgList = (b.sessions this).peddingMsgList := by
    rw [hs]
    rfl
  have hlength : (b₁.sessions this).inflightingList.length = l.length := by
    rw [hs]
    rfl
  rw [bind_run_ok (session_run this b₁), hlength] at h
  split at h
  · next hroom =>
    obtain ⟨b₂, htake, hiff⟩ := takePedding_refilled_iff cfg this b₁
    obtain rfl : b₂ = b' := congrArg Prod.snd (htake.symm.trans h)
    have hfirst : EntersFirst b₁ this ↔ EntersFirst b this := by
      rw [EntersFirst, EntersFirst, hpedding]
      simp only [Enters, hs, hpackets]
      exact Iff.rfl
    rw [← hinflight]
    rw [Refilled, hpedding] at hiff
    rw [hfirst] at hiff
    exact hiff.trans ⟨fun hf _ => hf, fun hf => hf hroom⟩
  · next hroom =>
    obtain ⟨-, rfl⟩ := pure_eq_ok h
    exact iff_of_true (.of_eq hpedding hinflight) fun hc => absurd hc hroom

theorem onInflightDone_refilled_iff {this : SessionRef} {msg : ControlPacket} {b b' : Broker σ}
    (h : onInflightDone cfg this msg b = (.ok (), b')) :
    Refilled ((unacknowledged b this msg).map InflightingMsg.pt) (b.sessions this)
        (b'.sessions this) ↔
      ((unacknowledged b this msg).length < cfg.maxSizeOfInflight → EntersFirst b this) := by
  unfold onInflightDone at h
  unfold unacknowledged
  split at h
  · next hfinishes =>
    rw [if_pos hfinishes]
    obtain ⟨u, b₁, hfinish, hrest⟩ := bind_eq_ok h
    have hrun := finishFlow_run this msg b
    rw [hfinish] at hrun
    refine refill_refilled_iff cfg ?_ hrun.2 hrest
    rw [hrun.1]
    exact setSession_self ..
  · next hfinishes =>
    rw [if_neg hfinishes]
    exact refill_refilled_iff cfg rfl rfl h

/-! ## All of it -/

/-- When `Publish` tells the truth, at once or after it has waited, and when a refill drops no
entry, in any state. -/
theorem publish_tells_truth_iff (this : SessionRef) (b : Broker σ) :
    (∀ msg, TellsTruth this msg b (publish cfg this msg b) ↔ FindsPlace cfg b this msg) ∧
    (∀ pt : PacketAndToken, TellsTruth this pt.p b (pushPedding cfg this pt b) ↔
      (b.sessions this).peddingChan.closed = false) ∧
    (∃ b', checkInflightList cfg this b = (.ok (), b') ∧
      (Refilled (b.sessions this).inflight (b.sessions this) (b'.sessions this) ↔
        (HasRoomAfterResend cfg b.now (b.sessions this) → EntersFirst b this))) ∧
    ∀ msg b', onInflightDone cfg this msg b = (.ok (), b') →
      (Refilled ((unacknowledged b this msg).map InflightingMsg.pt) (b.sessions this)
          (b'.sessions this) ↔
        ((unacknowledged b this msg).length < cfg.maxSizeOfInflight → EntersFirst b this)) :=
  ⟨fun msg => publish_tellsTruth_iff cfg this msg b,
    fun pt => pushPedding_tellsTruth_iff cfg this pt b,
    checkInflightList_refilled_iff cfg this b, fun _ _ h => onInflightDone_refilled_iff cfg h⟩

/-- A connected session with a window of one, in which one message is in flight and one is
pending. -/
def onePending : Broker MemStore :=
  { (Process.start {} MemStore.newStoreMgr fun _ => true).broker with
    packets := ⟨fun r => publishOf [] [] 1 (UInt16.ofNat (r + 1)), 2⟩
    tokens := ⟨fun _ => { kind := .publish }, 2⟩
    sessions := fun s =>
      { newSession {} 0 s true with
        connected := 1
        inflightingList := [{ pt := ⟨0, some 0⟩, timeout := 0 }]
        peddingMsgList := [⟨1, some 1⟩]
        peddingChan := { len := 1 } } }

/-- The PUBACK for the first makes room for the second. -/
theorem publish_tells_truth_iff_puback : ∃ b',
    onInflightDone { maxSizeOfInflight := 1 } 0 (.puback { newPuback with messageID := 1 })
      onePending = (.ok (), b') ∧
    Refilled [] (onePending.sessions 0) (b'.sessions 0) := by
  refine ⟨_, rfl, ?_⟩
  have hiff := (publish_tells_truth_iff { maxSizeOfInflight := 1 } 0 onePending).2.2.2
    (.puback { newPuback with messageID := 1 }) _ rfl
  exact hiff.mpr fun _ => by decide

/-- A server session handles a CONNECT, its CONNACK cannot be written, and then a packet is
made for a call of `Publish`. -/
def afterWriteError : List Action :=
  [.recvPacket 0 (inboundConnect (str "a")) RangeOrder.ascending, .sendRound 0 false,
    .clientPublish 0 (str "x") (str "m") 1 false]

/-- The call returned no error, and both lists are empty. -/
def dropped (this : SessionRef) :
    Except Fault (Option TokenRef × Option GoError) × Broker σ → Bool
  | (.ok (_, none), b') =>
    (b'.sessions this).inflight = [] ∧ (b'.sessions this).peddingMsgList = []
  | _ => false

theorem not_mem_of_dropped {this : SessionRef}
    {r : Except Fault (Option TokenRef × Option GoError) × Broker σ} (h : dropped this r = true) :
    ∃ t b', r = (.ok (t, none), b') ∧
      ∀ pt, pt ∉ (b'.sessions this).inflight ∧ pt ∉ (b'.sessions this).peddingMsgList := by
  obtain ⟨e | ⟨t, _ | err⟩, b'⟩ := r
  · exact absurd h Bool.false_ne_true
  · obtain ⟨hinflight, hpedding⟩ := of_decide_eq_true h
    refine ⟨t, b', rfl, fun pt => ?_⟩
    rw [hinflight, hpedding]
    exact ⟨List.not_mem_nil, List.not_mem_nil⟩
  · exact absurd h Bool.false_ne_true

/-- The call returns no error, and the message is in no list. -/
theorem publish_drops_silently : ¬ ∀ P : Process MemStore,
    (Process.system {} (MemStore.storeMgr default)).Reachable P →
    ∀ (this : SessionRef) (msg : PacketRef) (t : Option TokenRef) (b' : Broker MemStore),
      (P.broker.packets.cells msg).kind = PacketType.publish →
      publish {} this msg P.broker = (.ok (t, none), b') →
      ⟨msg, t⟩ ∈ (b'.sessions this).inflight ∨ ⟨msg, t⟩ ∈ (b'.sessions this).peddingMsgList := by
  have hend : ((Process.system {} (MemStore.storeMgr default)).exec afterWriteError
      (Process.start {} MemStore.newStoreMgr fun _ => true)).any (fun P =>
        (P.broker.packets.cells 2).kind = PacketType.publish ∧
          dropped 0 (publish {} 0 2 P.broker) = true) = true := by
    decide +kernel
  intro hall
  obtain ⟨P, hP, hc⟩ := StepSystem.exists_reachable_of_any
    (Process.start_initial {} MemStore.newStoreMgr fun _ => true) hend
  obtain ⟨hkind, hdropped⟩ := of_decide_eq_true hc
  obtain ⟨t, b', hrun, hnot⟩ := not_mem_of_dropped hdropped
  exact (hall P hP 0 2 t b' hkind hrun).elim (hnot _).1 (hnot _).2

end Session
end MqttBroker
