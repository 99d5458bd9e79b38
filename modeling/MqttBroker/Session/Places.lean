import MqttBroker.Session.Framing

/-!
# Places in the window and in the queue behind it

How many places of the window and of the queue behind it the entries of a session take. A place
of the window is counted only if `f` counts its entry: one with QoS 0 is gone as soon as its
packet is written. The functions of the sessions take no place of any session, whatever `f`
counts; a call of `Publish` or `Send` takes at most one, of its own session.
-/

namespace MqttBroker

open Broker GoM Exec

variable {σ : Type}

/-! ## Counting places -/

/-- The entries of the window that `f` counts, and what waits for a place there. -/
def Session.taken (f : PacketAndToken → Bool) (s : Session) : ℕ :=
  s.flight.countP f + max s.peddingMsgList.length s.peddingChan.len

/-- Between `b` and `b'`, no session outside `ex` took a place, whatever is counted. -/
def Drains (ex : SessionRef → Prop) (b b' : Broker σ) : Prop :=
  ∀ s, ¬ ex s → ∀ f, (b'.sessions s).taken f ≤ (b.sessions s).taken f

/-- No session took a place. -/
abbrev DrainsAll : Broker σ → Broker σ → Prop := Drains fun _ => False

/-- Between `b` and `b'`, at most one place was taken, by `this`. -/
def Feeds (this : SessionRef) (b b' : Broker σ) : Prop :=
  ∀ s f, (b'.sessions s).taken f ≤ (b.sessions s).taken f + if s = this then 1 else 0

section Session

variable (f : PacketAndToken → Bool) (s : Session)

theorem Session.taken_congr {s s' : Session} (h : s'.queues = s.queues) :
    s'.taken f = s.taken f := by
  simp only [Session.queues, Prod.mk.injEq] at h
  obtain ⟨hflight, hpedding, hchan⟩ := h
  rw [Session.taken, Session.taken, hflight, hpedding, hchan]

/-- What leaves the window gives its place back. -/
theorem Session.taken_setInflight_le {l : List InflightingMsg}
    (h : List.Sublist l s.inflightingList) : (setInflight l s).taken f ≤ s.taken f :=
  Nat.add_le_add_right (h.map InflightingMsg.pt).countP_le _

theorem Session.taken_queueInflight_le (imsg : InflightingMsg) :
    (queueInflight imsg s).taken f ≤ s.taken f + 1 := by
  have hone : [imsg.pt].countP f ≤ 1 := List.countP_le_length
  rw [Session.taken, flight_queueInflight, List.countP_append, Session.taken]
  show _ + max s.peddingMsgList.length s.peddingChan.len ≤ _
  omega

theorem Session.taken_queuePedding (pt : PacketAndToken) :
    (queuePedding pt s).taken f = s.taken f + 1 := by
  show s.flight.countP f + max (s.peddingMsgList ++ [pt]).length (s.peddingChan.len + 1) = _
  rw [List.length_append, List.length_singleton, Nat.add_max_add_right, Session.taken]
  rfl

/-- The entry in front gives its place in the queue back. -/
theorem Session.taken_dropPedding {pt : PacketAndToken} {rest : List PacketAndToken}
    (h : s.peddingMsgList = pt :: rest) : s.dropPedding.taken f + 1 ≤ s.taken f := by
  have hdrop : s.dropPedding.taken f =
      s.flight.countP f + max rest.length (s.peddingChan.len - 1) := by
    rw [Session.taken, dropPedding, h]
    rfl
  rw [hdrop, Session.taken, h, List.length_cons]
  omega

theorem Session.taken_dropPedding_le : s.dropPedding.taken f ≤ s.taken f := by
  cases h : s.peddingMsgList with
  | nil =>
    rw [Session.taken, Session.taken, dropPedding, h]
    exact Nat.add_le_add_left (max_le_max_left _ (Nat.sub_le _ _)) _
  | cons pt rest => exact le_trans (Nat.le_succ _) (Session.taken_dropPedding f s h)

end Session

namespace Drains

variable {ex : SessionRef → Prop}

theorem of_queues {b b' : Broker σ}
    (h : ∀ s, ¬ ex s → (b'.sessions s).queues = (b.sessions s).queues) : Drains ex b b' :=
  fun s hs f => (Session.taken_congr f (h s hs)).le

theorem of_sessions {b b' : Broker σ} (h : b'.sessions = b.sessions) : Drains ex b b' :=
  of_queues fun s _ => by rw [h]

instance : Std.Refl (Drains (σ := σ) ex) := ⟨fun _ => of_sessions rfl⟩

instance : IsTrans (Broker σ) (Drains ex) :=
  ⟨fun _ _ _ h h' s hs f => le_trans (h' s hs f) (h s hs f)⟩

theorem setSession {s : SessionRef} {f : Session → Session} {b : Broker σ}
    (h : ¬ ex s → ∀ p, (f (b.sessions s)).taken p ≤ (b.sessions s).taken p) :
    Drains ex b (b.setSession s f) := by
  intro s' hs' p
  by_cases hs : s' = s
  · subst hs
    rw [setSession_self]
    exact h hs' p
  · rw [setSession_of_ne f b hs]

theorem setSession_eq {s : SessionRef} {f : Session → Session} {b : Broker σ}
    (h : (f (b.sessions s)).queues = (b.sessions s).queues) : Drains ex b (b.setSession s f) :=
  setSession fun _ p => (Session.taken_congr p h).le

/-- All functions but those that enter entries or relabel them. -/
theorem framing : Framing (Drains (σ := σ) ex) where
  rest _ _ hsessions _ _ _ := of_sessions hsessions
  alloc _ _ := of_sessions rfl
  packet _ _ _ _ := of_sessions rfl
  allocToken _ _ := of_sessions rfl
  token _ _ _ _ _ := of_sessions rfl
  field _ _ _ _ hsettled _ := setSession_eq (congrArg Prod.snd (hsettled _))
  ending _ _ _ _ hsettled _ := setSession_eq (congrArg Prod.snd (hsettled _))

/-- A session of another. -/
theorem of_ex {s : SessionRef} (hs : ex s) (f : Session → Session) (b : Broker σ) :
    Drains ex b (b.setSession s f) :=
  setSession fun h => absurd hs h

theorem acknowledging {s : SessionRef} (hs : ex s) : Acknowledging s (Drains (σ := σ) ex) where
  inflight b _ := of_ex hs _ b
  results _ _ _ _ := of_sessions rfl

end Drains

namespace Feeds

variable {this : SessionRef}

theorem of_drains (this : SessionRef) {b b' : Broker σ} (h : DrainsAll b b') : Feeds this b b' :=
  fun s f => le_trans (h s not_false f) (Nat.le_add_right _ _)

instance : Trans (DrainsAll (σ := σ)) (Feeds this) (Feeds this) :=
  ⟨fun h h' s f => le_trans (h' s f) (Nat.add_le_add_right (h s not_false f) _)⟩

instance : Trans (Feeds (σ := σ) this) DrainsAll (Feeds this) :=
  ⟨fun h h' s f => le_trans (h' s not_false f) (h s f)⟩

theorem setSession {f : Session → Session} {b : Broker σ}
    (h : ∀ p, (f (b.sessions this)).taken p ≤ (b.sessions this).taken p + 1) :
    Feeds this b (b.setSession this f) := by
  intro s p
  by_cases hs : s = this
  · rw [hs, setSession_self, if_pos rfl]
    exact h p
  · rw [setSession_of_ne f b hs]
    exact Nat.le_add_right _ _

/-- A block that takes a place only in its second part. -/
theorem bind {α β : Type} {m : GoM σ α} {k : α → GoM σ β} (hm : Respects DrainsAll m)
    (hk : ∀ a, Respects (Feeds this) (k a)) : Respects (Feeds this) (m >>= k) :=
  Respects.bind_of_left (fun _ _ => of_drains this) hm hk

theorem pure {α : Type} (a : α) : Respects (Feeds this) (Pure.pure a : GoM σ α) :=
  fun b => of_drains this (refl_of DrainsAll b)

end Feeds

/-! ## Functions that enter entries -/

namespace Session

variable (cfg : Config) {this : SessionRef}

theorem pushInflight_feeds (pt : PacketAndToken) :
    Respects (Feeds this) (pushInflight cfg this pt : GoM σ Unit) :=
  fun b => Feeds.setSession (f := queueInflight { pt, timeout := b.now + cfg.sentTimeout })
    fun p => taken_queueInflight_le p _ _

theorem insert2Inflight_feeds (pt : PacketAndToken) :
    Respects (Feeds this) (insert2Inflight cfg this pt : GoM σ (Option GoError)) := by
  have hsend : Respects DrainsAll (Channel.send this pt.p >>= fun _ => pure none :
      GoM σ (Option GoError)) :=
    Respects.bind (Channel.send_respects Drains.framing this pt.p) fun _ => Respects.pure _
  refine Feeds.bind (Respects.gets _) fun s => Respects.ite (Feeds.pure _) ?_
  refine Feeds.bind (Respects.gets _) fun p => Respects.ite ?_ fun b => .of_drains this (hsend b)
  exact Respects.bind_of_right (pushInflight_feeds cfg pt) fun _ => hsend

theorem pushPedding_feeds (pt : PacketAndToken) : Respects (Feeds this)
    (pushPedding cfg this pt : GoM σ (Option TokenRef × Option GoError)) := by
  refine Feeds.bind (Respects.gets _) fun s => Respects.ite (Feeds.pure _) ?_
  refine Respects.ite ?_ fun b => .of_drains this (refl_of DrainsAll b)
  have hpush : Respects (Feeds this) (modifySession this (queuePedding pt) : GoM σ Unit) :=
    Respects.modify fun b => Feeds.setSession fun p => (taken_queuePedding p _ _).le
  exact Respects.bind_of_right (R := DrainsAll) hpush fun _ => Respects.pure _

theorem enqueue_feeds (pt : PacketAndToken) : Respects (Feeds this)
    (enqueue cfg this pt : GoM σ (Option TokenRef × Option GoError)) := by
  refine Feeds.bind (Respects.gets _) fun s => Respects.ite (Feeds.pure _) ?_
  refine Respects.ite ?_ (pushPedding_feeds cfg pt)
  exact Respects.bind_of_right (R := DrainsAll) (insert2Inflight_feeds cfg pt)
    fun _ => Respects.pure _

/-- `Send` of a SUBSCRIBE writes its token, and no entry. -/
theorem sendCase_drains (msg : PacketRef) (p : ControlPacket) (t : Option TokenRef)
    (kind : Option TokenKind) :
    Respects DrainsAll (sendCase this msg p t kind : GoM σ Bool) := by
  by_cases hp : ∃ m, p = .subscribe m
  · obtain ⟨m, rfl⟩ := hp
    rcases t with _ | t
    · exact Respects.fault _
    rcases kind with _ | kind
    · exact Respects.fault _
    cases kind with
    | subscribe subs subResult =>
      refine Respects.bind (Respects.modify fun b => Drains.of_sessions rfl) fun _ => ?_
      exact Respects.bind (number_respects Drains.framing this msg) fun _ => Respects.pure _
    | _ => exact Respects.fault _
  · exact sendCase_respects Drains.framing this msg (fun m hm => hp ⟨m, hm⟩) t kind

theorem send_feeds (msg : PacketRef) :
    Respects (Feeds this) (send cfg this msg : GoM σ (Option TokenRef × Option GoError)) := by
  have hlast : ∀ t, Respects DrainsAll (Channel.send this msg >>= fun err => pure (t, err) :
      GoM σ (Option TokenRef × Option GoError)) := fun t =>
    Respects.bind (Channel.send_respects Drains.framing this msg) fun _ => Respects.pure _
  refine Feeds.bind (Respects.gets _) fun s => Respects.ite (Feeds.pure _) ?_
  refine Feeds.bind (Respects.gets _) fun p => ?_
  refine Feeds.bind (allocToken_respects Drains.framing _) fun t => ?_
  refine Feeds.bind (sendCase_drains msg p t _) fun waits => ?_
  exact Respects.ite (Respects.bind_of_right (pushInflight_feeds cfg _) fun _ => hlast t)
    fun b => .of_drains this (hlast t b)

theorem publish_feeds (msg : PacketRef) :
    Respects (Feeds this) (publish cfg this msg : GoM σ (Option TokenRef × Option GoError)) := by
  refine Feeds.bind (number_respects Drains.framing this msg) fun _ => ?_
  refine Feeds.bind (Respects.gets _) fun p => ?_
  refine Feeds.bind (allocToken_respects Drains.framing _) fun t => ?_
  refine Feeds.bind (Respects.modify fun b => .of_sessions rfl) fun _ => ?_
  exact enqueue_feeds cfg _

/-! ## Functions that move entries -/

/-- An entry that is moved takes the place of another. -/
theorem takePedding_drains {ex : SessionRef → Prop} :
    Respects (Drains ex) (takePedding cfg this : GoM σ Unit) := by
  intro b
  have hdrop : Drains ex b (b.setSession this dropPedding) :=
    .setSession fun _ f => taken_dropPedding_le f _
  rw [takePedding, bind_run_ok (by rfl : popPedding this b =
    (.ok (GoList.pop (b.sessions this).peddingMsgList).1, b.setSession this dropPedding))]
  cases hpedding : (b.sessions this).peddingMsgList with
  | nil => exact hdrop
  | cons pt rest =>
    -- the place that `insert2Inflight` takes is the one that `popPedding` gave back
    show Drains ex b ((insert2Inflight cfg this pt >>= fun _ => pure () : GoM σ Unit)
      (b.setSession this dropPedding)).2
    rw [bind_pure_snd]
    intro s hs f
    refine le_trans (insert2Inflight_feeds cfg pt (b.setSession this dropPedding) s f) ?_
    by_cases hthis : s = this
    · rw [hthis, setSession_self, if_pos rfl]
      exact taken_dropPedding f _ hpedding
    · rw [if_neg hthis]
      exact hdrop s hs f

theorem finishing_drains {ex : SessionRef → Prop} (this : SessionRef) :
    Finishing this (Drains (σ := σ) ex) where
  remove msgId b := by
    rw [removeInflightMsg_run]
    exact .setSession fun _ f => taken_setInflight_le f _ (List.eraseP_sublist ..)
  take cfg := takePedding_drains cfg
  results _ _ _ _ := .of_sessions rfl

end Session

/-! ## Steps of goroutines -/

section Goroutines

variable {cfg : Config} {S : StoreMgr σ}

/-- The session whose lists the next step of a goroutine may enter something into. -/
def Goroutine.enters (cfg : Config) (b : Broker σ) (g : Goroutine) : Option SessionRef :=
  match g.waiting, g.work with
  | some (s, _), _ => some s
  | none, w :: _ => (w.call cfg b).map Prod.fst
  | none, [] => none

theorem Work.round_drains {w : Work} {b : Broker σ} (h : w.call cfg b = none) :
    ∃ go b', w.round cfg S b = (.ok go, b') ∧ DrainsAll b b' := by
  obtain ⟨go, b', hround, -⟩ := Work.round_of_call_none (S := S) h
  refine ⟨go, b', hround, ?_⟩
  rcases Work.round_skips (S := S) h with ⟨this, reason, msg, rfl⟩ | ⟨go', hskip⟩
  · have hend : Respects DrainsAll (Work.round cfg S (.willEnd this reason msg)) :=
      Respects.bind (willEnd_respects Drains.framing S this reason msg) fun _ => Respects.pure true
    have hdrains := hend b
    rwa [hround] at hdrains
  · obtain rfl : b = b' := congrArg Prod.snd (hskip.symm.trans hround)
    exact refl_of DrainsAll b

/-- A call of `Publish` that has to wait has entered nothing. -/
theorem Session.publish_blocked {this : SessionRef} {msg : PacketRef} {b b' : Broker σ} {e : Fault}
    (h : publish cfg this msg b = (.error e, b')) :
    (∃ pt, e = .blocked this pt) ∧ DrainsAll b b' := by
  obtain ⟨t, b₁, hpub, hrun⟩ := publish_run cfg this msg b
  rw [hrun] at h
  obtain ⟨rfl, rfl⟩ := enqueue_error cfg h
  have hnumbered : DrainsAll b (b.setSession this advanceMsgId) :=
    .setSession_eq (f := advanceMsgId) rfl
  refine ⟨⟨⟨msg, t⟩, rfl⟩, fun s hs f => ?_⟩
  rw [hpub.sessions]
  exact hnumbered s hs f

/-- A round that calls `Publish`, and what it is blocked in when it has to wait. -/
theorem Work.round_feeds {w : Work} {s : SessionRef} {msg : PacketRef} {b : Broker σ}
    (hb : b.InRange) (hvalid : w.Valid b) (h : w.call cfg b = some (s, msg)) :
    match w.round cfg S b with
    | (.ok _, b') => Feeds s b b'
    | (.error e, b') => (∃ pt, e = .blocked s pt) ∧ DrainsAll b b' := by
  obtain ⟨b₁, hcalls⟩ := Work.round_of_call (S := S) hb hvalid h
  obtain ⟨k, hrun⟩ := hcalls.run
  have hbefore : DrainsAll b b₁ := .of_sessions hcalls.sessions
  have hfeeds : Feeds s b₁ (Session.publish cfg s msg b₁).2 := Session.publish_feeds cfg msg b₁
  rw [hrun, bind_run]
  rcases hp : Session.publish cfg s msg b₁ with ⟨e | r, b₂⟩
  · obtain ⟨hblocked, hdrains⟩ := Session.publish_blocked hp
    exact ⟨hblocked, trans_of DrainsAll hbefore hdrains⟩
  · rw [hp] at hfeeds
    have hround : Feeds s b b₂ := Trans.trans hbefore hfeeds
    exact hround

namespace Process

variable {P P' : Process σ} {a : Action}

/-- A step of a goroutine enters at most one entry, and none when it comes to wait. -/
theorem advance_places {g : Goroutine} {b b' : Broker σ} {g' : Option Goroutine} (hb : b.InRange)
    (hvalid : ∀ w ∈ g.work, w.Valid b) (h : advance cfg S g b = some (g', b')) :
    DrainsAll b b' ∨
      ∃ s, g.enters cfg b = some s ∧ (∀ x ∈ g', x.waiting = none) ∧ Feeds s b b' := by
  obtain ⟨owner, waiting, work⟩ := g
  cases waiting with
  | some held =>
    -- the goroutine was blocked in `pushPedding` and tries it once more
    obtain ⟨s, pt⟩ := held
    have hfeeds : Feeds s b (Session.pushPedding cfg s pt b).2 :=
      Session.pushPedding_feeds cfg pt b
    rcases hr : Session.pushPedding cfg s pt b with ⟨e | r, b₁⟩
    · simp [advance, hr] at h
    · obtain ⟨rfl, rfl⟩ : _ = g' ∧ b₁ = b' := by simpa [advance, hr] using h
      rw [hr] at hfeeds
      refine .inr ⟨s, rfl, fun x hx => ?_, hfeeds⟩
      rw [← Option.some.inj hx]
  | none =>
    cases work with
    | nil =>
      obtain ⟨rfl, rfl⟩ : none = g' ∧ b = b' := by simpa [advance] using h
      exact .inl (refl_of DrainsAll b)
    | cons w ws =>
      cases hcall : w.call cfg b with
      | none =>
        obtain ⟨go, b₁, hround, hdrains⟩ := Work.round_drains (S := S) hcall
        cases go with
        | true | false =>
          obtain ⟨-, rfl⟩ : _ = g' ∧ b₁ = b' := by simpa [advance, hround] using h
          exact .inl hdrains
      | some c =>
        obtain ⟨s, msg⟩ := c
        have hround := Work.round_feeds (S := S) hb (hvalid w List.mem_cons_self) hcall
        have henters : Goroutine.enters cfg b ⟨owner, none, w :: ws⟩ = some s :=
          congrArg (Option.map Prod.fst) hcall
        rcases hr : w.round cfg S b with ⟨e | go, b₁⟩
        · -- the call has to wait, before it has entered anything
          rw [hr] at hround
          obtain ⟨⟨pt, rfl⟩, hdrains⟩ := hround
          obtain ⟨-, rfl⟩ : _ = g' ∧ b₁ = b' := by simpa [advance, hr] using h
          exact .inl hdrains
        · rw [hr] at hround
          cases go with
          | true | false =>
            obtain ⟨rfl, rfl⟩ : _ = g' ∧ b₁ = b' := by simpa [advance, hr] using h
            refine .inr ⟨s, henters, fun x hx => ?_, hround⟩
            rw [← Option.some.inj hx]

/-- The other steps take no place, but for an acknowledgement that a session reads. -/
theorem step_drains (ha : ¬ a.publishes) (h : (system cfg S).step a P = some P') :
    Drains (fun s => ∃ p order, a = .recvPacket s p order ∧ p.1.acknowledges) P.broker P'.broker :=
  step_respects_of_not_publishes Drains.framing ha
    (fun _ _ _ _ hf => .setSession_eq (congrArg Prod.snd (hf _)))
    (fun _ m _ _ => .setSession_eq (Session.setWill_queues m _))
    (fun _ p order hp hacks => Drains.acknowledging ⟨p, order, hp, hacks⟩)
    (fun s _ => Session.finishing_drains s) (fun _ _ => Session.takePedding_drains cfg)
    (fun _ _ _ => .of_sessions rfl) h

theorem step_send_feeds {s : SessionRef} {p : Outbound}
    (h : (system cfg S).step (.send s p) P = some P') : Feeds s P.broker P'.broker := by
  refine run_respects (Feeds.bind (Respects.modifyGet fun b => ?_) fun msg => ?_) h
  · exact Drains.of_sessions rfl
  · exact Session.send_feeds cfg msg

end Process

end Goroutines

end MqttBroker
