import MqttBroker.Solo.Alone
import MqttBroker.Solo.Typed

/-!
# The send window

`Publish`, the tick and the handlers of acknowledgements test the length of `inflightingList`
in one critical section and push to it in another. An operation between the two reserves a
place that the list does not show. The window holds as long as every test that finds room
finds it with the reserved places counted as well; two tests that both see the last free
place break it.
-/

namespace MqttBroker.Solo

variable {cfg : Config} {f : Flags} {x x' : Outbox}

/-- An operation after a test of the window that found room, up to the push. -/
def MsgOp.reserves : MsgOp → Bool
  | sendLen _ | refillSendLen | recvPeddingChan | popPedding | insert2Inflight _
  | newInflight _ | pushInflight _ => true
  | _ => false

def Op.reserves : Op → Bool
  | .msg o => o.reserves
  | .stop _ => false

/-- The entries in flight and the places that are reserved. -/
def occupied (s : Solo) : ℕ :=
  s.outbox.inflightingList.length + s.goroutines.ops.countP Op.reserves

/-- A test of the window. -/
def MsgOp.tests : MsgOp → Bool
  | inflightLen _ | refillLen _ => true
  | _ => false

/-- The types that `Send` or `insert2Inflight` put in flight. -/
abbrev awaited : List UInt8 :=
  [PacketType.publish, PacketType.pubrec, PacketType.pubrel, PacketType.subscribe,
    PacketType.unsubscribe]

/-- The entries of the window: PUBLISH and PUBREL. -/
def Outbox.window (x : Outbox) : ℕ :=
  x.inflightingList.countP fun e =>
    (x.packet (x.entry e).p).kind ∈ [PacketType.publish, PacketType.pubrel]

/-- Entries are put in flight by `Publish` only, and a test that finds room finds it with the
reserved places counted. -/
def WindowKept (cfg : Config) (s : Solo) (t : Solo.Turn) : Prop :=
  (∀ p ∈ t.sent, p.1.kind ∉ awaited) ∧
    ∀ o ∈ t.msgOp s, o.tests = true →
      s.outbox.inflightingList.length < cfg.maxSizeOfInflight →
      occupied s < cfg.maxSizeOfInflight

instance (s : Solo) (t : Solo.Turn) : Decidable (WindowKept cfg s t) :=
  inferInstanceAs (Decidable (_ ∧ _))

/-! ## One operation -/

/-- Entries that wait for something belong to calls of `Publish`. -/
def Outbox.OnlyPublished (x : Outbox) : Prop :=
  ∀ e < x.entries.next, (x.entry e).published = true ∨
    (x.packet (x.entry e).msg).kind ∉ awaited

theorem Grows.onlyPublished (h : Grows x x') (hx : x.Heaps)
    (hnext : x'.entries.next = x.entries.next) (ho : x.OnlyPublished) : x'.OnlyPublished := by
  intro e he
  rw [hnext] at he
  rw [(h.entry e he).2.1, h.kind_msg hx he]
  exact ho e he

theorem Outbox.OnlyPublished.published {e : EntryRef} (h : x.OnlyPublished)
    (he : x.Tracked e) : (x.entry e).published = true := by
  refine (h e he.1).resolve_right fun hk => hk ?_
  have hsub : [PacketType.publish, PacketType.subscribe, PacketType.unsubscribe] ⊆ awaited := by
    decide
  exact hsub he.2

/-- `Send` has nothing to put in flight here. -/
theorem sendCase_reserves {e : EntryRef} {r : PacketRef} {p : ControlPacket}
    (hp : p.kind ∉ awaited) : (sendCase e r p).countP MsgOp.reserves = 0 := by
  cases p with
  | publish m | subscribe m | unsubscribe m | pubrec m | pubrel m =>
    exact absurd (by rw [ControlPacket.kind]; decide) hp
  | _ => rfl

/-- An operation reserves a place only by a test of the window that finds room. -/
theorem MsgOp.Ran.reserves {o : MsgOp} {new : List MsgOp} (h : Ran cfg f x o new x')
    (ho : o.Typed x) (hown : x.OnlyPublished) :
    new.countP MsgOp.reserves + x'.inflightingList.length ≤
        [o].countP MsgOp.reserves + x.inflightingList.length ∨
      o.tests = true ∧ x.inflightingList.length < cfg.maxSizeOfInflight ∧
        new.countP MsgOp.reserves + x'.inflightingList.length ≤ x.inflightingList.length + 1 := by
  cases h with
  | windowOpen e hlt => exact .inr ⟨rfl, hlt, le_of_eq (Nat.add_comm ..)⟩
  | tickWindowOpen hlt | doneWindowOpen hlt => exact .inr ⟨rfl, hlt, le_of_eq (Nat.add_comm ..)⟩
  | @numberSend e id hpub =>
    -- only `Publish` numbers entries here
    exact absurd (hown.published ho) (by rw [hpub]; exact Bool.false_ne_true)
  | send e hs =>
    obtain ⟨_, _, hinflight, _⟩ := assignToken_fields e (x.packet (x.entry e).msg) x
    have hk := (hown e ho.1).resolve_left (by rw [ho.2]; exact Bool.false_ne_true)
    rw [sendCase_reserves hk, hinflight]
    exact .inl (le_refl _)
  | refused c _ =>
    rw [countP_eq_zero_of_false (q := MsgOp.reserves) fun o ho' => by rw [mem_rest ho']; rfl]
    exact .inl (Nat.add_le_add_right (Nat.zero_le _) _)
  | channelStoped c r _ | pushSend c r =>
    rw [countP_eq_zero_of_false (q := MsgOp.reserves) fun o ho' => ?_]
    · exact .inl (le_refl _)
    · obtain ⟨k, -, rfl⟩ := mem_rest_of_mem_elim ho'
      rfl
  | pushInflight c =>
    have hafter : [c.afterPush x].countP MsgOp.reserves = 0 := by
      cases c with
      | _ => rfl
    have hlen : (GoList.push c.entry x.inflightingList).length = x.inflightingList.length + 1 :=
      List.length_append
    rw [hafter]
    exact .inl (by show 0 + (GoList.push _ _).length ≤ 1 + _; omega)
  | collect now =>
    rw [countP_eq_zero_of_false (q := MsgOp.reserves) fun o ho' => ?_]
    · exact .inl (le_refl _)
    · obtain ⟨e, -, rfl⟩ := List.mem_map.mp ho'
      rfl
  | @removeInflight e r id _ =>
    have hlen : (x.removeInflight id).inflightingList.length ≤ x.inflightingList.length :=
      List.length_eraseP_le
    rw [countP_eq_zero_of_false (q := MsgOp.reserves) fun o ho' => ?_]
    · exact .inl (Nat.add_le_add_left hlen 0)
    · rcases mem_afterRemove ho' with rfl | rfl <;> rfl
  | updateInflight r =>
    obtain ⟨_, hinflight, _⟩ := updateInflight_lists r x
    rw [hinflight]
    exact .inl (le_refl _)
  | @writedQos0 r _ _ =>
    rw [countP_eq_zero_of_false (q := MsgOp.reserves) fun o ho' => ?_]
    · exact .inl (le_refl _)
    · rcases mem_onInflightDone ho' with rfl | rfl <;> rfl
  | completeConnect | completeDisconnect =>
    rw [countP_eq_zero_of_false (q := MsgOp.reserves) fun o ho' => ?_]
    · exact .inl (le_refl _)
    · obtain ⟨e, -, rfl⟩ := mem_handshake ho'
      rfl
  | _ => exact .inl (Nat.add_le_add_right (Nat.le_of_ble_eq_true rfl) _)

/-! ## Runs -/

theorem newEntry_onlyPublished {r : PacketRef} {published : Bool} (h : x.OnlyPublished)
    (hnew : published = true ∨ (x.packet r).kind ∉ awaited) :
    (x.newEntry r published).OnlyPublished := by
  intro e he
  by_cases hlt : e < x.entries.next
  · rw [show (x.newEntry r published).entry e = x.entry e from Heap.alloc_of_lt _ hlt]
    exact h e hlt
  · obtain rfl : e = x.entries.next := Nat.le_antisymm (Nat.le_of_lt_succ he) (Nat.not_lt.mp hlt)
    rw [show (x.newEntry r published).entry x.entries.next =
      { p := r, t := newToken (x.packet r).type, msg := r, published } from Heap.alloc_self ..]
    exact hnew

theorem Exchange.onlyPublished {s : Solo} {t : Solo.Turn} {old new : List Op} {f' : Flags}
    (h : Exchange cfg s t old new x' f') (hs : Typed s) (hok : WindowKept cfg s t)
    (hown : s.outbox.OnlyPublished) : x'.OnlyPublished := by
  cases h with
  | msg _ hran => exact hran.grows.onlyPublished hs.heaps hran.entries_next hown
  | publish _ _ => exact newEntry_onlyPublished hown (.inl rfl)
  | send p =>
    have hg := Grows.newPacket p.1 s.outbox
    refine newEntry_onlyPublished (hg.onlyPublished hs.heaps rfl hown) (.inr ?_)
    rw [show (s.outbox.newPacket p.1).packet s.outbox.packets.next = p.1 from Heap.alloc_self ..]
    exact hok.1 p rfl
  | newPacket p | recvPacket p _ =>
    exact (Grows.newPacket p.1 s.outbox).onlyPublished hs.heaps rfl hown
  | @renumber r id _ => exact (Grows.modifyPacket r id s.outbox).onlyPublished hs.heaps rfl hown
  | _ => exact hown

theorem Begins.reserves_eq_zero {P : PacketRef → Prop} {l : List Op} (h : Begins P l) :
    l.countP Op.reserves = 0 :=
  h.countP_eq_zero (fun o ho => by cases ho with | _ => rfl) fun _ => rfl

/-- A turn that keeps to the window. -/
theorem occupied_step {s s' : Solo} {t : Solo.Turn} (hs : Typed s)
    (hown : s.outbox.OnlyPublished) (hok : WindowKept cfg s t)
    (h : Solo.step cfg t s = some s') (hocc : occupied s ≤ cfg.maxSizeOfInflight) :
    occupied s' ≤ cfg.maxSizeOfInflight := by
  obtain ⟨old, new, hx, hex⟩ := exchange_of_step h
  have hold : ∀ o ∈ old, o.Typed s.outbox := fun o ho => hs.ops o (hex.mem_old ho)
  have hcount := hex.countP_eq Op.reserves
  -- either nothing more is occupied, or a test has found room
  suffices hnew : new.countP Op.reserves + s'.outbox.inflightingList.length ≤
        old.countP Op.reserves + s.outbox.inflightingList.length ∨
      occupied s < cfg.maxSizeOfInflight ∧
        new.countP Op.reserves + s'.outbox.inflightingList.length ≤
          s.outbox.inflightingList.length + 1 by
    unfold occupied at *
    omega
  generalize hx' : s'.outbox = x' at hx ⊢
  generalize hf' : s'.flags = f' at hx
  cases hx with
  | @msg i o new _ hnext hran =>
    have hmap : (new.map Op.msg).countP Op.reserves = new.countP MsgOp.reserves := by
      rw [List.countP_map]
      rfl
    rw [hmap]
    rcases hran.reserves (hold _ List.mem_cons_self) hown with hle | ⟨htests, hlt, hle⟩
    · exact .inl hle
    · exact .inr ⟨hok.2 o (Solo.Turn.msgOp_run hnext) htests hlt, hle⟩
  | stop _ hrun =>
    rw [(Begins.of_run hrun).reserves_eq_zero]
    exact .inl (Nat.add_le_add_right (Nat.zero_le _) _)
  | round t new hnew =>
    have hbegins : Begins (fun _ => False) (new.map .stop) := .round hnew
    rw [hbegins.reserves_eq_zero]
    exact .inl (Nat.add_le_add_right (Nat.zero_le _) _)
  | _ => exact .inl (le_refl _)

/-- In a run whose tests of the window count the reserved places, the window is never
exceeded. -/
theorem window_kept {s : Solo} (h : (Solo.system cfg).Reach (WindowKept cfg) s) :
    s.outbox.window ≤ cfg.maxSizeOfInflight := by
  have hinv : Typed s ∧ s.outbox.OnlyPublished ∧ occupied s ≤ cfg.maxSizeOfInflight := by
    refine h.invariant (I := fun s => Typed s ∧ s.outbox.OnlyPublished ∧
      occupied s ≤ cfg.maxSizeOfInflight) ?_ ?_
    · rintro s ⟨isServer, now, rfl⟩
      exact ⟨typed_initial isServer now, fun e he => absurd he (Nat.not_lt_zero e),
        Nat.zero_le _⟩
    · intro s t s' ⟨hs, hown, hocc⟩ hok hstep
      obtain ⟨old, new, hx, -⟩ := exchange_of_step hstep
      exact ⟨typed_step hs hstep, hx.onlyPublished hs hok hown,
        occupied_step hs hown hok hstep hocc⟩
  calc s.outbox.window ≤ s.outbox.inflightingList.length := List.countP_le_length
    _ ≤ occupied s := Nat.le_add_right _ _
    _ ≤ cfg.maxSizeOfInflight := hinv.2.2

/-- Two calls of `Publish` after a CONNECT, one after the other. -/
def twoCalls : List Solo.Turn :=
  Solo.connecting ++ [.newPacket (Solo.outboundPublish 1), .publish 2] ++ Solo.runs 4 13 ++
    [.publish 2] ++ Solo.runs 5 13

theorem window_kept_two : ∃ s, (Solo.system {}).Reach (WindowKept {}) s ∧
    s.outbox.window = 2 ∧ s.outbox.window ≤ 100 := by
  have hok : (Solo.system {}).checkAll (fun s t => decide (WindowKept {} s t)) twoCalls
      (Solo.initial true 0) = true := by
    decide
  have hend : ((Solo.system {}).exec twoCalls (Solo.initial true 0)).any
      (fun s => s.outbox.window = 2) = true := by
    decide
  obtain ⟨s, hs, hc⟩ := StepSystem.exists_reach_of_any (Solo.initial_init {} true 0)
    (StepSystem.along_of_check (fun _ _ h => of_decide_eq_true h) hok) hend
  exact ⟨s, hs, of_decide_eq_true hc, window_kept hs⟩

/-- After a CONNECT, `n` calls of `Publish` on packet 2 find room before any of them pushes
its entry. -/
def concurrentCalls (n : ℕ) : List Solo.Turn :=
  Solo.connecting ++ [.newPacket (Solo.outboundPublish 1)] ++
    (List.range n).flatMap (fun k => .publish 2 :: Solo.runs (4 + k) 6) ++
    (List.range n).flatMap fun k => Solo.runs (4 + k) 3

/-- The stretches of `concurrentCalls`. -/
def concurrentStretches (n : ℕ) : List Stretch :=
  Solo.connectingStretches ++ [.turn (.newPacket (Solo.outboundPublish 1))] ++
    (List.range n).flatMap (fun k => [.turn (.publish 2), .runs (4 + k) 6]) ++
    (List.range n).flatMap fun k => [.runs (4 + k) 3]

theorem concurrentCalls_eq (n : ℕ) :
    concurrentCalls n = (concurrentStretches n).flatMap Stretch.turns := by
  rw [concurrentCalls, Solo.connecting_eq, concurrentStretches, List.flatMap_append,
    List.flatMap_append, List.flatMap_append, List.flatMap_assoc, List.flatMap_assoc]
  simp only [List.flatMap_cons, List.flatMap_nil, Stretch.turns, List.append_nil,
    List.cons_append, List.nil_append]

/-- 101 concurrent calls of `Publish` exceed the window of 100, without a call of `Send`. -/
theorem window_exceeded : ¬ ∀ s, (Solo.system {}).Reach (fun _ t => t.sent = none) s →
    s.outbox.window ≤ 100 := by
  have hsent : ((concurrentCalls 101).all fun t => t.sent.isNone) = true := by decide +kernel
  have hend : ((Solo.system {}).exec (concurrentCalls 101) (Solo.initial true 0)).any
      (fun s => s.outbox.window = 101) = true := by
    refine any_of_stretches (l := concurrentStretches 101) ?_ (concurrentCalls_eq 101)
    decide +kernel
  obtain ⟨s, hs, hc⟩ := StepSystem.exists_reach_of_any (Solo.initial_init {} true 0)
    (StepSystem.along_of_forall (fun t ht _ =>
      Option.isNone_iff_eq_none.mp (List.all_eq_true.mp hsent t ht)) _) hend
  intro hall
  have := hall s hs
  rw [of_decide_eq_true hc] at this
  exact absurd this (by decide)

end MqttBroker.Solo
