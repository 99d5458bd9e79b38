import MqttBroker.Ticker.SecondTicker

/-!
# Runs in which the timer service is reliable

The loop fails when a signal outlives the element that it was for, and it discards an arming when
another timer is armed for the same time. Both are decided before the loop comes there: when a
`Pop` signals for an element whose `Push` will signal too, and when a `Reset` reads the clock. Where
neither happens, both lists have an element for every signal, and armings under one id are of one
timer; with cancels that are not taken before their armings, nothing that was cancelled ticks.
-/

namespace MqttBroker
namespace Ticker

variable {V : Type}

/-! ## Orderly steps -/

namespace Caller

/-- The call is between its append to `afterList` and the signal for it. -/
def signalsAfter : Caller V → Bool
  | arming g _ => g.appended
  | _ => false

/-- The call is between its append to `cancelList` and the signal for it. -/
def signalsCancel : Caller V → Bool
  | cancelling g _ _ => g.appended
  | _ => false

/-- The arming that the call has still to append. -/
def carried : Caller V → Option TickData
  | arming g _ => g.carried
  | _ => none

end Caller

/-- The armings on their way to the map. -/
def Service.underway (s : Service V) : List TickData :=
  s.callers.filterMap Caller.carried ++ (s.run.inHand.toList ++ s.afterList.l)

/-- A `Pop` of the loop signals for the elements that are left only when fewer `Push`es than
elements have yet to signal; a cancel finds none of the armings that it is to cancel in the list of
the armings, nor under another id in the map; and a `Reset` arms its timer for a time for which no
other timer is armed. -/
def Orderly (s : Service V) : Turn V → Prop
  | .run =>
    match s.run with
    | .takingAfter (.removed _ _) => s.afterList.Spare (s.callers.countP Caller.signalsAfter)
    | .takingCancel (.removed _ _) => s.cancelList.Spare (s.callers.countP Caller.signalsCancel)
    | .takingCancel (.returned (some c)) => ∀ n ∈ c.cancels,
      (∀ data ∈ s.afterList.l, data.serial ≠ n) ∧
      ∀ e ∈ s.secondsTickMap.entries, e.2.serial = n → e.1 = c.id
    | _ => True
  | .caller i =>
    match s.callers[i]? with
    | some (.after t duration) =>
      (∀ data ∈ s.underway, data.id = s.clock + duration → data.ticker = t) ∧
      ∀ data ∈ s.secondsTickMap.lookup (s.clock + duration), data.ticker = t
    | _ => True
  | _ => True

instance (s : Service V) (t : Turn V) : Decidable (Orderly s t) := by
  unfold Orderly
  split
  · split
    · infer_instance
    · infer_instance
    · infer_instance
    · infer_instance
  · split
    · infer_instance
    · infer_instance
  · infer_instance

variable {s s' : Service V} {c c' : Caller V} {t : Turn V} {data : TickData}

/-! ## Signals -/

/-- Whether the loop has received from the channel of `afterList` and has yet to look. -/
def Run.looksAfter : Run → Bool
  | takingAfter g => g.looks
  | _ => false

/-- Whether the loop has received from the channel of `cancelList` and has yet to look. -/
def Run.looksCancel : Run → Bool
  | takingCancel g => g.looks
  | _ => false

/-- Both lists have an element for every signal. -/
structure Signalled (s : Service V) : Prop where
  after : s.afterList.Backed (s.callers.countP Caller.signalsAfter) s.run.looksAfter
  cancel : s.cancelList.Backed (s.callers.countP Caller.signalsCancel) s.run.looksCancel

namespace Signalled

theorem call (h : Signalled s) (hs : s.step (.call c) = some s') : Signalled s' := by
  rw [Service.step] at hs
  by_cases hc : c.begins = true
  · rw [if_pos hc] at hs
    obtain rfl := Option.some.inj hs
    -- a call that begins has appended nothing
    have hquiet : c.signalsAfter = false ∧ c.signalsCancel = false := by
      cases c with
      | reset _ _ _ | stop _ => exact ⟨rfl, rfl⟩
      | _ => exact absurd hc (by simp [Caller.begins])
    have hcount : ∀ {p : Caller V → Bool}, p c = false →
        (s.callers ++ [c]).countP p = s.callers.countP p := by
      intro p hp
      rw [List.countP_append, List.countP_singleton, hp]
      rfl
    constructor
    · show s.afterList.Backed ((s.callers ++ [c]).countP _) _
      rw [hcount hquiet.1]
      exact h.after
    · show s.cancelList.Backed ((s.callers ++ [c]).countP _) _
      rw [hcount hquiet.2]
      exact h.cancel
  · rw [if_neg hc] at hs
    exact absurd hs (by simp)

/-- A call goes on; what it does to a list is the same for any number of other calls. -/
theorem setCaller (h : Signalled s) {i : ℕ} (hi : i < s.callers.length)
    {afterList : SharedList TickData} {cancelList : SharedList Cancel} {timers : ℕ → Timer V}
    {armed : ℕ} {stored : List TickData}
    (hafter : ∀ n, s.afterList.Backed (n + s.callers[i].signalsAfter.toNat) s.run.looksAfter →
      afterList.Backed (n + c'.signalsAfter.toNat) s.run.looksAfter)
    (hcancel : ∀ n, s.cancelList.Backed (n + s.callers[i].signalsCancel.toNat) s.run.looksCancel →
      cancelList.Backed (n + c'.signalsCancel.toNat) s.run.looksCancel) :
    Signalled { s with
      afterList, cancelList, timers, armed, stored, callers := s.callers.set i c' } := by
  constructor
  · obtain ⟨n, hbefore, hset⟩ :=
      List.exists_countP_set (p := Caller.signalsAfter) (x := c') hi
    show afterList.Backed ((s.callers.set i c').countP _) _
    rw [hset]
    exact hafter n (hbefore ▸ h.after)
  · obtain ⟨n, hbefore, hset⟩ :=
      List.exists_countP_set (p := Caller.signalsCancel) (x := c') hi
    show cancelList.Backed ((s.callers.set i c').countP _) _
    rw [hset]
    exact hcancel n (hbefore ▸ h.cancel)

theorem caller (h : Signalled s) (hsteady : Steady s) {i : ℕ}
    (hs : s.step (.caller i) = some s') : Signalled s' := by
  obtain ⟨hi, ⟨s₁, c'⟩, hnext, rfl⟩ := step_caller hs
  have hquiet : ∀ {c' : Caller V} {timers : ℕ → Timer V} {armed : ℕ} {stored : List TickData},
      c'.signalsAfter = s.callers[i].signalsAfter →
      c'.signalsCancel = s.callers[i].signalsCancel →
      Signalled { s with timers, armed, stored, callers := s.callers.set i c' } :=
    fun hafter hcancel => h.setCaller hi (fun _ hn => hafter ▸ hn) fun _ hn => hcancel ▸ hn
  have hproper := hsteady.proper _ (List.getElem_mem hi)
  cases hc : s.callers[i] with
  | reset t duration param | stop t | setting t duration param | after t duration
  | storing data | clearing t =>
    rw [hc] at hnext
    obtain ⟨rfl, rfl⟩ := Prod.mk.inj (Option.some.inj hnext)
    exact hquiet (by rw [hc]; rfl) (by rw [hc]; rfl)
  | cancelling g t what =>
    rw [hc] at hnext hproper
    obtain ⟨cancel, -, hpushing⟩ := hproper
    unfold Service.stepCaller at hnext
    cases hended : g.ended with
    | some v =>
      obtain rfl := SharedList.Goroutine.ended_eq_some hended
      simp only [hended] at hnext
      cases what with
      | some _ | none =>
        obtain ⟨rfl, rfl⟩ := Prod.mk.inj (Option.some.inj hnext)
        exact hquiet (by rw [hc]; rfl) (by rw [hc]; rfl)
    | none =>
      simp only [hended] at hnext
      obtain ⟨⟨x, g'⟩, hg, heq⟩ := Option.map_eq_some_iff.mp hnext
      obtain ⟨rfl, rfl⟩ := Prod.mk.inj heq
      -- the push is to `cancelList`, and `afterList` is as it was
      refine h.setCaller hi (fun n hn => ?_) fun n hn => ?_
      · rw [hc] at hn
        exact hn
      · rw [hc] at hn
        exact SharedList.Backed.push hn hpushing.adds hg
  | arming g data =>
    rw [hc] at hnext hproper
    have hpushing : g.Pushing data := hproper
    unfold Service.stepCaller at hnext
    cases hended : g.ended with
    | some v =>
      obtain rfl := SharedList.Goroutine.ended_eq_some hended
      simp only [hended] at hnext
      obtain ⟨rfl, rfl⟩ := Prod.mk.inj (Option.some.inj hnext)
      exact hquiet (by rw [hc]; rfl) (by rw [hc]; rfl)
    | none =>
      simp only [hended] at hnext
      obtain ⟨⟨x, g'⟩, hg, heq⟩ := Option.map_eq_some_iff.mp hnext
      obtain ⟨rfl, rfl⟩ := Prod.mk.inj heq
      refine h.setCaller hi (fun n hn => ?_) fun n hn => ?_
      · rw [hc] at hn
        exact SharedList.Backed.push hn hpushing.adds hg
      · rw [hc] at hn
        exact hn
  | returned =>
    rw [hc] at hnext
    exact absurd hnext (by simp [Service.stepCaller])

theorem sweep (h : Signalled s) {entries : List (Σ _ : ℤ, TickData)}
    (hs : s.step (.after entries) = some s') : Signalled s' := by
  obtain ⟨hafter, hcancel⟩ := h
  rw [Service.step] at hs
  split at hs
  · next hrun =>
    rw [hrun] at hafter hcancel
    split at hs
    · obtain rfl := Option.some.inj hs
      exact ⟨hafter, hcancel⟩
    · exact absurd hs (by simp)
  · exact absurd hs (by simp)

theorem receiveAfter (h : Signalled s) (hs : s.step .receiveAfter = some s') : Signalled s' := by
  obtain ⟨hafter, hcancel⟩ := h
  rw [Service.step] at hs
  split at hs
  · next hrun =>
    rw [hrun] at hafter hcancel
    obtain ⟨x, hx, rfl⟩ := Option.map_eq_some_iff.mp hs
    exact ⟨hafter.receive hx, hcancel⟩
  · exact absurd hs (by simp)

theorem receiveCancel (h : Signalled s) (hs : s.step .receiveCancel = some s') :
    Signalled s' := by
  obtain ⟨hafter, hcancel⟩ := h
  rw [Service.step] at hs
  split at hs
  · next hrun =>
    rw [hrun] at hafter hcancel
    obtain ⟨x, hx, rfl⟩ := Option.map_eq_some_iff.mp hs
    exact ⟨hafter, hcancel.receive hx⟩
  · exact absurd hs (by simp)

theorem run (h : Signalled s) (hsteady : Steady s) (hok : Orderly s .run)
    (hs : s.step .run = some s') : Signalled s' := by
  have hpopping := hsteady.popping
  obtain ⟨hafter, hcancel⟩ := h
  have hs : s.stepRun = some s' := hs
  unfold Service.stepRun at hs
  unfold Orderly at hok
  cases hrun : s.run with
  | select | panicked =>
    rw [hrun] at hs
    exact absurd hs (by simp)
  | sweeping last left =>
    rw [hrun] at hs hafter hcancel
    cases left with
    | nil =>
      obtain rfl := Option.some.inj hs
      exact ⟨hafter, hcancel⟩
    | cons data left =>
      simp only at hs
      split at hs
      · obtain rfl := Option.some.inj hs
        exact ⟨hafter, hcancel⟩
      · obtain rfl := Option.some.inj hs
        exact ⟨hafter, hcancel⟩
  | takingAfter g =>
    rw [hrun] at hs hpopping hok hafter hcancel
    simp only at hs hok
    cases hended : g.ended with
    | none =>
      simp only [hended] at hs
      obtain ⟨⟨x, g'⟩, hg, rfl⟩ := Option.map_eq_some_iff.mp hs
      -- where the pop is at its own signal, `Orderly` has an element to spare for it
      refine ⟨hafter.pop (SharedList.Goroutine.Popping.takes hpopping) ?_ hg, hcancel⟩
      rintro woken v rfl
      exact hok
    | some v =>
      obtain rfl := SharedList.Goroutine.ended_eq_some hended
      simp only [hended] at hs
      cases v with
      | none => exact hpopping.elim
      | some data =>
        obtain rfl := Option.some.inj hs
        exact ⟨hafter, hcancel⟩
  | takingCancel g =>
    rw [hrun] at hs hpopping hok hafter hcancel
    simp only at hs hok
    cases hended : g.ended with
    | none =>
      simp only [hended] at hs
      obtain ⟨⟨x, g'⟩, hg, rfl⟩ := Option.map_eq_some_iff.mp hs
      refine ⟨hafter, hcancel.pop (SharedList.Goroutine.Popping.takes hpopping) ?_ hg⟩
      rintro woken v rfl
      exact hok
    | some v =>
      obtain rfl := SharedList.Goroutine.ended_eq_some hended
      simp only [hended] at hs
      cases v with
      | none => exact hpopping.elim
      | some c =>
        obtain rfl := Option.some.inj hs
        exact ⟨hafter, hcancel⟩

theorem step (h : Signalled s) (hsteady : Steady s) (hok : Orderly s t)
    (hs : s.step t = some s') : Signalled s' := by
  cases t with
  | pass duration =>
    obtain rfl := Option.some.inj hs
    exact ⟨h.after, h.cancel⟩
  | call c => exact h.call hs
  | caller i => exact h.caller hsteady hs
  | run => exact h.run hsteady hok hs
  | after entries => exact h.sweep hs
  | receiveAfter => exact h.receiveAfter hs
  | receiveCancel => exact h.receiveCancel hs

end Signalled

/-! ## Times -/

/-- The loop has the arming in its map, or will have it. -/
def Service.Armed (s : Service V) (data : TickData) : Prop :=
  data ∈ s.underway ∨ ∃ id, s.secondsTickMap.lookup id = some data

/-- An arming is in the map under its id, and no two timers are armed for one time. -/
structure Spread (s : Service V) : Prop where
  keyed : ∀ id data, s.secondsTickMap.lookup id = some data → data.id = id
  apart : ∀ data data', s.Armed data → s.Armed data' → data.id = data'.id →
    data.ticker = data'.ticker

theorem mem_underway : data ∈ s.underway ↔
    (∃ c ∈ s.callers, c.carried = some data) ∨ s.run.inHand = some data ∨
      data ∈ s.afterList.l := by
  rw [Service.underway, List.mem_append, List.mem_append, List.mem_filterMap, Option.mem_toList]

namespace Spread

/-- What is armed after a step was armed before it. -/
theorem mono (h : Spread s)
    (hkeyed : ∀ id data, s'.secondsTickMap.lookup id = some data → data.id = id)
    (harmed : ∀ data, s'.Armed data → s.Armed data) : Spread s' where
  keyed := hkeyed
  apart data data' hdata hdata' := h.apart data data' (harmed data hdata) (harmed data' hdata')

theorem call (h : Spread s) (hs : s.step (.call c) = some s') : Spread s' := by
  rw [Service.step] at hs
  by_cases hc : c.begins = true
  · rw [if_pos hc] at hs
    obtain rfl := Option.some.inj hs
    refine h.mono h.keyed fun data hdata => hdata.imp_left fun hway => ?_
    rw [mem_underway] at hway ⊢
    refine hway.imp_left ?_
    rintro ⟨c', hc', hcarried⟩
    obtain hc' | hc' := List.mem_append.mp hc'
    · exact ⟨c', hc', hcarried⟩
    · -- a call that begins carries nothing
      rw [List.mem_singleton.mp hc'] at hcarried
      cases c with
      | reset _ _ _ | stop _ => exact absurd hcarried (by simp [Caller.carried])
      | _ => exact absurd hc (by simp [Caller.begins])
  · rw [if_neg hc] at hs
    exact absurd hs (by simp)

/-- A call goes on; the armings that it carries go to the list, and nowhere else. -/
theorem setCaller (h : Spread s) {i : ℕ} (hi : i < s.callers.length)
    {afterList : SharedList TickData} {cancelList : SharedList Cancel} {timers : ℕ → Timer V}
    {armed : ℕ} {stored : List TickData}
    (hmoves : ∀ data, c'.carried = some data ∨ data ∈ afterList.l →
      s.callers[i].carried = some data ∨ data ∈ s.afterList.l) :
    Spread { s with
      afterList, cancelList, timers, armed, stored, callers := s.callers.set i c' } := by
  refine h.mono h.keyed fun data hdata => hdata.imp_left fun hway => ?_
  have hmoved : c'.carried = some data ∨ data ∈ afterList.l → data ∈ s.underway := by
    intro hdata
    rw [mem_underway]
    obtain hcarried | hlist := hmoves data hdata
    · exact .inl ⟨_, List.getElem_mem hi, hcarried⟩
    · exact .inr (.inr hlist)
  obtain ⟨c, hc, hcarried⟩ | hhand | hlist := mem_underway.mp hway
  · obtain hc | rfl := List.mem_or_eq_of_mem_set hc
    · exact mem_underway.mpr (.inl ⟨c, hc, hcarried⟩)
    · exact hmoved (.inl hcarried)
  · exact mem_underway.mpr (.inr (.inl hhand))
  · exact hmoved (.inr hlist)

/-- A timer is armed for a time for which no other timer is. -/
theorem after (h : Spread s) {i : ℕ}
    (hfree : ∀ old, s.Armed old → old.id = data.id → old.ticker = data.ticker) :
    Spread { s with
      armed := s.armed + 1
      callers := s.callers.set i (.arming (.push data) data) } := by
  have harmed : ∀ data', Service.Armed { s with
      armed := s.armed + 1
      callers := s.callers.set i (.arming (.push data) data) } data' →
      data' = data ∨ s.Armed data' := by
    intro data' hdata
    obtain hway | hmap := hdata
    · obtain ⟨c, hc, hcarried⟩ | hrest := mem_underway.mp hway
      · obtain hc | rfl := List.mem_or_eq_of_mem_set hc
        · exact .inr (.inl (mem_underway.mpr (.inl ⟨c, hc, hcarried⟩)))
        · exact .inl (Option.some.inj hcarried).symm
      · exact .inr (.inl (mem_underway.mpr (.inr hrest)))
    · exact .inr (.inr hmap)
  refine ⟨h.keyed, fun data₁ data₂ hdata₁ hdata₂ hid => ?_⟩
  obtain rfl | h₁ := harmed data₁ hdata₁
  · obtain rfl | h₂ := harmed data₂ hdata₂
    · rfl
    · exact (hfree data₂ h₂ hid.symm).symm
  · obtain rfl | h₂ := harmed data₂ hdata₂
    · exact hfree data₁ h₁ hid
    · exact h.apart data₁ data₂ h₁ h₂ hid

theorem caller (h : Spread s) (hsteady : Steady s) {i : ℕ} (hok : Orderly s (.caller i))
    (hs : s.step (.caller i) = some s') : Spread s' := by
  obtain ⟨hi, ⟨s₁, c'⟩, hnext, rfl⟩ := step_caller hs
  have hquiet : ∀ {c' : Caller V} {cancelList : SharedList Cancel} {timers : ℕ → Timer V}
      {stored : List TickData}, c'.carried = none →
      Spread { s with cancelList, timers, stored, callers := s.callers.set i c' } := by
    intro c' cancelList timers stored hnone
    refine h.setCaller hi fun data hdata => .inr (hdata.resolve_left fun hcarried => ?_)
    exact absurd (hnone.symm.trans hcarried) (by simp)
  have hproper := hsteady.proper _ (List.getElem_mem hi)
  cases hc : s.callers[i] with
  | reset t duration param | stop t | setting t duration param | storing data | clearing t =>
    rw [hc] at hnext
    obtain ⟨rfl, rfl⟩ := Prod.mk.inj (Option.some.inj hnext)
    exact hquiet rfl
  | cancelling g t what =>
    rw [hc] at hnext
    unfold Service.stepCaller at hnext
    cases hended : g.ended with
    | some v =>
      simp only [hended] at hnext
      cases what with
      | some _ | none =>
        obtain ⟨rfl, rfl⟩ := Prod.mk.inj (Option.some.inj hnext)
        exact hquiet rfl
    | none =>
      simp only [hended] at hnext
      obtain ⟨⟨x, g'⟩, hg, heq⟩ := Option.map_eq_some_iff.mp hnext
      obtain ⟨rfl, rfl⟩ := Prod.mk.inj heq
      exact hquiet rfl
  | after t duration =>
    rw [hc] at hnext
    obtain ⟨rfl, rfl⟩ := Prod.mk.inj (Option.some.inj hnext)
    unfold Orderly at hok
    simp only [List.getElem?_eq_getElem hi, hc] at hok
    refine h.after fun old hold hid => ?_
    -- what is in the map stands there under its own id, the one that the new arming takes
    obtain hway | ⟨id, hmap⟩ := hold
    · exact hok.1 old hway hid
    · have hid : old.id = s.clock + duration := hid
      rw [← h.keyed id old hmap, hid] at hmap
      exact hok.2 old hmap
  | arming g data =>
    rw [hc] at hnext hproper
    have hpushing : g.Pushing data := hproper
    unfold Service.stepCaller at hnext
    cases hended : g.ended with
    | some v =>
      simp only [hended] at hnext
      obtain ⟨rfl, rfl⟩ := Prod.mk.inj (Option.some.inj hnext)
      exact hquiet rfl
    | none =>
      simp only [hended] at hnext
      obtain ⟨⟨x, g'⟩, hg, heq⟩ := Option.map_eq_some_iff.mp hnext
      obtain ⟨rfl, rfl⟩ := Prod.mk.inj heq
      -- the append only moves the arming from the call to the list
      have hsame := SharedList.step_carried hg hpushing.adds
      refine h.setCaller hi fun data' hdata => ?_
      have hmem : data' ∈ x.l ++ g'.carried.toList := by
        rw [List.mem_append, Option.mem_toList]
        exact hdata.symm
      rw [hsame, List.mem_append, Option.mem_toList] at hmem
      rw [hc]
      exact hmem.symm
  | returned =>
    rw [hc] at hnext
    exact absurd hnext (by simp [Service.stepCaller])

/-- The loop goes on with what it had in its hands, in the list and in its map. -/
theorem setRun (h : Spread s) {run : Run} {afterList : SharedList TickData}
    {cancelList : SharedList Cancel} {secondsTickMap : GoMap ℤ TickData} {d due : ℤ}
    {log : List Event}
    (hkeyed : ∀ id data, secondsTickMap.lookup id = some data → data.id = id)
    (harmed : ∀ data, (run.inHand = some data ∨ data ∈ afterList.l) ∨
      (∃ id, secondsTickMap.lookup id = some data) → s.Armed data) :
    Spread { s with run, afterList, cancelList, secondsTickMap, d, due, log } := by
  refine h.mono hkeyed fun data hdata => ?_
  obtain hway | hmap := hdata
  · obtain hcarried | hrest := mem_underway.mp hway
    · exact .inl (mem_underway.mpr (.inl hcarried))
    · exact harmed data (.inl hrest)
  · exact harmed data (.inr hmap)

/-- The loop goes on with no arming in its hands; it may have erased some from its map. -/
theorem setIdle (h : Spread s) {run : Run} {afterList : SharedList TickData}
    {cancelList : SharedList Cancel} {secondsTickMap : GoMap ℤ TickData} {d due : ℤ}
    {log : List Event} (hidle : run.inHand = none) (hlist : afterList.l = s.afterList.l)
    (hmap : ∀ id data, secondsTickMap.lookup id = some data →
      s.secondsTickMap.lookup id = some data) :
    Spread { s with run, afterList, cancelList, secondsTickMap, d, due, log } := by
  refine h.setRun (fun id data hid => h.keyed id data (hmap id data hid)) fun data hdata => ?_
  obtain (hhand | hmem) | ⟨id, hid⟩ := hdata
  · exact absurd (hidle.symm.trans hhand) (by simp)
  · exact .inl (mem_underway.mpr (.inr (.inr (hlist ▸ hmem))))
  · exact .inr ⟨id, hmap id data hid⟩

theorem run (h : Spread s) (hsteady : Steady s) (hs : s.step .run = some s') : Spread s' := by
  have hpopping := hsteady.popping
  have hs : s.stepRun = some s' := hs
  unfold Service.stepRun at hs
  cases hrun : s.run with
  | select | panicked =>
    rw [hrun] at hs
    exact absurd hs (by simp)
  | sweeping last left =>
    rw [hrun] at hs
    cases left with
    | nil =>
      obtain rfl := Option.some.inj hs
      exact h.setIdle rfl rfl fun _ _ => id
    | cons data left =>
      simp only at hs
      split at hs
      · obtain rfl := Option.some.inj hs
        exact h.setIdle rfl rfl fun _ _ hid => (GoMap.of_lookup_erase hid).2
      · obtain rfl := Option.some.inj hs
        exact h.setIdle rfl rfl fun _ _ => id
  | takingAfter g =>
    rw [hrun] at hs hpopping
    simp only at hs
    cases hended : g.ended with
    | none =>
      simp only [hended] at hs
      obtain ⟨⟨x, g'⟩, hg, rfl⟩ := Option.map_eq_some_iff.mp hs
      -- the pop only moves an arming from the list to its own hands
      have hsame : g'.taken.toList ++ x.l = g.taken.toList ++ s.afterList.l :=
        (SharedList.step_takes hg (SharedList.Goroutine.Popping.takes hpopping)).2
      refine h.setRun h.keyed fun data hdata => ?_
      obtain hrest | hmap := hdata
      · have hmem : data ∈ g'.taken.toList ++ x.l := by
          rw [List.mem_append, Option.mem_toList]
          exact hrest
        rw [hsame, List.mem_append, Option.mem_toList] at hmem
        refine .inl (mem_underway.mpr (.inr ?_))
        rw [hrun]
        exact hmem
      · exact .inr hmap
    | some v =>
      obtain rfl := SharedList.Goroutine.ended_eq_some hended
      simp only [hended] at hs
      cases v with
      | none => exact hpopping.elim
      | some data =>
        obtain rfl := Option.some.inj hs
        -- the arming goes into the map, in place of one under the same id
        have hhand : s.Armed data := by
          refine .inl (mem_underway.mpr (.inr (.inl ?_)))
          rw [hrun]
          rfl
        refine h.setRun (fun id data' hid => ?_) fun data' hdata => ?_
        · rw [GoMap.lookup_insert_eq] at hid
          split at hid
          · next heq =>
            rw [← Option.some.inj hid, heq]
          · exact h.keyed id data' hid
        · obtain (hnone | hlist) | ⟨id, hid⟩ := hdata
          · exact absurd hnone (by simp [Run.inHand])
          · exact .inl (mem_underway.mpr (.inr (.inr hlist)))
          · rw [GoMap.lookup_insert_eq] at hid
            split at hid
            · rw [← Option.some.inj hid]
              exact hhand
            · exact .inr ⟨id, hid⟩
  | takingCancel g =>
    rw [hrun] at hs hpopping
    simp only at hs
    cases hended : g.ended with
    | none =>
      simp only [hended] at hs
      obtain ⟨⟨x, g'⟩, -, rfl⟩ := Option.map_eq_some_iff.mp hs
      exact h.setIdle rfl rfl fun _ _ => id
    | some v =>
      obtain rfl := SharedList.Goroutine.ended_eq_some hended
      simp only [hended] at hs
      cases v with
      | none => exact hpopping.elim
      | some c =>
        obtain rfl := Option.some.inj hs
        exact h.setIdle rfl rfl fun _ _ hid => (GoMap.of_lookup_erase hid).2

theorem step (h : Spread s) (hsteady : Steady s) (hok : Orderly s t)
    (hs : s.step t = some s') : Spread s' := by
  cases t with
  | pass duration =>
    obtain rfl := Option.some.inj hs
    exact ⟨h.keyed, h.apart⟩
  | call c => exact h.call hs
  | caller i => exact h.caller hsteady hok hs
  | run => exact h.run hsteady hs
  | after entries =>
    rw [Service.step] at hs
    split at hs
    · split at hs
      · obtain rfl := Option.some.inj hs
        exact h.setIdle rfl rfl fun _ _ => id
      · exact absurd hs (by simp)
    · exact absurd hs (by simp)
  | receiveAfter =>
    rw [Service.step] at hs
    split at hs
    · obtain ⟨x, hx, rfl⟩ := Option.map_eq_some_iff.mp hs
      exact h.setIdle rfl (SharedList.receive_l hx) fun _ _ => id
    · exact absurd hs (by simp)
  | receiveCancel =>
    rw [Service.step] at hs
    split at hs
    · obtain ⟨x, hx, rfl⟩ := Option.map_eq_some_iff.mp hs
      exact h.setIdle rfl rfl fun _ _ => id
    · exact absurd hs (by simp)

end Spread

/-! ## Every orderly run -/

/-- With an element for every signal and the timers armed for different times, the loop can rely on
the lists and on its map. -/
theorem guarded_of_orderly (hsignalled : Signalled s) (hspread : Spread s) (hok : Orderly s t) :
    Guarded s t := by
  unfold Guarded
  split
  · split
    · next hrun =>
      have hafter := hsignalled.after
      rw [hrun] at hafter
      exact hafter.ne_nil
    · next hrun =>
      have hcancel := hsignalled.cancel
      rw [hrun] at hcancel
      exact hcancel.ne_nil
    · next data hrun =>
      intro old hold
      have hhand : data ∈ s.underway := by
        rw [mem_underway, hrun]
        exact .inr (.inl rfl)
      exact hspread.apart old data (.inr ⟨_, hold⟩) (.inl hhand) (hspread.keyed _ old hold)
    · next c hrun =>
      unfold Orderly at hok
      simp only [hrun] at hok
      intro n hn
      refine ⟨(hok n hn).1, fun id data hid => ?_⟩
      exact (hok n hn).2 ⟨id, data⟩ (Finmap.mem_lookup_iff.mp hid)
    · exact trivial
  · exact trivial

/-- **The timer service is reliable in the runs where a `Pop` signals for elements that no `Push`
has yet to signal for, a cancel is taken after the armings that it is to cancel, and no two timers
are armed for one time.** -/
theorem reliable_of_orderly (h : (ticker V).Reach Orderly s) : Reliable s := by
  have hinv : Steady s ∧ Signalled s ∧ Spread s := by
    refine h.invariant (I := fun s => Steady s ∧ Signalled s ∧ Spread s) ?_ ?_
    · rintro _ ⟨clock, rfl⟩
      refine ⟨service_steady clock, ⟨Nat.le_refl 0, Nat.le_refl 0⟩, ?_⟩
      have hnone : ∀ data, ¬ (service clock : Service V).Armed data := by
        rintro data (hway | ⟨id, hid⟩)
        · exact List.not_mem_nil hway
        · exact absurd hid (by simp [service])
      exact ⟨fun id data hid => absurd (.inr ⟨id, hid⟩) (hnone data),
        fun data _ hdata => absurd hdata (hnone data)⟩
    · rintro s t s' ⟨hsteady, hsignalled, hspread⟩ hok hs
      exact ⟨hsteady.step (guarded_of_orderly hsignalled hspread hok) hs,
        hsignalled.step hsteady hok hs, hspread.step hsteady hok hs⟩
  exact hinv.1.reliable

/-! ## Runs -/

/-- The call number `i` makes `n` steps. -/
def calls (i n : ℕ) : List (Turn ℕ) := List.replicate n (.caller i)

/-- The loop receives a request and takes it. -/
def taking (receive : Turn ℕ) : List (Turn ℕ) := receive :: List.replicate 5 .run

/-- A call of `Reset`, whole, as call number `i`. -/
def resetting (i t : ℕ) : List (Turn ℕ) := .call (.reset t 5 0) :: calls i 14

/-- Three timers are reset. The first call has appended its cancel, and signals when the loop has
taken it; the loop has the armings of all three when the third timer is stopped, and the other two
tick. -/
def threeTimers : List (Turn ℕ) :=
  [.call (.reset 0 5 0), .call (.reset 1 5 0), .call (.reset 2 5 0)] ++
    calls 0 4 ++ calls 1 5 ++ calls 2 5 ++ taking .receiveCancel ++ calls 0 1 ++
    taking .receiveCancel ++ taking .receiveCancel ++
    calls 0 9 ++ [.pass 1] ++ calls 1 9 ++ [.pass 1] ++ calls 2 9 ++
    taking .receiveAfter ++ taking .receiveAfter ++ taking .receiveAfter ++
    [.call (.stop 2)] ++ calls 3 5 ++ taking .receiveCancel ++
    [.pass 2000000000, .after [⟨5, ⟨5, 0, 0⟩⟩, ⟨6, ⟨6, 1, 1⟩⟩], .run, .run]

theorem reliable_of_orderly_threeTimers : ∃ s : Service ℕ, (ticker ℕ).Reach Orderly s ∧
    s.log = [.cancelTaken [], .cancelTaken [], .cancelTaken [], .cancelTaken [2],
      .ticked ⟨5, 0, 0⟩, .ticked ⟨6, 1, 1⟩] ∧ Reliable s := by
  have hok : (ticker ℕ).Along Orderly threeTimers (service 0) :=
    StepSystem.along_of_check (c := fun s t => Orderly s t) (fun _ _ h => of_decide_eq_true h)
      (by decide +kernel)
  have hend : ((ticker ℕ).exec threeTimers (service 0)).any (fun s =>
      decide (s.log = [.cancelTaken [], .cancelTaken [], .cancelTaken [], .cancelTaken [2],
        .ticked ⟨5, 0, 0⟩, .ticked ⟨6, 1, 1⟩])) = true := by
    decide +kernel
  have hinit : (ticker ℕ).init (service 0) := ⟨0, rfl⟩
  obtain ⟨s, hreach, hlog⟩ := StepSystem.exists_reach_of_any hinit hok hend
  exact ⟨s, hreach, of_decide_eq_true hlog, reliable_of_orderly hreach⟩

/-- Two calls append to the list of the cancels, and the first one signals when the loop has taken
both. -/
def signalledLate : List (Turn ℕ) :=
  [.call (.reset 0 5 0), .call (.reset 1 5 0)] ++ calls 0 4 ++ calls 1 5 ++
    taking .receiveCancel ++ taking .receiveCancel ++ calls 0 1 ++
    [.receiveCancel, .run, .run, .run, .run]

/-- A timer is reset and stopped, and the cancels are taken before the arming. -/
def cancelledFirst : List (Turn ℕ) :=
  resetting 0 0 ++ [.call (.stop 0)] ++ calls 1 5 ++
    taking .receiveCancel ++ taking .receiveCancel ++ taking .receiveAfter ++
    [.pass 2000000000, .after [⟨5, ⟨5, 0, 0⟩⟩], .run]

/-- Two timers are reset at the same time for the same duration. -/
def armedTogether : List (Turn ℕ) :=
  resetting 0 0 ++ resetting 1 1 ++ taking .receiveAfter ++ taking .receiveAfter

/-- In the first run the loop fails, in the second one a cancelled arming ticks, and in the third
one an arming is discarded for one of another timer. -/
theorem not_reliable :
    (∃ s : Service ℕ, (ticker ℕ).exec signalledLate (service 0) = some s ∧ s.run = .panicked ∧
      ¬ Reliable s) ∧
    (∃ s : Service ℕ, (ticker ℕ).exec cancelledFirst (service 0) = some s ∧
      s.log = [.cancelTaken [], .cancelTaken [0], .ticked ⟨5, 0, 0⟩] ∧ ¬ Reliable s) ∧
    ∃ s : Service ℕ, (ticker ℕ).exec armedTogether (service 0) = some s ∧
      s.log = [.discarded ⟨5, 0, 0⟩ ⟨5, 1, 1⟩] ∧ ¬ Reliable s := by
  refine ⟨⟨_, rfl, rfl, fun h => h.running rfl⟩, ⟨_, rfl, rfl, fun h => ?_⟩,
    ⟨_, rfl, rfl, fun h => ?_⟩⟩
  · have hpair := (List.pairwise_cons.mp (List.pairwise_cons.mp h.cancelled).2).1
    exact hpair _ List.mem_cons_self [0] ⟨5, 0, 0⟩ rfl rfl List.mem_cons_self
  · exact absurd (h.kept ⟨5, 0, 0⟩ ⟨5, 1, 1⟩ List.mem_cons_self) (by decide)

end Ticker
end MqttBroker
