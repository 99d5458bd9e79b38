import Mathlib.Logic.Function.Basic
import MqttBroker.Lib.GoMap
import MqttBroker.Session.State
import MqttBroker.Utils.SharedList

/-!
# The timer service

`Timer.Reset` and `Timer.Stop` push requests to two lists, one with the armings and one with the
ids of the armings that are cancelled, and a single loop takes requests from both lists, in any
order, into a map, and calls `Tick` for what is over. An arming is known by its id, the time at
which it is over. A cancel may be taken before the arming that it cancels, two armings may have
one id, and the value in the channel of a list may be left from an element that is gone.
-/

namespace MqttBroker
namespace Ticker

variable {V : Type}

/-- `tickData`, with the number of the arming. -/
structure TickData where
  id : ℤ
  ticker : ℕ
  serial : ℕ
deriving DecidableEq

/-- A cancel request: an id, with the numbers of the armings that the call is to cancel. -/
structure Cancel where
  id : ℤ
  cancels : List ℕ
deriving DecidableEq

/-- `Timer`; of its channel, whether it is nil. -/
structure Timer (V : Type) where
  ch : Bool := true
  id : ℤ := 0
  param : Option V := none

/-- What a call of `Timer.Reset` or `Timer.Stop` does next; the sections under the mutex of the
timer are one operation each. -/
inductive Caller (V : Type)
  | reset (t : ℕ) (duration : ℤ) (param : V)
  | stop (t : ℕ)
  | cancelling (g : SharedList.Goroutine Cancel Unit) (t : ℕ) (what : Option (ℤ × V))
  | setting (t : ℕ) (duration : ℤ) (param : V)
  | after (t : ℕ) (duration : ℤ)
  | arming (g : SharedList.Goroutine TickData Unit) (data : TickData)
  | storing (data : TickData)
  | clearing (t : ℕ)
  | returned

/-- What the loop does next. -/
inductive Run
  | select
  | sweeping (last : ℤ) (left : List TickData)
  | takingAfter (g : SharedList.Goroutine TickData Unit)
  | takingCancel (g : SharedList.Goroutine Cancel Unit)
  | panicked

inductive Event
  | ticked (data : TickData)
  | cancelTaken (cancels : List ℕ)
  | discarded (old new : TickData)
deriving DecidableEq

/-- The package variables, the timers, the loop with its variable `d` and the time at which its
`time.After` fires, and the calls. `armed` counts the armings, `stored` are those whose `Reset` has
written the id of its timer. -/
structure Service (V : Type) where
  clock : ℤ
  timers : ℕ → Timer V
  afterList : SharedList TickData
  cancelList : SharedList Cancel
  secondsTickMap : GoMap ℤ TickData
  run : Run
  d : ℤ
  due : ℤ
  callers : List (Caller V)
  armed : ℕ
  stored : List TickData
  log : List Event

/-- Before any timer is made. -/
def service (clock : ℤ) : Service V where
  clock
  timers _ := {}
  afterList := SharedList.newList
  cancelList := SharedList.newList
  secondsTickMap := ∅
  run := .select
  d := second
  due := clock + second
  callers := []
  armed := 0
  stored := []
  log := []

namespace Service

/-- The numbers of the armings of a timer whose `Reset` is through. -/
def armingsOf (s : Service V) (t : ℕ) : List ℕ :=
  (s.stored.filter fun data => data.ticker = t).map TickData.serial

def setTimer (t : ℕ) (f : Timer V → Timer V) (s : Service V) : Service V :=
  { s with timers := Function.update s.timers t (f (s.timers t)) }

/-- The loop comes to its `select`, where `time.After` begins. -/
def selecting (s : Service V) : Service V := { s with run := .select, due := s.clock + s.d }

/-- The next operation of a call; `none` while it waits. -/
def stepCaller (s : Service V) : Caller V → Option (Service V × Caller V)
  | .reset t duration param =>
    some (s, .cancelling (.push ⟨(s.timers t).id, s.armingsOf t⟩) t (some (duration, param)))
  | .stop t => some (s, .cancelling (.push ⟨(s.timers t).id, s.armingsOf t⟩) t none)
  | .cancelling g t what =>
    match g.ended with
    | some _ =>
      match what with
      | some (duration, param) => some (s, .setting t duration param)
      | none => some (s, .clearing t)
    | none => (g.step s.cancelList).map fun next =>
      ({ s with cancelList := next.1 }, .cancelling next.2 t what)
  | .setting t duration param =>
    some (s.setTimer t fun x => { x with param := some param }, .after t duration)
  | .after t duration =>
    let data : TickData := { id := s.clock + duration, ticker := t, serial := s.armed }
    some ({ s with armed := s.armed + 1 }, .arming (.push data) data)
  | .arming g data =>
    match g.ended with
    | some _ => some (s, .storing data)
    | none => (g.step s.afterList).map fun next =>
      ({ s with afterList := next.1 }, .arming next.2 data)
  | .storing data =>
    some ({ s.setTimer data.ticker fun x => { x with id := data.id } with
      stored := s.stored ++ [data] }, .returned)
  | .clearing t => some (s.setTimer t fun x => { x with param := none, ch := false }, .returned)
  | .returned => none

/-- The next operation of the loop; `none` at its `select`. -/
def stepRun (s : Service V) : Option (Service V) :=
  match s.run with
  | .select | .panicked => none
  | .sweeping last [] => some { s with d := max 0 (second - (s.clock - last)) }.selecting
  | .sweeping last (data :: left) =>
    if data.id - last < 0 then
      some { s with
        secondsTickMap := s.secondsTickMap.erase data.id
        run := .sweeping last left
        log := s.log ++ [.ticked data] }
    else some { s with run := .sweeping last left }
  | .takingAfter g =>
    match g.ended with
    | some none => some { s with run := .panicked }
    | some (some data) =>
      some { s with
        secondsTickMap := s.secondsTickMap.insert data.id data
        log := s.log ++ ((s.secondsTickMap.lookup data.id).map (Event.discarded · data)).toList
        }.selecting
    | none => (g.step s.afterList).map fun next =>
      { s with afterList := next.1, run := .takingAfter next.2 }
  | .takingCancel g =>
    match g.ended with
    | some none => some { s with run := .panicked }
    | some (some c) =>
      some { s with
        secondsTickMap := s.secondsTickMap.erase c.id
        log := s.log ++ [Event.cancelTaken c.cancels] }.selecting
    | none => (g.step s.cancelList).map fun next =>
      { s with cancelList := next.1, run := .takingCancel next.2 }

end Service

/-- A call of one of the two methods begins. -/
def Caller.begins : Caller V → Bool
  | reset _ _ _ | stop _ => true
  | _ => false

/-- Time passes, or a call begins or goes on, or the `select` of the loop takes one of its cases,
or the loop goes on; a sweep visits the entries of the map in some order. -/
inductive Turn (V : Type)
  | pass (duration : ℕ)
  | call (c : Caller V)
  | caller (i : ℕ)
  | after (entries : List (Σ _ : ℤ, TickData))
  | receiveAfter
  | receiveCancel
  | run

def Service.step : Turn V → Service V → Option (Service V)
  | .pass duration, s => some { s with clock := s.clock + duration }
  | .call c, s => if c.begins then some { s with callers := s.callers ++ [c] } else none
  | .caller i, s =>
    match s.callers[i]? with
    | none => none
    | some c => (s.stepCaller c).map fun next => { next.1 with callers := s.callers.set i next.2 }
  | .after entries, s =>
    match s.run with
    | .select =>
      if s.due ≤ s.clock ∧ (entries : Multiset (Σ _ : ℤ, TickData)) = s.secondsTickMap.entries then
        some { s with run := .sweeping s.clock (entries.map Sigma.snd) }
      else none
    | _ => none
  | .receiveAfter, s =>
    match s.run with
    | .select => s.afterList.receive.map fun x =>
        { s with afterList := x, run := .takingAfter (.pop true) }
    | _ => none
  | .receiveCancel, s =>
    match s.run with
    | .select => s.cancelList.receive.map fun x =>
        { s with cancelList := x, run := .takingCancel (.pop true) }
    | _ => none
  | .run, s => s.stepRun

def ticker (V : Type) : StepSystem (Service V) (Turn V) where
  init s := ∃ clock, s = service clock
  step := Service.step

/-- The loop has not failed, no arming has ticked after a cancel of it was taken, and none was
discarded for an arming of another timer. -/
structure Reliable (s : Service V) : Prop where
  running : s.run ≠ .panicked
  cancelled : s.log.Pairwise fun e e' => ∀ cancels data, e = .cancelTaken cancels →
    e' = .ticked data → data.serial ∉ cancels
  kept : ∀ old new, .discarded old new ∈ s.log → old.ticker = new.ticker

variable {s s' : Service V} {c c' : Caller V} {t : Turn V} {data : TickData}

theorem step_caller {i : ℕ} (hs : s.step (.caller i) = some s') :
    ∃ (hi : i < s.callers.length) (next : Service V × Caller V),
      s.stepCaller s.callers[i] = some next ∧
      s' = { next.1 with callers := s.callers.set i next.2 } := by
  rw [Service.step] at hs
  cases hget : s.callers[i]? with
  | none =>
    rw [hget] at hs
    exact absurd hs (by simp)
  | some c =>
    rw [hget] at hs
    obtain ⟨next, hnext, rfl⟩ := Option.map_eq_some_iff.mp hs
    obtain ⟨hi, rfl⟩ := List.getElem?_eq_some_iff.mp hget
    exact ⟨hi, next, hnext, rfl⟩

/-! ## Where armings and requests are -/

/-- The numbers of the armings whose `Reset` is through. -/
def Service.serials (s : Service V) : List ℕ := s.stored.map TickData.serial

theorem mem_serials_of_armingsOf {t n : ℕ} (h : n ∈ s.armingsOf t) : n ∈ s.serials := by
  obtain ⟨data, hdata, rfl⟩ := List.mem_map.mp h
  exact List.mem_map_of_mem (List.mem_of_mem_filter hdata)

namespace Run

/-- The loop has found what it has received for, or has not looked yet. -/
def Popping : Run → Prop
  | takingAfter g => g.Popping
  | takingCancel g => g.Popping
  | panicked => False
  | _ => True

/-- The arming between the list and the map. -/
def inHand : Run → Option TickData
  | takingAfter g => g.taken
  | _ => none

/-- The request that is being taken. -/
def request : Run → Option Cancel
  | takingCancel g => g.taken
  | _ => none

/-- What a sweep has still to visit. -/
def left : Run → List TickData
  | sweeping _ left => left
  | _ => []

end Run

/-- The loop has the arming or will have it. -/
def Service.Pending (s : Service V) (data : TickData) : Prop :=
  data ∈ s.run.inHand.toList ++ s.afterList.l ∨ (∃ id, s.secondsTickMap.lookup id = some data) ∨
    data ∈ s.run.left

namespace Caller

/-- The call pushes what it is to push, and cancels armings that are there. -/
def Proper (serials : List ℕ) : Caller V → Prop
  | cancelling g _ _ => ∃ c : Cancel, (∀ n ∈ c.cancels, n ∈ serials) ∧ g.Pushing c
  | arming g data => g.Pushing data
  | _ => True

/-- The call has made the arming with this number. -/
def arms (n : ℕ) : Caller V → Bool
  | arming _ data | storing data => data.serial = n
  | _ => false

end Caller

/-- What the loop relies on: the list in which it looks has elements; a cancel finds none of the
armings that it is to cancel in the list of the armings, nor under another id in the map; and an
arming finds none of another timer under its id. -/
def Guarded (s : Service V) : Turn V → Prop
  | .run =>
    match s.run with
    | .takingAfter (.popLocked _) => s.afterList.l ≠ []
    | .takingCancel (.popLocked _) => s.cancelList.l ≠ []
    | .takingAfter (.returned (some data)) =>
      ∀ old, s.secondsTickMap.lookup data.id = some old → old.ticker = data.ticker
    | .takingCancel (.returned (some c)) => ∀ n ∈ c.cancels,
      (∀ data ∈ s.afterList.l, data.serial ≠ n) ∧
      ∀ id data, s.secondsTickMap.lookup id = some data → data.serial = n → id = c.id
    | _ => True
  | _ => True

/-- What every run keeps in which the loop can rely on that. A number belongs to one call or to one
arming that is through, and an arming of which a cancel was taken is not pending. -/
structure Steady (s : Service V) : Prop where
  popping : s.run.Popping
  proper : ∀ c ∈ s.callers, c.Proper s.serials
  once : ∀ n, s.callers.countP (Caller.arms n) + s.serials.count n ≤ 1
  fresh : ∀ n ≥ s.armed, s.callers.countP (Caller.arms n) = 0 ∧ n ∉ s.serials
  requests : ∀ c ∈ s.run.request.toList ++ s.cancelList.l, ∀ n ∈ c.cancels, n ∈ s.serials
  gone : ∀ cancels, .cancelTaken cancels ∈ s.log → ∀ n ∈ cancels, n ∈ s.serials ∧
    ∀ data, s.Pending data → data.serial ≠ n
  cancelled : s.log.Pairwise fun e e' => ∀ cancels data, e = .cancelTaken cancels →
    e' = .ticked data → data.serial ∉ cancels
  kept : ∀ old new, .discarded old new ∈ s.log → old.ticker = new.ticker

theorem Steady.reliable (h : Steady s) : Reliable s where
  running hp := by
    have hpopping := h.popping
    rw [hp] at hpopping
    exact hpopping
  cancelled := h.cancelled
  kept := h.kept

theorem service_steady (clock : ℤ) : Steady (service clock : Service V) where
  popping := trivial
  proper _ hc := absurd hc List.not_mem_nil
  once _ := Nat.zero_le 1
  fresh _ _ := ⟨rfl, List.not_mem_nil⟩
  requests _ hc := absurd hc List.not_mem_nil
  gone _ hmem := absurd hmem List.not_mem_nil
  cancelled := .nil
  kept _ _ hmem := absurd hmem List.not_mem_nil

/-! ## The calls -/

theorem Steady.call (h : Steady s) (hs : s.step (.call c) = some s') : Steady s' := by
  rw [Service.step] at hs
  by_cases hc : c.begins = true
  · rw [if_pos hc] at hs
    obtain rfl := Option.some.inj hs
    have harms : ∀ n, c.arms n = false ∧ c.Proper s.serials := by
      intro n
      cases c with
      | reset _ _ _ | stop _ => exact ⟨rfl, trivial⟩
      | _ => exact absurd hc (by simp [Caller.begins])
    have hcount : ∀ n, (s.callers ++ [c]).countP (Caller.arms n) =
        s.callers.countP (Caller.arms n) := by
      intro n
      rw [List.countP_append, List.countP_singleton, (harms n).1]
      rfl
    refine { h with
      proper := fun c' hc' => ?_
      once := fun n => (congrArg (· + _) (hcount n)).trans_le (h.once n)
      fresh := fun n hn => ⟨(hcount n).trans (h.fresh n hn).1, (h.fresh n hn).2⟩ }
    obtain hc' | hc' := List.mem_append.mp hc'
    · exact h.proper c' hc'
    · rw [List.mem_singleton.mp hc']
      exact (harms 0).2
  · rw [if_neg hc] at hs
    exact absurd hs (by simp)

theorem Caller.Proper.mono {l l' : List ℕ} (h : c.Proper l) (hl : ∀ n ∈ l, n ∈ l') :
    c.Proper l' := by
  cases c with
  | cancelling g _ _ =>
    obtain ⟨cancel, hcancels, hg⟩ := h
    exact ⟨cancel, fun n hn => hl n (hcancels n hn), hg⟩
  | _ => exact h

/-- A call goes on with the armings that it had, and may append to the two lists. -/
theorem Steady.setCaller (h : Steady s) {i : ℕ} (hi : i < s.callers.length)
    {afterList : SharedList TickData} {cancelList : SharedList Cancel} {timers : ℕ → Timer V}
    {armings : List TickData} {cancels : List Cancel}
    (hafter : afterList.l = s.afterList.l ++ armings)
    (hcancel : cancelList.l = s.cancelList.l ++ cancels)
    (harmings : ∀ data ∈ armings, data.serial ∉ s.serials)
    (hcancels : ∀ c ∈ cancels, ∀ n ∈ c.cancels, n ∈ s.serials)
    (hproper : c'.Proper s.serials) (harms : ∀ n, c'.arms n = s.callers[i].arms n) :
    Steady { s with afterList, cancelList, timers, callers := s.callers.set i c' } := by
  have hcount : ∀ n, (s.callers.set i c').countP (Caller.arms n) =
      s.callers.countP (Caller.arms n) := by
    intro n
    have hset := List.countP_set_add (p := Caller.arms n) (x := c') hi
    rw [harms n] at hset
    omega
  constructor
  · exact h.popping
  · intro c hc
    obtain hc | rfl := List.mem_or_eq_of_mem_set hc
    · exact h.proper c hc
    · exact hproper
  · exact fun n => (congrArg (· + _) (hcount n)).trans_le (h.once n)
  · exact fun n hn => ⟨(hcount n).trans (h.fresh n hn).1, (h.fresh n hn).2⟩
  · intro c hc
    have hc : c ∈ s.run.request.toList ++ cancelList.l := hc
    rw [hcancel, ← List.append_assoc] at hc
    exact (List.mem_append.mp hc).elim (h.requests c) (hcancels c)
  · intro taken hmem n hn
    obtain ⟨hserial, hnone⟩ := h.gone taken hmem n hn
    refine ⟨hserial, fun data hdata => ?_⟩
    obtain hdata | hdata := hdata
    · have hdata : data ∈ s.run.inHand.toList ++ afterList.l := hdata
      rw [hafter, ← List.append_assoc] at hdata
      obtain hdata | hdata := List.mem_append.mp hdata
      · exact hnone data (.inl hdata)
      · rintro rfl
        exact harmings data hdata hserial
    · exact hnone data (.inr hdata)
  · exact h.cancelled
  · exact h.kept

/-- The call makes an arming, with a new number. -/
theorem Steady.after (h : Steady s) {i t : ℕ} {duration : ℤ} (hi : i < s.callers.length)
    (hc : s.callers[i] = .after t duration) (hdata : data.serial = s.armed) :
    Steady { s with
      armed := s.armed + 1
      callers := s.callers.set i (.arming (.push data) data) } := by
  have hset : ∀ n, (s.callers.set i (.arming (.push data) data)).countP (Caller.arms n) =
      s.callers.countP (Caller.arms n) + (decide (data.serial = n)).toNat := by
    intro n
    have hset := List.countP_set_add (p := Caller.arms n)
      (x := (.arming (.push data) data : Caller V)) hi
    rw [hc] at hset
    exact hset
  refine { h with
    proper := fun c hmem => ?_
    once := fun n => ?_
    fresh := fun n hn => ?_ }
  · obtain hmem | rfl := List.mem_or_eq_of_mem_set hmem
    · exact h.proper c hmem
    · exact rfl
  · show (s.callers.set i _).countP _ + s.serials.count n ≤ 1
    rw [hset]
    by_cases hn : data.serial = n
    · obtain ⟨hnone, hnew⟩ := h.fresh n (by omega)
      rw [hnone, List.count_eq_zero.mpr hnew, decide_eq_true hn]
      exact Nat.le_refl 1
    · rw [decide_eq_false hn]
      exact h.once n
  · have hn : s.armed + 1 ≤ n := hn
    have hne : data.serial ≠ n := by omega
    obtain ⟨hnone, hnew⟩ := h.fresh n (by omega)
    refine ⟨?_, hnew⟩
    show (s.callers.set i _).countP _ = 0
    rw [hset, hnone, decide_eq_false hne]
    rfl

/-- The call writes the id of its arming, which then belongs to the timer. -/
theorem Steady.storing (h : Steady s) {i : ℕ} {timers : ℕ → Timer V} (hi : i < s.callers.length)
    (hc : s.callers[i] = .storing data) :
    Steady { s with
      timers
      stored := s.stored ++ [data]
      callers := s.callers.set i .returned } := by
  have hserials : (s.stored ++ [data]).map TickData.serial = s.serials ++ [data.serial] :=
    List.map_append
  have hmore : ∀ n ∈ s.serials, n ∈ (s.stored ++ [data]).map TickData.serial := by
    intro n hn
    rw [hserials]
    exact List.mem_append_left _ hn
  have hset : ∀ n, (s.callers.set i .returned).countP (Caller.arms n) +
      (decide (data.serial = n)).toNat = s.callers.countP (Caller.arms n) := by
    intro n
    have hset := List.countP_set_add (p := Caller.arms n) (x := (.returned : Caller V)) hi
    rw [hc] at hset
    exact hset
  refine { h with
    proper := fun c hmem => ?_
    once := fun n => ?_
    fresh := fun n hn => ?_
    requests := fun c hmem n hn => hmore n (h.requests c hmem n hn)
    gone := fun taken hmem n hn =>
      ⟨hmore n (h.gone taken hmem n hn).1, (h.gone taken hmem n hn).2⟩ }
  · obtain hmem | rfl := List.mem_or_eq_of_mem_set hmem
    · exact (h.proper c hmem).mono hmore
    · exact trivial
  · show (s.callers.set i _).countP _ + ((s.stored ++ [data]).map TickData.serial).count n ≤ 1
    have honce := h.once n
    have hcount := hset n
    rw [hserials, List.count_append, List.count_singleton]
    by_cases hn : data.serial = n
    · rw [decide_eq_true hn, Bool.toNat_true] at hcount
      rw [if_pos (beq_iff_eq.mpr hn)]
      omega
    · rw [decide_eq_false hn, Bool.toNat_false] at hcount
      rw [if_neg (fun heq => hn (beq_iff_eq.mp heq))]
      omega
  · obtain ⟨hnone, hnew⟩ := h.fresh n hn
    have hcount := hset n
    have hne : data.serial ≠ n := by
      intro heq
      rw [hnone, decide_eq_true heq, Bool.toNat_true] at hcount
      omega
    refine ⟨Nat.eq_zero_of_le_zero (by
      show (s.callers.set i _).countP _ ≤ 0
      omega), fun hmem => ?_⟩
    have hmem : n ∈ (s.stored ++ [data]).map TickData.serial := hmem
    rw [hserials] at hmem
    exact (List.mem_append.mp hmem).elim hnew fun heq => hne (List.mem_singleton.mp heq).symm

theorem Steady.caller (h : Steady s) {i : ℕ} (hs : s.step (.caller i) = some s') : Steady s' := by
  obtain ⟨hi, ⟨s₁, c'⟩, hnext, rfl⟩ := step_caller hs
  -- a call that leaves the lists alone
  have hquiet : ∀ {c' : Caller V} {timers : ℕ → Timer V}, c'.Proper s.serials →
      (∀ n, c'.arms n = s.callers[i].arms n) →
      Steady { s with timers, callers := s.callers.set i c' } := fun hproper harms =>
    h.setCaller hi (List.append_nil _).symm (List.append_nil _).symm
      (fun _ hmem => absurd hmem List.not_mem_nil) (fun _ hmem => absurd hmem List.not_mem_nil)
      hproper harms
  have hproper := h.proper _ (List.getElem_mem hi)
  cases hc : s.callers[i] with
  | reset t duration param | stop t =>
    rw [hc] at hnext
    obtain ⟨rfl, rfl⟩ := Prod.mk.inj (Option.some.inj hnext)
    exact hquiet ⟨_, fun n => mem_serials_of_armingsOf, rfl⟩ fun n => by rw [hc]; rfl
  | cancelling g t what =>
    rw [hc] at hnext hproper
    obtain ⟨cancel, hcancels, hpushing⟩ := hproper
    unfold Service.stepCaller at hnext
    cases hended : g.ended with
    | some v =>
      simp only [hended] at hnext
      cases what with
      | some what =>
        obtain ⟨rfl, rfl⟩ := Prod.mk.inj (Option.some.inj hnext)
        exact hquiet trivial fun n => by rw [hc]; rfl
      | none =>
        obtain ⟨rfl, rfl⟩ := Prod.mk.inj (Option.some.inj hnext)
        exact hquiet trivial fun n => by rw [hc]; rfl
    | none =>
      simp only [hended] at hnext
      obtain ⟨⟨x, g'⟩, hg, heq⟩ := Option.map_eq_some_iff.mp hnext
      obtain ⟨rfl, rfl⟩ := Prod.mk.inj heq
      obtain ⟨hpushing', hl | hl⟩ := SharedList.step_pushing hg hpushing
      · exact h.setCaller hi (List.append_nil _).symm (hl.trans (List.append_nil _).symm)
          (fun _ hmem => absurd hmem List.not_mem_nil) (fun _ hmem => absurd hmem List.not_mem_nil)
          ⟨cancel, hcancels, hpushing'⟩ fun n => by rw [hc]; rfl
      · refine h.setCaller hi (List.append_nil _).symm hl
          (fun _ hmem => absurd hmem List.not_mem_nil) (fun c hmem => ?_)
          ⟨cancel, hcancels, hpushing'⟩ fun n => by rw [hc]; rfl
        rw [List.mem_singleton.mp hmem]
        exact hcancels
  | setting t duration param | clearing t =>
    rw [hc] at hnext
    obtain ⟨rfl, rfl⟩ := Prod.mk.inj (Option.some.inj hnext)
    exact hquiet trivial fun n => by rw [hc]; rfl
  | after t duration =>
    rw [hc] at hnext
    obtain ⟨rfl, rfl⟩ := Prod.mk.inj (Option.some.inj hnext)
    exact h.after hi hc rfl
  | arming g data =>
    rw [hc] at hnext hproper
    unfold Service.stepCaller at hnext
    cases hended : g.ended with
    | some v =>
      simp only [hended] at hnext
      obtain ⟨rfl, rfl⟩ := Prod.mk.inj (Option.some.inj hnext)
      exact hquiet trivial fun n => by rw [hc]; rfl
    | none =>
      simp only [hended] at hnext
      obtain ⟨⟨x, g'⟩, hg, heq⟩ := Option.map_eq_some_iff.mp hnext
      obtain ⟨rfl, rfl⟩ := Prod.mk.inj heq
      obtain ⟨hpushing', hl | hl⟩ := SharedList.step_pushing hg hproper
      · exact h.setCaller hi (hl.trans (List.append_nil _).symm) (List.append_nil _).symm
          (fun _ hmem => absurd hmem List.not_mem_nil) (fun _ hmem => absurd hmem List.not_mem_nil)
          hpushing' fun n => by rw [hc]; rfl
      · refine h.setCaller hi hl (List.append_nil _).symm (fun data' hmem => ?_)
          (fun _ hmem => absurd hmem List.not_mem_nil) hpushing' fun n => by rw [hc]; rfl
        -- the number of the arming belongs to this call
        rw [List.mem_singleton.mp hmem]
        have hmine : 0 < s.callers.countP (Caller.arms data.serial) :=
          List.countP_pos_iff.mpr ⟨_, List.getElem_mem hi, by rw [hc]; exact decide_eq_true rfl⟩
        have honce := h.once data.serial
        exact List.count_eq_zero.mp (by omega)
  | storing data =>
    rw [hc] at hnext
    obtain ⟨rfl, rfl⟩ := Prod.mk.inj (Option.some.inj hnext)
    exact h.storing hi hc
  | returned =>
    rw [hc] at hnext
    exact absurd hnext (by simp [Service.stepCaller])

/-! ## The loop -/

/-- The loop goes on with what was pending and with the requests that were there. -/
theorem Steady.setRun (h : Steady s) {run : Run} {afterList : SharedList TickData}
    {cancelList : SharedList Cancel} {secondsTickMap : GoMap ℤ TickData} {d due : ℤ}
    (hpopping : run.Popping)
    (hrequests : ∀ c ∈ run.request.toList ++ cancelList.l,
      c ∈ s.run.request.toList ++ s.cancelList.l)
    (hpending : ∀ data, data ∈ run.inHand.toList ++ afterList.l ∨
      (∃ id, secondsTickMap.lookup id = some data) ∨ data ∈ run.left → s.Pending data) :
    Steady { s with run, afterList, cancelList, secondsTickMap, d, due } :=
  { h with
    popping := hpopping
    requests := fun c hc => h.requests c (hrequests c hc)
    gone := fun taken hmem n hn =>
      ⟨(h.gone taken hmem n hn).1, fun data hdata =>
        (h.gone taken hmem n hn).2 data (hpending data hdata)⟩ }

/-- The loop goes on with no arming in its hands and nothing to visit. -/
theorem Steady.setIdle (h : Steady s) {run : Run} {afterList : SharedList TickData}
    {cancelList : SharedList Cancel} {secondsTickMap : GoMap ℤ TickData} {d due : ℤ}
    (hpopping : run.Popping)
    (hrequests : ∀ c ∈ run.request.toList ++ cancelList.l,
      c ∈ s.run.request.toList ++ s.cancelList.l)
    (hidle : run.inHand = none ∧ run.left = [])
    (hlist : ∀ data ∈ afterList.l, data ∈ s.afterList.l)
    (hmap : ∀ id data, secondsTickMap.lookup id = some data → s.Pending data) :
    Steady { s with run, afterList, cancelList, secondsTickMap, d, due } := by
  refine h.setRun hpopping hrequests fun data hdata => ?_
  rw [hidle.1, hidle.2] at hdata
  obtain hdata | ⟨id, hid⟩ | hdata := hdata
  · exact .inl (List.mem_append_right _ (hlist data hdata))
  · exact hmap id data hid
  · exact absurd hdata List.not_mem_nil

/-- An event that is neither a cancel nor the tick of a cancelled arming, nor the discard of an
arming of another timer. -/
theorem Steady.addEvents (h : Steady s) {events : List Event}
    (hcancel : ∀ cancels, .cancelTaken cancels ∉ events)
    (hticked : ∀ data, .ticked data ∈ events → s.Pending data)
    (hkept : ∀ old new, .discarded old new ∈ events → old.ticker = new.ticker) :
    Steady { s with log := s.log ++ events } :=
  { h with
    gone := fun taken hmem => (List.mem_append.mp hmem).elim (h.gone taken)
      fun hnew => absurd hnew (hcancel taken)
    cancelled := by
      refine List.pairwise_append.mpr ⟨h.cancelled, ?_, ?_⟩
      · refine List.pairwise_of_forall_mem_list fun e he _ _ taken _ heq => ?_
        exact absurd (heq ▸ he) (hcancel taken)
      · rintro e he e' he' taken data rfl rfl hn
        exact (h.gone taken he _ hn).2 data (hticked data he') rfl
    kept := fun old new hmem => (List.mem_append.mp hmem).elim (h.kept old new) (hkept old new) }

/-- A cancel is taken, and none of its armings is left. -/
theorem Steady.addCancel (h : Steady s) {cancels : List ℕ}
    (hserials : ∀ n ∈ cancels, n ∈ s.serials)
    (hgone : ∀ n ∈ cancels, ∀ data, s.Pending data → data.serial ≠ n) :
    Steady { s with log := s.log ++ [.cancelTaken cancels] } :=
  { h with
    gone := fun taken hmem n hn => by
      obtain hmem | hmem := List.mem_append.mp hmem
      · exact h.gone taken hmem n hn
      · rw [Event.cancelTaken.inj (List.mem_singleton.mp hmem)] at hn
        exact ⟨hserials n hn, hgone n hn⟩
    cancelled := by
      refine List.pairwise_append.mpr ⟨h.cancelled, List.pairwise_singleton _ _, ?_⟩
      rintro e - e' he' taken data - rfl
      exact absurd (List.mem_singleton.mp he') (by simp)
    kept := fun old new hmem => (List.mem_append.mp hmem).elim (h.kept old new)
      fun hnew => absurd (List.mem_singleton.mp hnew) (by simp) }

theorem Steady.sweep (h : Steady s) {entries : List (Σ _ : ℤ, TickData)}
    (hs : s.step (.after entries) = some s') : Steady s' := by
  rw [Service.step] at hs
  split at hs
  · split at hs
    · next hentries =>
      obtain rfl := Option.some.inj hs
      refine h.setRun trivial (fun c hc => List.mem_append_right _ hc) fun data hdata => ?_
      obtain hdata | hdata | hdata := hdata
      · exact .inl (List.mem_append_right _ hdata)
      · exact .inr (.inl hdata)
      · obtain ⟨e, he, rfl⟩ := List.mem_map.mp hdata
        refine .inr (.inl ⟨e.1, Finmap.mem_lookup_iff.mpr ?_⟩)
        rw [← hentries.2]
        exact he
    · exact absurd hs (by simp)
  · exact absurd hs (by simp)

theorem Steady.receiveAfter (h : Steady s) (hs : s.step .receiveAfter = some s') : Steady s' := by
  rw [Service.step] at hs
  split at hs
  · obtain ⟨x, hx, rfl⟩ := Option.map_eq_some_iff.mp hs
    exact h.setIdle trivial (fun c hc => List.mem_append_right _ hc) ⟨rfl, rfl⟩
      (fun data hdata => SharedList.receive_l hx ▸ hdata)
      fun id data hid => .inr (.inl ⟨id, hid⟩)
  · exact absurd hs (by simp)

theorem Steady.receiveCancel (h : Steady s) (hs : s.step .receiveCancel = some s') :
    Steady s' := by
  rw [Service.step] at hs
  split at hs
  · obtain ⟨x, hx, rfl⟩ := Option.map_eq_some_iff.mp hs
    refine h.setIdle trivial (fun c hc => ?_) ⟨rfl, rfl⟩ (fun _ => id)
      fun id data hid => .inr (.inl ⟨id, hid⟩)
    have hc : c ∈ x.l := hc
    rw [SharedList.receive_l hx] at hc
    exact List.mem_append_right _ hc
  · exact absurd hs (by simp)

theorem Steady.sweeping (h : Steady s) {last : ℤ} {left : List TickData}
    (hrun : s.run = .sweeping last left) (hs : s.step .run = some s') : Steady s' := by
  have hleft : ∀ data ∈ left, s.Pending data := by
    intro data hdata
    refine .inr (.inr ?_)
    rw [hrun]
    exact hdata
  have hlist : ∀ data ∈ s.afterList.l, s.Pending data := fun data hdata =>
    .inl (List.mem_append_right _ hdata)
  have hs : s.stepRun = some s' := hs
  unfold Service.stepRun at hs
  rw [hrun] at hs
  cases left with
  | nil =>
    obtain rfl := Option.some.inj hs
    exact h.setIdle trivial (fun c hc => List.mem_append_right _ hc) ⟨rfl, rfl⟩ (fun _ => id)
      fun id data hid => .inr (.inl ⟨id, hid⟩)
  | cons data left =>
    simp only at hs
    split at hs
    · obtain rfl := Option.some.inj hs
      have hticked : Steady { s with log := s.log ++ [.ticked data] } := by
        refine h.addEvents (fun taken hmem => ?_) (fun data' hmem => ?_) fun old new hmem => ?_
        · exact absurd (List.mem_singleton.mp hmem) (by simp)
        · rw [Event.ticked.inj (List.mem_singleton.mp hmem)]
          exact hleft data List.mem_cons_self
        · exact absurd (List.mem_singleton.mp hmem) (by simp)
      refine hticked.setRun trivial (fun c hc => List.mem_append_right _ hc) fun data' hdata => ?_
      obtain hdata | ⟨id, hid⟩ | hdata := hdata
      · exact hlist data' hdata
      · exact .inr (.inl ⟨id, (GoMap.of_lookup_erase hid).2⟩)
      · exact hleft data' (List.mem_cons_of_mem _ hdata)
    · obtain rfl := Option.some.inj hs
      refine h.setRun trivial (fun c hc => List.mem_append_right _ hc) fun data' hdata => ?_
      obtain hdata | hdata | hdata := hdata
      · exact hlist data' hdata
      · exact .inr (.inl hdata)
      · exact hleft data' (List.mem_cons_of_mem _ hdata)

theorem Steady.takingAfter (h : Steady s) {g : SharedList.Goroutine TickData Unit}
    (hrun : s.run = .takingAfter g) (hok : Guarded s .run) (hs : s.step .run = some s') :
    Steady s' := by
  have hpopping := h.popping
  have hs : s.stepRun = some s' := hs
  unfold Service.stepRun at hs
  unfold Guarded at hok
  rw [hrun] at hs hpopping hok
  simp only at hs
  cases hended : g.ended with
  | none =>
    simp only [hended] at hs
    obtain ⟨⟨x, g'⟩, hg, rfl⟩ := Option.map_eq_some_iff.mp hs
    have hsame : g'.taken.toList ++ x.l = g.taken.toList ++ s.afterList.l :=
      (SharedList.step_takes hg (SharedList.Goroutine.Popping.takes hpopping)).2
    have hfound : g'.Popping := SharedList.step_popping hg hpopping fun woken heq => by
      subst heq
      exact hok
    refine h.setRun hfound (fun c hc => List.mem_append_right _ hc) fun data hdata => ?_
    obtain hdata | hdata | hdata := hdata
    · have hdata : data ∈ g'.taken.toList ++ x.l := hdata
      rw [hsame] at hdata
      refine .inl ?_
      rw [hrun]
      exact hdata
    · exact .inr (.inl hdata)
    · exact absurd hdata List.not_mem_nil
  | some v =>
    obtain rfl := SharedList.Goroutine.ended_eq_some hended
    simp only [hended] at hs
    cases v with
    | none => exact hpopping.elim
    | some data =>
      obtain rfl := Option.some.inj hs
      have hinHand : s.Pending data := by
        refine .inl ?_
        rw [hrun]
        exact List.mem_cons_self
      have hdiscarded : Steady { s with
          log := s.log ++
            ((s.secondsTickMap.lookup data.id).map (Event.discarded · data)).toList } := by
        have hmem : ∀ {e : Event}, e ∈ ((s.secondsTickMap.lookup data.id).map
            (Event.discarded · data)).toList →
            ∃ old, s.secondsTickMap.lookup data.id = some old ∧ e = .discarded old data := by
          intro e he
          obtain ⟨old, hold, rfl⟩ := Option.map_eq_some_iff.mp (Option.mem_toList.mp he)
          exact ⟨old, hold, rfl⟩
        refine h.addEvents (fun taken he => ?_) (fun data' he => ?_) fun old new he => ?_
        · obtain ⟨_, -, heq⟩ := hmem he
          exact absurd heq (by simp)
        · obtain ⟨_, -, heq⟩ := hmem he
          exact absurd heq (by simp)
        · obtain ⟨old', hold, heq⟩ := hmem he
          obtain ⟨rfl, rfl⟩ := Event.discarded.inj heq
          exact hok old hold
      refine hdiscarded.setIdle trivial (fun c hc => List.mem_append_right _ hc) ⟨rfl, rfl⟩
        (fun _ => id) fun id data' hid => ?_
      rw [GoMap.lookup_insert_eq] at hid
      split at hid
      · rw [← Option.some.inj hid]
        exact hinHand
      · exact .inr (.inl ⟨id, hid⟩)

theorem Steady.takingCancel (h : Steady s) {g : SharedList.Goroutine Cancel Unit}
    (hrun : s.run = .takingCancel g) (hok : Guarded s .run) (hs : s.step .run = some s') :
    Steady s' := by
  have hpopping := h.popping
  have hrequests := h.requests
  have hs : s.stepRun = some s' := hs
  unfold Service.stepRun at hs
  unfold Guarded at hok
  rw [hrun] at hs hpopping hok hrequests
  simp only at hs
  cases hended : g.ended with
  | none =>
    simp only [hended] at hs
    obtain ⟨⟨x, g'⟩, hg, rfl⟩ := Option.map_eq_some_iff.mp hs
    have hsame : g'.taken.toList ++ x.l = g.taken.toList ++ s.cancelList.l :=
      (SharedList.step_takes hg (SharedList.Goroutine.Popping.takes hpopping)).2
    have hfound : g'.Popping := SharedList.step_popping hg hpopping fun woken heq => by
      subst heq
      exact hok
    refine h.setIdle hfound (fun c hc => ?_) ⟨rfl, rfl⟩ (fun _ => id)
      fun id data hid => .inr (.inl ⟨id, hid⟩)
    have hc : c ∈ g'.taken.toList ++ x.l := hc
    rw [hsame] at hc
    rw [hrun]
    exact hc
  | some v =>
    obtain rfl := SharedList.Goroutine.ended_eq_some hended
    simp only [hended] at hs
    cases v with
    | none => exact hpopping.elim
    | some c =>
      obtain rfl := Option.some.inj hs
      have herased : Steady { s with
          run := .select
          secondsTickMap := s.secondsTickMap.erase c.id
          due := s.clock + s.d } :=
        h.setIdle trivial (fun c hc => List.mem_append_right _ hc) ⟨rfl, rfl⟩ (fun _ => id)
          fun id data hid => .inr (.inl ⟨id, (GoMap.of_lookup_erase hid).2⟩)
      refine herased.addCancel (hrequests c List.mem_cons_self) fun n hn data hdata heq => ?_
      obtain ⟨hlist, hmap⟩ := hok n hn
      obtain hdata | ⟨id, hid⟩ | hdata := hdata
      · exact hlist data hdata heq
      · obtain ⟨hne, hid⟩ := GoMap.of_lookup_erase hid
        exact hne (hmap id data hid heq)
      · exact absurd hdata List.not_mem_nil

theorem Steady.step (h : Steady s) (hok : Guarded s t) (hs : s.step t = some s') : Steady s' := by
  cases t with
  | pass duration =>
    obtain rfl := Option.some.inj hs
    exact { h with }
  | call c => exact h.call hs
  | caller i => exact h.caller hs
  | after entries => exact h.sweep hs
  | receiveAfter => exact h.receiveAfter hs
  | receiveCancel => exact h.receiveCancel hs
  | run =>
    cases hrun : s.run with
    | select | panicked =>
      have hs : s.stepRun = some s' := hs
      unfold Service.stepRun at hs
      rw [hrun] at hs
      exact absurd hs (by simp)
    | sweeping last left => exact h.sweeping hrun hs
    | takingAfter g => exact h.takingAfter hrun hok hs
    | takingCancel g => exact h.takingCancel hrun hok hs

end Ticker
end MqttBroker
