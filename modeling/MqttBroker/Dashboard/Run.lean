import Mathlib.Algebra.Order.BigOperators.Group.List
import Mathlib.Algebra.Ring.Int.Defs
import Mathlib.Logic.Function.Basic
import MqttBroker.Session.State

/-!
# The rates of the dashboard

`run` of `dashboard/api` samples four counters once a second. A sample divides what a counter
has grown by through the whole seconds since the last sample, adds a positive rate to the total
of its counter, and publishes a total divided by the number of samples. The counters are written
by other goroutines all the time, so what a sample reads for a rate and what it keeps for the
next one are two readings.
-/

namespace MqttBroker
namespace Dashboard

/-- The counters of `dashboard.Overview` that are sampled. -/
inductive Counter
  | sentMsgCnt
  | recvMsgCnt
  | sentBytes
  | recvBytes
deriving DecidableEq

/-- `time.Time.Sub`, which saturates. -/
def sub (t u : ℤ) : ℤ := max (-2 ^ 63) (min (2 ^ 63 - 1) (t - u))

/-- `AtmI64(t.Sub(u).Seconds())`. -/
def seconds (t u : ℤ) : ℤ := (sub t u).tdiv second

/-- What one turn of the loop reads: the clock for `tm`, the counters for the rates, the clock
for `lastPerTime`, the counters for the next turn, and the clock when the timer is reset. -/
structure Sample where
  now : ℤ
  seen : Counter → Int64
  perTime : ℤ
  last : Counter → Int64
  reset : ℤ

/-- The variables of `run` and what it has published. -/
structure Averages where
  last : Counter → Int64
  lastPerTime : ℤ
  perCnt : Int64
  totall : Counter → Int64
  perSeconds : Counter → Int64

/-- The variables before the loop. -/
def Averages.start (last : Counter → Int64) (lastPerTime : ℤ) (perSeconds : Counter → Int64) :
    Averages :=
  { last, lastPerTime, perCnt := 0, totall := fun _ => 0, perSeconds }

/-- A rate; the divisor is not 0. -/
def rate (last : Counter → Int64) (lastPerTime : ℤ) (x : Sample) (X : Counter) : Int64 :=
  (x.seen X - last X) / Int64.ofInt (seconds x.now lastPerTime)

/-- One of the four blocks: a positive rate is added to the total of `X`, and the total of `Y` is
what the figure of `X` is computed from. -/
def block (X Y : Counter) (r : Int64) (s : Averages) : Averages :=
  if r > 0 then
    let totall := Function.update s.totall X (s.totall X + r)
    { s with totall, perSeconds := Function.update s.perSeconds X (totall Y / s.perCnt) }
  else s

/-- One turn of the loop; `none` is the panic of a division by zero. -/
def turn (x : Sample) (s : Averages) : Option Averages :=
  if seconds x.now s.lastPerTime = 0 then none
  else
    let sps := rate s.last s.lastPerTime x .sentMsgCnt
    let rps := rate s.last s.lastPerTime x .recvMsgCnt
    let sbps := rate s.last s.lastPerTime x .sentBytes
    let rbps := rate s.last s.lastPerTime x .recvBytes
    let s := { s with perCnt := s.perCnt + 1 }
    let s := block .sentMsgCnt .sentMsgCnt sps s
    let s := block .recvMsgCnt .recvMsgCnt rps s
    let s := block .sentBytes .recvBytes sbps s
    let s := block .recvBytes .recvBytes rbps s
    some { s with lastPerTime := x.perTime, last := x.last }

/-- The loop. -/
def run : List Sample → Averages → Option Averages
  | [], s => some s
  | x :: rest, s => (turn x s).bind (run rest)

/-! ## What the figures should be -/

/-- The rates of the samples, in order. -/
def rates (last : Counter → Int64) (lastPerTime : ℤ) : List Sample → List (Counter → Int64)
  | [] => []
  | x :: rest => rate last lastPerTime x :: rates x.last x.perTime rest

/-- The sum of the positive ones. -/
def positiveSum (l : List Int64) : Int64 := l.foldl (fun sum r => if r > 0 then sum + r else sum) 0

/-- The average of a counter. -/
def average (X : Counter) (l : List (Counter → Int64)) : Int64 :=
  positiveSum (l.map fun r => r X) / Int64.ofNat l.length

/-- The whole seconds that the samples divide by. -/
def divisors (lastPerTime : ℤ) : List Sample → List ℤ
  | [] => []
  | x :: rest => seconds x.now lastPerTime :: divisors x.perTime rest

/-! ## One turn -/

variable {x : Sample} {s s' : Averages} {X Y : Counter} {r : Int64}

theorem totall_block : (block X Y r s).totall =
    Function.update s.totall X (if r > 0 then s.totall X + r else s.totall X) := by
  unfold block
  split
  · rfl
  · exact (Function.update_eq_self X s.totall).symm

theorem totall_block_of_ne {Z : Counter} (h : Z ≠ X) :
    (block X Y r s).totall Z = s.totall Z := by
  rw [totall_block, Function.update_of_ne h]

theorem perCnt_block : (block X Y r s).perCnt = s.perCnt := by
  unfold block
  split
  · rfl
  · rfl

theorem perSeconds_block_of_pos (h : r > 0) : (block X Y r s).perSeconds X =
    (block X Y r s).totall Y / s.perCnt := by
  unfold block
  rw [if_pos h]
  exact Function.update_self ..

theorem perSeconds_block_of_ne {Z : Counter} (h : Z ≠ X) :
    (block X Y r s).perSeconds Z = s.perSeconds Z := by
  unfold block
  split
  · exact Function.update_of_ne h ..
  · rfl

/-- What a turn leaves: every total has its own positive rates, and the figure of a positive rate
is computed from the total of its counter, except that the one of `SentBytes` is computed from
the total of `RecvBytes`, to which this turn has not added yet. -/
structure Turned (x : Sample) (s s' : Averages) : Prop where
  seconds_ne : seconds x.now s.lastPerTime ≠ 0
  last : s'.last = x.last
  lastPerTime : s'.lastPerTime = x.perTime
  perCnt : s'.perCnt = s.perCnt + 1
  totall : ∀ X, s'.totall X = if rate s.last s.lastPerTime x X > 0
    then s.totall X + rate s.last s.lastPerTime x X else s.totall X
  perSeconds : ∀ X, rate s.last s.lastPerTime x X > 0 → s'.perSeconds X =
    (if X = .sentBytes then s.totall .recvBytes else s'.totall X) / s'.perCnt

theorem turn_turned (h : turn x s = some s') : Turned x s s' := by
  unfold turn at h
  by_cases hzero : seconds x.now s.lastPerTime = 0
  · rw [if_pos hzero] at h
    exact absurd h (by simp)
  rw [if_neg hzero] at h
  let r := rate s.last s.lastPerTime x
  let s₀ : Averages := { s with perCnt := s.perCnt + 1 }
  let s₁ := block .sentMsgCnt .sentMsgCnt (r .sentMsgCnt) s₀
  let s₂ := block .recvMsgCnt .recvMsgCnt (r .recvMsgCnt) s₁
  let s₃ := block .sentBytes .recvBytes (r .sentBytes) s₂
  let s₄ := block .recvBytes .recvBytes (r .recvBytes) s₃
  have hs' : s' = { s₄ with lastPerTime := x.perTime, last := x.last } := (Option.some.inj h).symm
  have hcnt₁ : s₁.perCnt = s.perCnt + 1 := perCnt_block
  have hcnt₂ : s₂.perCnt = s.perCnt + 1 := perCnt_block.trans hcnt₁
  have hcnt₃ : s₃.perCnt = s.perCnt + 1 := perCnt_block.trans hcnt₂
  have hcnt₄ : s₄.perCnt = s.perCnt + 1 := perCnt_block.trans hcnt₃
  have ht₁ : s₁.totall = Function.update s₀.totall _ _ := totall_block
  have ht₂ : s₂.totall = Function.update s₁.totall _ _ := totall_block
  have ht₃ : s₃.totall = Function.update s₂.totall _ _ := totall_block
  have ht₄ : s₄.totall = Function.update s₃.totall _ _ := totall_block
  have htotall : ∀ X, s'.totall X = if r X > 0 then s.totall X + r X else s.totall X := by
    intro X
    rw [hs']
    show s₄.totall X = _
    rw [ht₄, ht₃, ht₂, ht₁]
    cases X with
    | sentMsgCnt | recvMsgCnt | sentBytes | recvBytes => simp [s₀]
  refine ⟨hzero, by rw [hs'], by rw [hs'], by rw [hs', hcnt₄], htotall, fun X hX => ?_⟩
  -- a block leaves the totals and the figures of the other counters alone
  have hk₁ : ∀ Z ≠ .sentMsgCnt, s₁.totall Z = s₀.totall Z := fun _ => totall_block_of_ne
  have hk₂ : ∀ Z ≠ .recvMsgCnt, s₂.totall Z = s₁.totall Z := fun _ => totall_block_of_ne
  have hk₃ : ∀ Z ≠ .sentBytes, s₃.totall Z = s₂.totall Z := fun _ => totall_block_of_ne
  have hk₄ : ∀ Z ≠ .recvBytes, s₄.totall Z = s₃.totall Z := fun _ => totall_block_of_ne
  have hp₂ : ∀ Z ≠ .recvMsgCnt, s₂.perSeconds Z = s₁.perSeconds Z := fun _ => perSeconds_block_of_ne
  have hp₃ : ∀ Z ≠ .sentBytes, s₃.perSeconds Z = s₂.perSeconds Z := fun _ => perSeconds_block_of_ne
  have hp₄ : ∀ Z ≠ .recvBytes, s₄.perSeconds Z = s₃.perSeconds Z := fun _ => perSeconds_block_of_ne
  rw [hs']
  show s₄.perSeconds X = (if X = .sentBytes then s₀.totall .recvBytes else s₄.totall X) / s₄.perCnt
  rw [hcnt₄]
  cases X with
  | sentMsgCnt =>
    rw [hp₄ _ (by decide), hp₃ _ (by decide), hp₂ _ (by decide), if_neg (by decide),
      hk₄ _ (by decide), hk₃ _ (by decide), hk₂ _ (by decide)]
    exact perSeconds_block_of_pos hX
  | recvMsgCnt =>
    rw [hp₄ _ (by decide), hp₃ _ (by decide), if_neg (by decide), hk₄ _ (by decide),
      hk₃ _ (by decide), ← hcnt₁]
    exact perSeconds_block_of_pos hX
  | sentBytes =>
    rw [hp₄ _ (by decide), if_pos rfl, ← hk₁ _ (by decide), ← hk₂ _ (by decide),
      ← hk₃ _ (by decide), ← hcnt₂]
    exact perSeconds_block_of_pos hX
  | recvBytes =>
    rw [if_neg (by decide), ← hcnt₃]
    exact perSeconds_block_of_pos hX

/-! ## All turns -/

theorem int64_ofNat_succ (n : ℕ) : Int64.ofNat (n + 1) = Int64.ofNat n + 1 := by
  refine Int64.toBitVec.inj ?_
  rw [Int64.toBitVec_add]
  exact BitVec.ofNat_add n 1

theorem positiveSum_concat (l : List Int64) (r : Int64) : positiveSum (l ++ [r]) =
    if r > 0 then positiveSum l + r else positiveSum l := by
  rw [positiveSum, List.foldl_append]
  rfl

theorem run_append (xs ys : List Sample) : ∀ s, run (xs ++ ys) s = (run xs s).bind (run ys) := by
  induction xs with
  | nil => exact fun _ => rfl
  | cons x xs ih =>
    intro s
    rw [List.cons_append, run, run]
    cases turn x s with
    | none => rfl
    | some s => exact ih s

theorem run_concat (xs : List Sample) (x : Sample) (s : Averages) :
    run (xs ++ [x]) s = (run xs s).bind (turn x) := by
  rw [run_append]
  refine congrArg (Option.bind (run xs s)) (funext fun s => ?_)
  rw [run]
  cases turn x s with | none | some s => rfl

/-- What the variables hold after the samples. -/
structure Ran (last : Counter → Int64) (lastPerTime : ℤ) (xs : List Sample) (s : Averages) :
    Prop where
  perCnt : s.perCnt = Int64.ofNat (rates last lastPerTime xs).length
  totall : ∀ X, s.totall X = positiveSum ((rates last lastPerTime xs).map fun r => r X)
  rates : ∀ x, rates last lastPerTime (xs ++ [x]) =
    rates last lastPerTime xs ++ [rate s.last s.lastPerTime x]

variable {last perSeconds : Counter → Int64} {lastPerTime : ℤ}

theorem rates_append (xs : List Sample) (x y : Sample) : ∀ (last : Counter → Int64) (t : ℤ),
    rates last t (xs ++ [x] ++ [y]) = rates last t (xs ++ [x]) ++ [rate x.last x.perTime y] := by
  induction xs with
  | nil => exact fun _ _ => rfl
  | cons z xs ih =>
    intro last t
    exact congrArg (rate last t z :: ·) (ih z.last z.perTime)

theorem run_ran (xs : List Sample) : ∀ {s : Averages},
    run xs (.start last lastPerTime perSeconds) = some s → Ran last lastPerTime xs s := by
  induction xs using List.reverseRecOn with
  | nil =>
    intro s h
    obtain rfl := Option.some.inj h
    exact ⟨rfl, fun _ => rfl, fun _ => rfl⟩
  | append_singleton xs x ih =>
    intro s' h
    rw [run_concat] at h
    obtain ⟨s, hs, hturn⟩ := Option.bind_eq_some_iff.mp h
    have hran := ih hs
    have hturned := turn_turned hturn
    refine ⟨?_, fun X => ?_, fun y => ?_⟩
    · rw [hturned.perCnt, hran.perCnt, hran.rates x, List.length_append, List.length_singleton,
        int64_ofNat_succ]
    · rw [hturned.totall, hran.rates x, List.map_append, List.map_singleton, positiveSum_concat,
        hran.totall]
    · rw [rates_append, hturned.last, hturned.lastPerTime]

theorem length_rates (xs : List Sample) : ∀ (last : Counter → Int64) (t : ℤ),
    (rates last t xs).length = xs.length := by
  induction xs with
  | nil => exact fun _ _ => rfl
  | cons x xs ih => exact fun _ _ => congrArg (· + 1) (ih x.last x.perTime)

/-- **After a sample with a positive rate, the figure of a counter is its own average, except for
`SentBytes`, whose figure is computed from the total of `RecvBytes`**: it is right only where the
positive rates of `RecvBytes` before this sample come to the same average. -/
theorem perSeconds_iff (xs : List Sample) (x : Sample) {s : Averages} {X : Counter}
    {r : Counter → Int64}
    (hrun : run (xs ++ [x]) (.start last lastPerTime perSeconds) = some s)
    (hlast : (rates last lastPerTime (xs ++ [x])).getLast? = some r) (hpos : r X > 0) :
    s.perSeconds X = average X (rates last lastPerTime (xs ++ [x])) ↔
      X ≠ .sentBytes ∨
        positiveSum ((rates last lastPerTime xs).map fun r => r .recvBytes) /
            Int64.ofNat (xs.length + 1) =
          average .sentBytes (rates last lastPerTime (xs ++ [x])) := by
  have hafter := run_ran _ hrun
  rw [run_concat] at hrun
  obtain ⟨s₀, hs₀, hturn⟩ := Option.bind_eq_some_iff.mp hrun
  have hran := run_ran _ hs₀
  have hturned := turn_turned hturn
  obtain rfl : rate s₀.last s₀.lastPerTime x = r := by
    rw [hran.rates, List.getLast?_concat] at hlast
    exact Option.some.inj hlast
  have hcnt : s.perCnt = Int64.ofNat (xs.length + 1) := by
    rw [hafter.perCnt, length_rates, List.length_append, List.length_singleton]
  have haverage : average X (rates last lastPerTime (xs ++ [x])) = s.totall X / s.perCnt := by
    rw [average, hafter.totall, hafter.perCnt]
  rw [hturned.perSeconds X hpos]
  by_cases hX : X = .sentBytes
  · subst hX
    rw [if_pos rfl, hran.totall, hcnt, or_iff_right (not_not_intro rfl)]
  · rw [if_neg hX, haverage]
    exact iff_of_true rfl (.inl hX)

/-- A second in which 100 messages and 100 bytes are sent, and nothing is received. -/
def sending : Sample where
  now := second
  seen
    | .sentMsgCnt | .sentBytes => 100
    | .recvMsgCnt | .recvBytes => 0
  perTime := second
  last := fun _ => 0
  reset := second

theorem perSeconds_iff_sending : ∃ s,
    run [sending] (.start (fun _ => 0) 0 fun _ => 0) = some s ∧
      s.perSeconds .sentMsgCnt = average .sentMsgCnt (rates (fun _ => 0) 0 [sending]) :=
  ⟨_, rfl, (perSeconds_iff (X := .sentMsgCnt) [] sending rfl rfl (by decide)).mpr
    (.inl (by decide))⟩

/-- The figure of `SentBytes` is 0. -/
theorem perSeconds_ne_sending : ∃ s,
    run [sending] (.start (fun _ => 0) 0 fun _ => 0) = some s ∧ s.perSeconds .sentBytes = 0 ∧
      average .sentBytes (rates (fun _ => 0) 0 [sending]) = 100 :=
  ⟨_, rfl, by decide, by decide⟩

/-! ## Counters that only grow -/

/-- The sum of the positive ones, without an overflow. -/
def exactSum (l : List Int64) : ℤ := ((l.map Int64.toInt).filter (0 < ·)).sum

/-- The counters have only grown, from a value that is not negative, and the samples lie whole
seconds apart. -/
def Rising (X : Counter) (last : Counter → Int64) (lastPerTime : ℤ) : List Sample → Prop
  | [] => True
  | x :: rest => 0 ≤ (last X).toInt ∧ (last X).toInt ≤ (x.seen X).toInt ∧
      (x.seen X).toInt ≤ (x.last X).toInt ∧ 1 ≤ seconds x.now lastPerTime ∧
      Rising X x.last x.perTime rest

theorem one_le_seconds_iff {t u : ℤ} : 1 ≤ seconds t u ↔ second ≤ t - u := by
  have hsub : second ≤ sub t u ↔ second ≤ t - u := by
    unfold sub second
    omega
  rw [← hsub]
  unfold seconds second
  by_cases hnonneg : 0 ≤ sub t u
  · rw [Int.tdiv_eq_ediv_of_nonneg hnonneg]
    omega
  · have hneg : 0 ≤ (-sub t u).tdiv 1000000000 := Int.tdiv_nonneg (by omega) (by decide)
    rw [Int.neg_tdiv] at hneg
    omega

/-- The conversion of the divisor is exact. -/
theorem toInt_ofInt_seconds {t u : ℤ} (h : 1 ≤ seconds t u) :
    (Int64.ofInt (seconds t u)).toInt = seconds t u := by
  have hle : seconds t u ≤ sub t u := by
    refine Int.tdiv_le_self _ ?_
    have := one_le_seconds_iff.mp h
    unfold sub second at *
    omega
  have hmax : sub t u < 2 ^ 63 := by
    unfold sub
    omega
  exact Int64.toInt_ofInt_of_le (by omega) (by omega)

/-- A rate is the quotient in whole numbers, not negative and at most what the counter has grown
by. -/
theorem rate_le {x : Sample} (hlast : 0 ≤ (last X).toInt)
    (hseen : (last X).toInt ≤ (x.seen X).toInt) (hseconds : 1 ≤ seconds x.now lastPerTime) :
    0 ≤ (rate last lastPerTime x X).toInt ∧
      (rate last lastPerTime x X).toInt ≤ (x.seen X).toInt - (last X).toInt := by
  have hdiff : (x.seen X - last X).toInt = (x.seen X).toInt - (last X).toInt :=
    Int64.toInt_sub_of_le _ _ (Int64.le_iff_toInt_le.mpr hlast) (Int64.le_iff_toInt_le.mpr hseen)
  have hone : Int64.ofInt (seconds x.now lastPerTime) ≠ -1 := by
    intro h
    have htoInt := toInt_ofInt_seconds hseconds
    rw [h] at htoInt
    have : (-1 : Int64).toInt = -1 := by decide
    omega
  have hrate : (rate last lastPerTime x X).toInt =
      ((x.seen X).toInt - (last X).toInt).tdiv (seconds x.now lastPerTime) := by
    rw [rate, Int64.toInt_div_of_ne_right _ _ hone, hdiff, toInt_ofInt_seconds hseconds]
  rw [hrate]
  exact ⟨Int.tdiv_nonneg (by omega) (by omega), Int.tdiv_le_self _ (by omega)⟩

/-- A sum that stays below the bound of `int64` is exact. -/
theorem toInt_add_of_lt {a b : Int64} (ha : 0 ≤ a.toInt) (hb : 0 ≤ b.toInt)
    (h : a.toInt + b.toInt < 2 ^ 63) : (a + b).toInt = a.toInt + b.toInt := by
  rw [Int64.toInt_add]
  exact Int.bmod_eq_of_le (by omega) (by omega)

theorem toInt_foldl (l : List Int64) : ∀ a : Int64, 0 ≤ a.toInt → (∀ r ∈ l, 0 ≤ r.toInt) →
    a.toInt + (l.map Int64.toInt).sum < 2 ^ 63 →
    (l.foldl (fun sum r => if r > 0 then sum + r else sum) a).toInt = a.toInt + exactSum l := by
  induction l with
  | nil => exact fun a _ _ _ => (Int.add_zero _).symm
  | cons r l ih =>
    intro a ha hl hsum
    have hr := hl r List.mem_cons_self
    have hrest : ∀ r ∈ l, 0 ≤ r.toInt := fun r' h => hl r' (List.mem_cons_of_mem _ h)
    have hnonneg : 0 ≤ (l.map Int64.toInt).sum :=
      List.sum_nonneg (List.forall_mem_map.mpr hrest)
    rw [List.map_cons, List.sum_cons] at hsum
    have hpos : r > 0 ↔ 0 < r.toInt := Int64.lt_iff_toInt_lt
    rw [List.foldl_cons]
    by_cases h : r > 0
    · have hadd : (a + r).toInt = a.toInt + r.toInt := toInt_add_of_lt ha hr (by omega)
      rw [if_pos h, ih (a + r) (by omega) hrest (by omega), hadd, exactSum, exactSum, List.map_cons,
        List.filter_cons_of_pos (p := fun v : ℤ => decide (0 < v)) (decide_eq_true (hpos.mp h)),
        List.sum_cons, Int.add_assoc]
    · rw [if_neg h, ih a ha hrest (by omega), exactSum, exactSum, List.map_cons,
        List.filter_cons_of_neg (p := fun v : ℤ => decide (0 < v))
          (by simpa using fun h' => h (hpos.mpr h'))]

/-- The rates of a counter that only grows are not negative, and together at most its growth. -/
theorem rates_le (xs : List Sample) : ∀ {last : Counter → Int64} {t : ℤ}, Rising X last t xs →
    (∀ r ∈ (rates last t xs).map (fun r => r X), 0 ≤ r.toInt) ∧
      (((rates last t xs).map fun r => r X).map Int64.toInt).sum < 2 ^ 63 - (last X).toInt := by
  induction xs with
  | nil =>
    intro last t _
    have := (last X).toInt_lt
    refine ⟨fun r hr => absurd hr List.not_mem_nil, ?_⟩
    show (0 : ℤ) < _
    omega
  | cons x xs ih =>
    rintro last t ⟨hlast, hseen, hkept, hseconds, hrest⟩
    obtain ⟨hnonneg, hle⟩ := rate_le (X := X) hlast hseen hseconds
    obtain ⟨hall, hsum⟩ := ih hrest
    rw [rates, List.map_cons, List.map_cons, List.sum_cons]
    exact ⟨List.forall_mem_cons.mpr ⟨hnonneg, hall⟩, by omega⟩

/-- The average of a counter that only grows is the quotient of whole numbers. -/
theorem toInt_average {xs : List Sample} (h : Rising X last lastPerTime xs)
    (hcnt : xs.length < 2 ^ 63) (hlast : 0 ≤ (last X).toInt) :
    (average X (rates last lastPerTime xs)).toInt =
      exactSum ((rates last lastPerTime xs).map fun r => r X) / xs.length := by
  obtain ⟨hall, hsum⟩ := rates_le xs h
  have hexact : (positiveSum ((rates last lastPerTime xs).map fun r => r X)).toInt =
      exactSum ((rates last lastPerTime xs).map fun r => r X) := by
    have hzero : (0 : Int64).toInt = 0 := by decide
    rw [positiveSum, toInt_foldl _ 0 (by decide) hall (by omega), hzero, Int.zero_add]
  have hnonneg : 0 ≤ exactSum ((rates last lastPerTime xs).map fun r => r X) := by
    refine List.sum_nonneg fun v hv => ?_
    exact Int.le_of_lt (of_decide_eq_true (List.mem_filter.mp hv).2)
  have hlength : (Int64.ofNat (rates last lastPerTime xs).length).toInt = xs.length := by
    rw [length_rates, Int64.toInt_ofNat_of_lt hcnt]
  have hone : Int64.ofNat (rates last lastPerTime xs).length ≠ -1 := by
    intro heq
    rw [heq] at hlength
    have : (-1 : Int64).toInt = -1 := by decide
    omega
  rw [average, Int64.toInt_div_of_ne_right _ _ hone, hexact, hlength,
    Int.tdiv_eq_ediv_of_nonneg hnonneg]

/-! ## The divisor -/

/-- The times of the samples keep the order of the statements, and the timer fires a second after
it was made or reset, or later. -/
def Timely (armed lastPerTime : ℤ) : List Sample → Prop
  | [] => True
  | x :: rest => lastPerTime ≤ x.now ∧ armed + second ≤ x.now ∧ x.now ≤ x.perTime ∧
      x.perTime ≤ x.reset ∧ Timely x.reset x.perTime rest

/-- When the timer was made, when `lastPerTime` was taken, and the samples. -/
structure Schedule where
  armed : ℤ
  lastPerTime : ℤ
  samples : List Sample
  armed_le : armed ≤ lastPerTime
  timely : Timely armed lastPerTime samples

/-- After a turn, the timer is reset after `lastPerTime` was taken. -/
theorem one_le_divisors (xs : List Sample) : ∀ {armed lastPerTime : ℤ}, lastPerTime ≤ armed →
    Timely armed lastPerTime xs → ∀ d ∈ divisors lastPerTime xs, 1 ≤ d := by
  induction xs with
  | nil => exact fun _ _ d hd => absurd hd List.not_mem_nil
  | cons x xs ih =>
    rintro armed lastPerTime hle ⟨-, hfires, -, hreset, hrest⟩ d hd
    obtain rfl | hd := List.mem_cons.mp hd
    · exact one_le_seconds_iff.mpr (by omega)
    · exact ih hreset hrest d hd

/-- **Every divisor is at least 1 exactly where the first sample reads the clock a second after
`lastPerTime` was taken, or later**: the timer is made before `lastPerTime` is taken, but reset
after it, so the order of the statements gives this for all other samples. -/
theorem one_le_divisors_iff (S : Schedule) : (∀ d ∈ divisors S.lastPerTime S.samples, 1 ≤ d) ↔
    ∀ x ∈ S.samples.head?, S.lastPerTime + second ≤ x.now := by
  obtain ⟨armed, lastPerTime, samples, -, htimely⟩ := S
  cases samples with
  | nil => exact iff_of_true (fun d hd => absurd hd List.not_mem_nil) (fun x hx => nomatch hx)
  | cons x xs =>
    obtain ⟨-, -, -, hreset, hrest⟩ := htimely
    show (∀ d ∈ seconds x.now lastPerTime :: divisors x.perTime xs, 1 ≤ d) ↔
      ∀ y ∈ some x, lastPerTime + second ≤ y.now
    rw [List.forall_mem_cons, and_iff_left (one_le_divisors xs hreset hrest), one_le_seconds_iff]
    constructor
    · intro h y hy
      obtain rfl : x = y := Option.some.inj hy
      omega
    · intro h
      have hfirst := h x rfl
      omega

/-- `lastPerTime` is taken a nanosecond after the timer was made, and the first sample reads the
clock as soon as the timer fires. -/
def punctual : Schedule where
  armed := 0
  lastPerTime := 1
  samples := [⟨second, fun _ => 0, second, fun _ => 0, second⟩]
  armed_le := by decide
  timely := ⟨by decide, by decide, by decide, by decide, trivial⟩

/-- Its first divisor is 0. -/
theorem not_one_le_divisors_punctual :
    ¬ ∀ d ∈ divisors punctual.lastPerTime punctual.samples, 1 ≤ d := by
  decide

/-- The loop panics at a divisor that is 0. -/
theorem run_isSome_iff (xs : List Sample) : ∀ s : Averages,
    (run xs s).isSome = true ↔ ∀ d ∈ divisors s.lastPerTime xs, d ≠ 0 := by
  induction xs with
  | nil => exact fun s => iff_of_true rfl fun d hd => absurd hd List.not_mem_nil
  | cons x xs ih =>
    intro s
    rw [divisors, List.forall_mem_cons, run]
    cases hturn : turn x s with
    | none =>
      have hzero : seconds x.now s.lastPerTime = 0 := by
        unfold turn at hturn
        by_contra hne
        rw [if_neg hne] at hturn
        exact absurd hturn (by simp)
      exact iff_of_false (by simp) fun h => h.1 hzero
    | some s' =>
      have hturned := turn_turned hturn
      rw [Option.bind_some, ih s', hturned.lastPerTime, and_iff_right hturned.seconds_ne]

end Dashboard
end MqttBroker
