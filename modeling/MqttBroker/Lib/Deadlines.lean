import Mathlib.Data.Nat.Notation
import Mathlib.Order.Lattice

/-!
# Deadlines that are renewed

A deadline is looked at from time to time. When it has passed it is set anew, by a function
`renew` of the time at which it was found so. `passed` lists those times. No other choice of
times, each of them not before the deadline that the one before it would set, is longer: this
holds as long as the times come in order.
-/

variable {α : Type} [LinearOrder α] {renew : α → α} {deadline deadline' : α} {l c : List α}

namespace Deadline

/-- Each time is not before the deadline that the one before it sets. -/
def Spaced (renew : α → α) : α → List α → Prop
  | _, [] => True
  | deadline, t :: ts => deadline ≤ t ∧ Spaced renew (renew t) ts

/-- The times at which the deadline is found to have passed. -/
def passed (renew : α → α) : α → List α → List α
  | _, [] => []
  | deadline, t :: ts =>
    if deadline ≤ t then t :: passed renew (renew t) ts else passed renew deadline ts

/-- An earlier deadline leaves more room. -/
theorem Spaced.of_le (h : Spaced renew deadline' c) (hle : deadline ≤ deadline') :
    Spaced renew deadline c := by
  cases c with
  | nil => trivial
  | cons t ts => exact ⟨hle.trans h.1, h.2⟩

theorem passed_sublist (renew : α → α) (l : List α) :
    ∀ deadline, (passed renew deadline l).Sublist l := by
  induction l with
  | nil => exact fun _ => List.Sublist.slnil
  | cons t ts ih =>
    intro deadline
    rw [passed]
    split
    · exact (ih _).cons_cons t
    · exact (ih _).cons t

theorem passed_spaced (renew : α → α) (l : List α) :
    ∀ deadline, Spaced renew deadline (passed renew deadline l) := by
  induction l with
  | nil => exact fun _ => trivial
  | cons t ts ih =>
    intro deadline
    rw [passed]
    split
    · next hle => exact ⟨hle, ih _⟩
    · exact ih _

/-- The first time at which the deadline has passed is as good as any later one. -/
theorem Spaced.length_le (hrenew : Monotone renew) (hl : l.Pairwise (· ≤ ·)) :
    ∀ {c : List α} {deadline : α}, c.Sublist l → Spaced renew deadline c →
      c.length ≤ (passed renew deadline l).length := by
  induction l with
  | nil =>
    intro c deadline hc _
    rw [List.sublist_nil.mp hc]
    exact Nat.le_refl _
  | cons t ts ih =>
    intro c deadline hc hs
    obtain ⟨hfirst, hrest⟩ := List.pairwise_cons.mp hl
    rw [passed]
    cases hc with
    | cons_cons _ hsub =>
      rw [if_pos hs.1]
      exact Nat.succ_le_succ (ih hrest hsub hs.2)
    | cons _ hsub =>
      split
      · cases c with
        | nil => exact Nat.zero_le _
        | cons t' c =>
          -- `t` takes the place of the first time of the choice, which comes later
          have hle : t ≤ t' := hfirst t' (hsub.subset List.mem_cons_self)
          have hsub' : c.Sublist ts := (List.sublist_cons_self t' c).trans hsub
          exact Nat.succ_le_succ (ih hrest hsub' (hs.2.of_le (hrenew hle)))
      · exact ih hrest hsub hs

/-- How often the deadline is found to have passed is the length of the longest choice. -/
theorem length_passed_le_iff (hrenew : Monotone renew) (hl : l.Pairwise (· ≤ ·)) {k n : ℕ} :
    k + (passed renew deadline l).length ≤ n ↔
      ∀ c : List α, c.Sublist l → Spaced renew deadline c → k + c.length ≤ n := by
  constructor
  · intro h c hc hs
    exact Nat.le_trans (Nat.add_le_add_left (Spaced.length_le hrenew hl hc hs) k) h
  · exact fun h => h _ (passed_sublist renew l deadline) (passed_spaced renew l deadline)

end Deadline
