import Mathlib.Data.List.Basic
import Mathlib.Data.List.Induction

/-!
# The first value since the last release

A history of events some of which put a value and some of which release what was put. The
value that is held is the first one that was put since the last release; what is put while a
value is held is dropped. `held` says this about a whole history, and the three lemmas
about it say what one more event changes.
-/

variable {α β : Type} (put : α → Option β) (releases : α → Bool) (earlier : Option β)

/-- The events after the last release. -/
def sinceRelease (h : List α) : List α := (h.reverse.takeWhile fun a => ! releases a).reverse

/-- The first value that was put since the last release; `earlier` was held before. -/
def held (h : List α) : Option β :=
  if h.any releases then (sinceRelease releases h).findSome? put
  else earlier.or (h.findSome? put)

variable {put releases earlier}

theorem sinceRelease_append_of_releases {h : List α} {a : α} (ha : releases a = true) :
    sinceRelease releases (h ++ [a]) = [] := by
  rw [sinceRelease, List.reverse_append, List.reverse_singleton, List.singleton_append,
    List.takeWhile_cons_of_neg (by simp [ha])]
  rfl

theorem sinceRelease_append {h : List α} {a : α} (ha : releases a = false) :
    sinceRelease releases (h ++ [a]) = sinceRelease releases h ++ [a] := by
  rw [sinceRelease, List.reverse_append, List.reverse_singleton, List.singleton_append,
    List.takeWhile_cons_of_pos (by simp [ha]), List.reverse_cons, ← sinceRelease]

theorem held_nil : held put releases earlier [] = earlier := by
  cases earlier with
  | _ => rfl

/-- After a release nothing is held. -/
theorem held_append_of_releases {h : List α} {a : α} (ha : releases a = true) :
    held put releases earlier (h ++ [a]) = none := by
  have hany : (h ++ [a]).any releases = true := by simp [ha]
  rw [held, if_pos hany, sinceRelease_append_of_releases ha]
  rfl

/-- What is put is held, unless something is. -/
theorem held_append {h : List α} {a : α} (ha : releases a = false) :
    held put releases earlier (h ++ [a]) = (held put releases earlier h).or (put a) := by
  have hfind : ∀ l : List α, (l ++ [a]).findSome? put = (l.findSome? put).or (put a) := by
    intro l
    rw [List.findSome?_append, List.findSome?_singleton]
  have hany : (h ++ [a]).any releases = h.any releases := by simp [ha]
  rw [held, held, hany]
  by_cases hr : h.any releases = true
  · rw [if_pos hr, if_pos hr, sinceRelease_append ha, hfind]
  · rw [if_neg hr, if_neg hr, hfind, Option.or_assoc]

/-- What is held was put. -/
theorem exists_put_of_held {h : List α} {b : β} (hb : held put releases none h = some b) :
    ∃ a ∈ h, put a = some b := by
  rw [held] at hb
  split at hb
  · obtain ⟨a, ha, hput⟩ := List.exists_of_findSome?_eq_some hb
    have hsublist : List.Sublist (sinceRelease releases h).reverse h.reverse := by
      rw [sinceRelease, List.reverse_reverse]
      exact List.takeWhile_sublist _
    exact ⟨a, (List.reverse_sublist.mp hsublist).subset ha, hput⟩
  · rw [Option.none_or] at hb
    exact List.exists_of_findSome?_eq_some hb

/-- A history in which nothing is put after a release holds its first value until then. -/
theorem held_of_pairwise {h : List α}
    (hh : h.Pairwise fun a b => releases a = true → put b = none) :
    held put releases none h = if h.any releases then none else h.findSome? put := by
  induction h using List.reverseRecOn with
  | nil => exact held_nil
  | append_singleton h a ih =>
    obtain ⟨hbefore, -, hlast⟩ := List.pairwise_append.mp hh
    by_cases ha : releases a = true
    · rw [held_append_of_releases ha, List.any_append, List.any_cons, ha, Bool.true_or,
        Bool.or_true, if_pos rfl]
    · have hnot : releases a = false := Bool.eq_false_iff.mpr ha
      rw [held_append hnot, ih hbefore, List.any_append, List.any_cons, hnot, List.any_nil,
        Bool.or_false, Bool.or_false]
      by_cases hany : h.any releases = true
      · obtain ⟨b, hb, hreleases⟩ := List.any_eq_true.mp hany
        have hnone := hlast b hb a (List.mem_singleton_self a) hreleases
        rw [if_pos hany, if_pos hany, hnone]
        rfl
      · rw [if_neg hany, if_neg hany, List.findSome?_append, List.findSome?_singleton]
