import Mathlib.Data.List.Flatten
import Mathlib.Data.Nat.Notation

/-!
# Pools of goroutines

A pool is a list of goroutines, and a goroutine the list of the operations that it has left.
Goroutine `i` does its first operation, which may put others in its place, and may start
goroutines. Most invariants of such a system do not say which goroutine an operation belongs
to: they are about the operations of all goroutines together, up to their order, and then a
step exchanges one operation for a few others.
-/

abbrev Pool (α : Type) := List (List α)

namespace Pool

variable {α : Type}

/-- The operations that the goroutines have left. -/
abbrev ops (p : Pool α) : List α := p.flatten

theorem ops_append (p q : Pool α) : ops (p ++ q) = ops p ++ ops q := List.flatten_append

/-- The operations before, of and after goroutine `i`, whatever its code is. -/
theorem exists_split {p : Pool α} {i : ℕ} {c : List α} (h : p[i]? = some c) :
    ∃ l r, ops p = l ++ (c ++ r) ∧ ∀ c', ops (p.set i c') = l ++ (c' ++ r) := by
  obtain ⟨hi, hget⟩ := List.getElem?_eq_some_iff.mp h
  have hset : ∀ c', ops (p.set i c') = ops (p.take i) ++ (c' ++ ops (p.drop (i + 1))) := by
    intro c'
    rw [List.set_eq_take_append_cons_drop, if_pos hi, ops, List.flatten_append,
      List.flatten_cons]
  refine ⟨_, _, ?_, hset⟩
  rw [← hset c, ← hget, List.set_getElem_self]

/-- Operations that only goroutine `i` may have. -/
theorem countP_ops_le {q : α → Bool} : ∀ {p : Pool α} {i n : ℕ},
    (∀ j ≠ i, ∀ c, p[j]? = some c → ∀ a ∈ c, q a = false) →
    (∀ c, p[i]? = some c → c.countP q ≤ n) → (ops p).countP q ≤ n := by
  intro p
  induction p with
  | nil => exact fun _ _ => Nat.zero_le _
  | cons c p ih =>
    intro i n hothers hcode
    have hnone : ∀ {l : List α}, (∀ a ∈ l, q a = false) → l.countP q = 0 := fun hl =>
      List.countP_eq_zero.mpr fun a ha => by rw [hl a ha]; exact Bool.false_ne_true
    rw [ops, List.flatten_cons, List.countP_append]
    cases i with
    | zero =>
      have hrest : p.flatten.countP q = 0 := by
        refine hnone fun a ha => ?_
        obtain ⟨c', hc', ha⟩ := List.mem_flatten.mp ha
        obtain ⟨j, hj⟩ := List.mem_iff_getElem?.mp hc'
        exact hothers (j + 1) (Nat.succ_ne_zero j) c' hj a ha
      rw [hrest]
      exact hcode c rfl
    | succ i =>
      rw [hnone (hothers 0 (Nat.succ_ne_zero i).symm c rfl), Nat.zero_add]
      exact ih (fun j hj c' hc' => hothers (j + 1) (fun h => hj (Nat.succ.inj h)) c' hc')
        fun c' hc' => hcode c' hc'

/-- The operations `old` of the goroutines were exchanged for `new`. -/
def Exchanged (old new : List α) (p p' : Pool α) : Prop :=
  ∃ rest, (ops p).Perm (old ++ rest) ∧ (ops p').Perm (new ++ rest)

namespace Exchanged

variable {old new : List α} {p p' : Pool α}

theorem mem_old (h : Exchanged old new p p') {a : α} (ha : a ∈ old) : a ∈ ops p := by
  obtain ⟨rest, hp, -⟩ := h
  exact hp.mem_iff.mpr (List.mem_append_left _ ha)

theorem mem_new (h : Exchanged old new p p') {a : α} (ha : a ∈ new) : a ∈ ops p' := by
  obtain ⟨rest, -, hp'⟩ := h
  exact hp'.mem_iff.mpr (List.mem_append_left _ ha)

/-- What was not done is still to be done. -/
theorem mem_or_of_mem (h : Exchanged old new p p') {a : α} (ha : a ∈ ops p) :
    a ∈ old ∨ a ∈ ops p' := by
  obtain ⟨rest, hp, hp'⟩ := h
  exact (List.mem_append.mp (hp.mem_iff.mp ha)).imp id fun hrest =>
    hp'.mem_iff.mpr (List.mem_append_right _ hrest)

/-- What is to be done is new, or was to be done before. -/
theorem mem_or (h : Exchanged old new p p') {a : α} (ha : a ∈ ops p') :
    a ∈ new ∨ a ∈ ops p := by
  obtain ⟨rest, hp, hp'⟩ := h
  exact (List.mem_append.mp (hp'.mem_iff.mp ha)).imp id fun hrest =>
    hp.mem_iff.mpr (List.mem_append_right _ hrest)

theorem countP_eq (h : Exchanged old new p p') (q : α → Bool) :
    (ops p').countP q + old.countP q = (ops p).countP q + new.countP q := by
  obtain ⟨rest, hp, hp'⟩ := h
  rw [hp.countP_eq, hp'.countP_eq, List.countP_append, List.countP_append]
  omega

end Exchanged

/-- Goroutine `i` exchanged operations `old` at the beginning of its code for others, and
goroutines were started, whose operations `new` has too; without an `i`, goroutines were only
started. -/
inductive Turned (p : Pool α) : Option ℕ → List α → List α → Pool α → Prop
  | start (spawned : Pool α) : Turned p none [] (ops spawned) (p ++ spawned)
  | run {i : ℕ} {old rest : List α} (next : List α) (spawned : Pool α) :
      p[i]? = some (old ++ rest) →
      Turned p (some i) old (next ++ ops spawned) (p.set i (next ++ rest) ++ spawned)

namespace Turned

variable {old new : List α} {p p' : Pool α} {i : Option ℕ}

theorem exchanged (h : Turned p i old new p') : Exchanged old new p p' := by
  cases h with
  | start spawned =>
    refine ⟨ops p, .refl _, ?_⟩
    rw [ops_append]
    exact List.perm_append_comm
  | @run i old rest next spawned hi =>
    obtain ⟨l, r, hp, hset⟩ := exists_split hi
    have hmove : ∀ c, (l ++ (c ++ (rest ++ r))).Perm (c ++ (l ++ (rest ++ r))) := by
      intro c
      rw [← List.append_assoc, ← List.append_assoc c]
      exact List.perm_append_comm.append_right _
    have hnext : (ops (p.set i (next ++ rest))).Perm (next ++ (l ++ (rest ++ r))) := by
      rw [hset, List.append_assoc]
      exact hmove next
    refine ⟨l ++ (rest ++ r), ?_, ?_⟩
    · rw [hp, List.append_assoc]
      exact hmove old
    · rw [ops_append]
      refine (hnext.append_right _).trans ?_
      rw [List.append_assoc next, List.append_assoc next]
      exact List.perm_append_comm.append_left next

/-- A goroutine's code is changed by its own turns only. -/
theorem code_of_ne (h : Turned p i old new p') {j : ℕ} (hj : j < p.length) (hne : i ≠ some j) :
    p'[j]? = p[j]? := by
  cases h with
  | start spawned => exact List.getElem?_append_left hj
  | @run i old rest next spawned hi =>
    have hij : i ≠ j := fun hij => hne (congrArg some hij)
    rw [List.getElem?_append_left (by rwa [List.length_set]), List.getElem?_set_ne hij]

theorem length_le (h : Turned p i old new p') : p.length ≤ p'.length := by
  cases h with
  | start spawned => simp
  | run next spawned hi => simp

/-- What is exchanged was the goroutine's. -/
theorem mem_old (h : Turned p i old new p') {a : α} (ha : a ∈ old) :
    ∃ j code, i = some j ∧ p[j]? = some code ∧ a ∈ code := by
  cases h with
  | start spawned => exact absurd ha (by simp)
  | run next spawned hi => exact ⟨_, _, rfl, hi, List.mem_append_left _ ha⟩

end Turned
end Pool
