import Mathlib.Data.List.Basic
import Mathlib.Data.Nat.Notation

/-!
# Locks and the threads that have them

Threads stand in a list, and one of them at a time does one operation. `HeldBy p threads held`
says of a lock that it is held when a thread has it, and that at most one has it; `p` tells the
threads that have it. It is kept when the lock and the thread that did the operation change
together.
-/

variable {α : Type} {p : α → Bool} {threads : List α} {held held' : Bool} {i j : ℕ} {x : α}

/-- At most one thread has the lock, and one has it when it is held. -/
def HeldBy (p : α → Bool) (threads : List α) (held : Bool) : Prop :=
  threads.countP p = held.toNat

theorem List.toNat_le_countP (hi : i < threads.length) :
    (p threads[i]).toNat ≤ threads.countP p := by
  cases hp : p threads[i] with
  | false => exact Nat.zero_le _
  | true => exact List.countP_pos_iff.mpr ⟨_, List.getElem_mem hi, hp⟩

/-- Only the member that is replaced counts. -/
theorem List.countP_set_add (hi : i < threads.length) :
    (threads.set i x).countP p + (p threads[i]).toNat = threads.countP p + (p x).toNat := by
  have hif : ∀ b : Bool, (if b = true then 1 else 0) = b.toNat := by decide
  have hle := List.toNat_le_countP (p := p) hi
  rw [List.countP_set hi, hif, hif]
  omega

/-- The members but the one that is replaced count the same before and after. -/
theorem List.exists_countP_set (hi : i < threads.length) : ∃ n,
    threads.countP p = n + (p threads[i]).toNat ∧
      (threads.set i x).countP p = n + (p x).toNat := by
  have hle := List.toNat_le_countP (p := p) hi
  have hset := List.countP_set_add (p := p) (x := x) hi
  exact ⟨threads.countP p - (p threads[i]).toNat, by omega, by omega⟩

/-- Two members with a property count two. -/
theorem List.two_le_countP (hij : i < j) (hj : j < threads.length)
    (hpi : p threads[i] = true) (hpj : p threads[j] = true) : 2 ≤ threads.countP p := by
  have htake : 0 < (threads.take j).countP p := by
    refine List.countP_pos_iff.mpr ⟨threads[i], ?_, hpi⟩
    have hi : i < (threads.take j).length := by
      rw [List.length_take]
      omega
    rw [← List.getElem_take (h := hi)]
    exact List.getElem_mem hi
  have hdrop : 0 < (threads.drop j).countP p := by
    refine List.countP_pos_iff.mpr ⟨threads[j], ?_, hpj⟩
    rw [List.drop_eq_getElem_cons hj]
    exact List.mem_cons_self
  rw [← List.take_append_drop j threads, List.countP_append]
  omega

namespace HeldBy

/-- A thread that has the lock has locked it. -/
theorem held_eq (h : HeldBy p threads held) (hi : i < threads.length)
    (hp : p threads[i] = true) : held = true := by
  have hpos : 0 < threads.countP p := List.countP_pos_iff.mpr ⟨_, List.getElem_mem hi, hp⟩
  rw [h] at hpos
  cases held with
  | false => exact absurd hpos (by decide)
  | true => rfl

theorem exists_of_held (h : HeldBy p threads true) : ∃ t ∈ threads, p t = true := by
  rw [← List.countP_pos_iff, h]
  exact Nat.one_pos

/-- No two threads have the lock. -/
theorem eq_of_both (h : HeldBy p threads held) (hi : i < threads.length)
    (hj : j < threads.length) (hpi : p threads[i] = true) (hpj : p threads[j] = true) :
    i = j := by
  have hone : threads.countP p ≤ 1 := by
    rw [h]
    exact Bool.toNat_le held
  by_contra hne
  obtain hij | hji := Nat.lt_or_gt_of_ne hne
  · have := List.two_le_countP hij hj hpi hpj
    omega
  · have := List.two_le_countP hji hi hpj hpi
    omega

/-- A new thread comes without the lock. -/
theorem append (h : HeldBy p threads held) (hx : p x = false) :
    HeldBy p (threads ++ [x]) held := by
  unfold HeldBy
  rw [List.countP_append, List.countP_singleton, hx]
  exact h

/-- The thread that did an operation has the lock afterwards exactly when the lock says so. -/
theorem set (h : HeldBy p threads held) (hi : i < threads.length)
    (hstep : held'.toNat + (p threads[i]).toNat = held.toNat + (p x).toNat) :
    HeldBy p (threads.set i x) held' := by
  have hcount : (threads.set i x).countP p + (p threads[i]).toNat =
      threads.countP p + (p x).toNat := List.countP_set_add hi
  unfold HeldBy at h ⊢
  omega

end HeldBy
