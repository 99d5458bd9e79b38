import Mathlib.Data.Nat.Notation
import Mathlib.Logic.Function.Basic

/-!
# Heaps of objects that are passed by reference

A `Heap α` is a store of `α` objects addressed by references, with a fresh reference always
available. Two holders of one reference see each other's writes, which is the point: a
model whose objects are values cannot express sharing.
-/

/-- Objects by reference; references from `next` on are unused. -/
structure Heap (α : Type) where
  cells : ℕ → α
  next : ℕ

namespace Heap

variable {α : Type}

/-- Store a new object and return its reference. -/
def alloc (a : α) (h : Heap α) : ℕ × Heap α :=
  (h.next, { cells := Function.update h.cells h.next a, next := h.next + 1 })

/-- Apply a function to the object at a reference. -/
def modify (r : ℕ) (f : α → α) (h : Heap α) : Heap α :=
  { h with cells := Function.update h.cells r (f (h.cells r)) }

@[simp] theorem alloc_fst (a : α) (h : Heap α) : (h.alloc a).1 = h.next := rfl

@[simp] theorem alloc_next (a : α) (h : Heap α) : (h.alloc a).2.next = h.next + 1 := rfl

@[simp] theorem alloc_self (a : α) (h : Heap α) : (h.alloc a).2.cells h.next = a :=
  Function.update_self ..

theorem alloc_of_ne {r : ℕ} {h : Heap α} (a : α) (hr : r ≠ h.next) :
    (h.alloc a).2.cells r = h.cells r :=
  Function.update_of_ne hr ..

/-- An allocation leaves the objects that are there. -/
theorem alloc_of_lt {r : ℕ} {h : Heap α} (a : α) (hr : r < h.next) :
    (h.alloc a).2.cells r = h.cells r :=
  alloc_of_ne a (Nat.ne_of_lt hr)

@[simp] theorem modify_next (r : ℕ) (f : α → α) (h : Heap α) : (h.modify r f).next = h.next := rfl

@[simp] theorem modify_self (r : ℕ) (f : α → α) (h : Heap α) :
    (h.modify r f).cells r = f (h.cells r) :=
  Function.update_self ..

/-- Writing an object that has just been stored. -/
theorem alloc_modify {a a' : α} {f : α → α} (h : Heap α) (hf : f a = a') :
    (h.alloc a).2.modify h.next f = (h.alloc a').2 := by
  unfold modify
  rw [alloc_self, hf]
  simp only [alloc, Function.update_idem]

theorem modify_of_ne {r r' : ℕ} (f : α → α) (h : Heap α) (hr : r' ≠ r) :
    (h.modify r f).cells r' = h.cells r' :=
  Function.update_of_ne hr ..

end Heap
