import Mathlib.Logic.Function.Basic
import Mathlib.Order.Defs.Unbundled

/-!
# Faulting state computations

`Exec F S α` is a computation over a state `S` that ends with a value or with a fault of
type `F` (a panic, a call that never returns). The state reached is kept in both cases,
so that what a computation did before it faulted can still be talked about.

Four proof rules live here:

* `Respects R m`: whatever the outcome, the state before and the state after `m` are
  related by `R`. For a reflexive and transitive `R` this composes along `do` blocks,
  which is how frame conditions and step relations are propagated through a program;
* `FaultsIn E m`: every fault of `m` is one of `E`;
* `Yields Q m`: every value that `m` returns is one of `Q`;
* `Triple P m Q E`: from `P`, a returning run ends in `Q` and a faulting one in `E`.
-/

/-- A computation over `S` that returns an `α` or faults with an `F`. -/
def Exec (F S α : Type) : Type := S → Except F α × S

namespace Exec

variable {F S α β : Type}

instance : Monad (Exec F S) where
  pure a := fun s => (.ok a, s)
  bind m f := fun s =>
    match m s with
    | (.ok a, s') => f a s'
    | (.error e, s') => (.error e, s')

/-- Read the whole state. -/
def get : Exec F S S := fun s => (.ok s, s)

/-- Read a function of the state. -/
def gets (f : S → α) : Exec F S α := fun s => (.ok (f s), s)

/-- Replace the state by its image. -/
def modify (f : S → S) : Exec F S Unit := fun s => (.ok (), f s)

/-- Replace the state and return a value computed with it. -/
def modifyGet (f : S → α × S) : Exec F S α := fun s => (.ok (f s).1, (f s).2)

/-- Stop with a fault. -/
def fault (e : F) : Exec F S α := fun s => (.error e, s)

/-! ## Running a block -/

@[simp] theorem pure_run (a : α) (s : S) : (pure a : Exec F S α) s = (.ok a, s) := rfl

theorem bind_run (m : Exec F S α) (f : α → Exec F S β) (s : S) :
    (m >>= f) s = match m s with
      | (.ok a, s') => f a s'
      | (.error e, s') => (.error e, s') := rfl

@[simp] theorem get_run (s : S) : (get : Exec F S S) s = (.ok s, s) := rfl

@[simp] theorem gets_run (f : S → α) (s : S) : (gets f : Exec F S α) s = (.ok (f s), s) := rfl

@[simp] theorem modify_run (f : S → S) (s : S) :
    (modify f : Exec F S Unit) s = (.ok (), f s) := rfl

@[simp] theorem modifyGet_run (f : S → α × S) (s : S) :
    (modifyGet f : Exec F S α) s = (.ok (f s).1, (f s).2) := rfl

@[simp] theorem fault_run (e : F) (s : S) :
    (fault e : Exec F S α) s = (.error e, s) := rfl

/-- A block whose first part returns continues from the state it left. -/
theorem bind_run_ok {m : Exec F S α} {f : α → Exec F S β} {s s' : S} {a : α}
    (h : m s = (.ok a, s')) : (m >>= f) s = f a s' := by
  rw [bind_run, h]

/-- A block whose first part faults faults with it. -/
theorem bind_run_error {m : Exec F S α} {f : α → Exec F S β} {s s' : S} {e : F}
    (h : m s = (.error e, s')) : (m >>= f) s = (.error e, s') := by
  rw [bind_run, h]

/-- Replacing the value of a block leaves its final state. -/
theorem bind_pure_snd (m : Exec F S α) (g : α → β) (s : S) :
    ((m >>= fun a => pure (g a)) s).2 = (m s).2 := by
  rw [bind_run]
  rcases m s with ⟨_ | _, _⟩ <;> rfl

/-- A returning block decomposes into its two returning parts. -/
theorem bind_eq_ok {m : Exec F S α} {f : α → Exec F S β} {s s'' : S} {b : β}
    (h : (m >>= f) s = (.ok b, s'')) : ∃ a s', m s = (.ok a, s') ∧ f a s' = (.ok b, s'') := by
  rw [bind_run] at h
  rcases hm : m s with ⟨_ | a, s'⟩
  · rw [hm] at h
    exact absurd (congrArg Prod.fst h) (by simp)
  · rw [hm] at h
    exact ⟨a, s', rfl, h⟩

theorem pure_eq_ok {a b : α} {s s' : S} (h : (pure a : Exec F S α) s = (.ok b, s')) :
    a = b ∧ s = s' :=
  ⟨Except.ok.inj (congrArg Prod.fst h), congrArg Prod.snd h⟩

/-! ## Relations between the state before and after -/

/-- Every run of `m`, returning or not, relates its two states by `R`. -/
def Respects (R : S → S → Prop) (m : Exec F S α) : Prop := ∀ s, R s (m s).2

namespace Respects

variable {R : S → S → Prop}

theorem pure [Std.Refl R] (a : α) : Respects R (Pure.pure a : Exec F S α) :=
  fun s => refl_of R s

theorem gets [Std.Refl R] (f : S → α) : Respects R (Exec.gets f : Exec F S α) :=
  fun s => refl_of R s

theorem fault [Std.Refl R] (e : F) : Respects R (Exec.fault e : Exec F S α) :=
  fun s => refl_of R s

theorem modify {f : S → S} (h : ∀ s, R s (f s)) : Respects R (Exec.modify f : Exec F S Unit) :=
  fun s => h s

theorem modifyGet {f : S → α × S} (h : ∀ s, R s (f s).2) :
    Respects R (Exec.modifyGet f : Exec F S α) :=
  fun s => h s

/-- Sequencing, with the second part only asked about states the first part reaches. -/
theorem bind_of [IsTrans S R] {m : Exec F S α} {f : α → Exec F S β} (hm : Respects R m)
    (hf : ∀ a s s', m s = (.ok a, s') → R s' (f a s').2) : Respects R (m >>= f) := by
  intro s
  have h := hm s
  rcases hr : m s with ⟨e | a, s'⟩
  · rw [bind_run_error hr]
    rwa [hr] at h
  · rw [bind_run_ok hr]
    rw [hr] at h
    exact trans_of R h (hf a s s' hr)

/-- A first part that returns, and what the second makes of the states it relates to `s`. -/
theorem bind_returns {Q : S → Prop} {m : Exec F S α} {f : α → Exec F S β} {s : S}
    (hm : Respects R m) (hok : ∃ a, (m s).1 = .ok a) (hf : ∀ a s', R s s' → Q (f a s').2) :
    Q ((m >>= f) s).2 := by
  obtain ⟨a, ha⟩ := hok
  rw [bind_run_ok (Prod.ext ha rfl)]
  exact hf a _ (hm s)

theorem bind [IsTrans S R] {m : Exec F S α} {f : α → Exec F S β} (hm : Respects R m)
    (hf : ∀ a, Respects R (f a)) : Respects R (m >>= f) :=
  bind_of hm fun a _ s' _ => hf a s'

/-- A relation that absorbs another on its left, when the second part respects it. -/
theorem bind_of_left {Q : S → S → Prop} [Trans R Q Q] (hle : ∀ s s', R s s' → Q s s')
    {m : Exec F S α} {f : α → Exec F S β} (hm : Respects R m) (hf : ∀ a, Respects Q (f a)) :
    Respects Q (m >>= f) := by
  intro s
  have h := hm s
  rcases hr : m s with ⟨e | a, s'⟩
  · rw [bind_run_error hr]
    rw [hr] at h
    exact hle s s' h
  · rw [bind_run_ok hr]
    rw [hr] at h
    exact Trans.trans h (hf a s')

/-- The same on its right, when the first part respects it. -/
theorem bind_of_right {Q : S → S → Prop} [Trans Q R Q] {m : Exec F S α} {f : α → Exec F S β}
    (hm : Respects Q m) (hf : ∀ a, Respects R (f a)) : Respects Q (m >>= f) := by
  intro s
  have h := hm s
  rcases hr : m s with ⟨e | a, s'⟩
  · rw [bind_run_error hr]
    rwa [hr] at h
  · rw [bind_run_ok hr]
    rw [hr] at h
    exact Trans.trans h (hf a s')

/-- Sequencing from one given state. -/
theorem bind_at [IsTrans S R] {m : Exec F S α} {f : α → Exec F S β} {s : S} (hm : R s (m s).2)
    (hf : ∀ a, Respects R (f a)) : R s ((m >>= f) s).2 := by
  rcases hr : m s with ⟨e | a, s'⟩
  · rw [bind_run_error hr]
    rwa [hr] at hm
  · rw [bind_run_ok hr]
    rw [hr] at hm
    exact trans_of R hm (hf a s')

theorem ite {c : Prop} [Decidable c] {m m' : Exec F S α} (h : Respects R m)
    (h' : Respects R m') : Respects R (if c then m else m') := by
  split
  · exact h
  · exact h'

/-- What comes after the first part, whether it comes to run or not. -/
theorem after [Std.Refl R] {m : Exec F S α} {f : α → Exec F S β} (hf : ∀ a, Respects R (f a))
    (s : S) : R (m s).2 ((m >>= f) s).2 := by
  rcases hr : m s with ⟨e | a, s'⟩
  · rw [bind_run_error hr]
    exact refl_of R s'
  · rw [bind_run_ok hr]
    exact hf a s'

end Respects

/-! ## Which faults can occur -/

/-- Every fault of `m` satisfies `E`. -/
def FaultsIn (E : F → Prop) (m : Exec F S α) : Prop :=
  ∀ s e s', m s = (.error e, s') → E e

namespace FaultsIn

variable {E : F → Prop}

theorem pure (a : α) : FaultsIn E (Pure.pure a : Exec F S α) :=
  fun _ _ _ h => absurd (congrArg Prod.fst h) (by simp)

theorem gets (f : S → α) : FaultsIn E (Exec.gets f : Exec F S α) :=
  fun _ _ _ h => absurd (congrArg Prod.fst h) (by simp)

theorem modify (f : S → S) : FaultsIn E (Exec.modify f : Exec F S Unit) :=
  fun _ _ _ h => absurd (congrArg Prod.fst h) (by simp)

theorem modifyGet (f : S → α × S) : FaultsIn E (Exec.modifyGet f : Exec F S α) :=
  fun _ _ _ h => absurd (congrArg Prod.fst h) (by simp)

theorem bind {m : Exec F S α} {f : α → Exec F S β} (hm : FaultsIn E m)
    (hf : ∀ a, FaultsIn E (f a)) : FaultsIn E (m >>= f) := by
  intro s e s' h
  rcases hr : m s with ⟨e' | a, s₁⟩
  · rw [bind_run_error hr] at h
    have he : e' = e := Except.error.inj (congrArg Prod.fst h)
    exact he ▸ hm s e' s₁ hr
  · rw [bind_run_ok hr] at h
    exact hf a s₁ e s' h

theorem ite {c : Prop} [Decidable c] {m m' : Exec F S α} (h : FaultsIn E m)
    (h' : FaultsIn E m') : FaultsIn E (if c then m else m') := by
  split
  · exact h
  · exact h'

end FaultsIn

/-- A computation without faults. -/
abbrev Returns (m : Exec F S α) : Prop := FaultsIn (fun _ => False) m

theorem Returns.ok {m : Exec F S α} (h : Returns m) (s : S) : ∃ a s', m s = (.ok a, s') := by
  rcases hr : m s with ⟨e | a, s'⟩
  · exact (h s e s' hr).elim
  · exact ⟨a, s', rfl⟩

/-! ## Which values are returned -/

/-- Every value that `m` returns satisfies `Q`. -/
def Yields (Q : α → Prop) (m : Exec F S α) : Prop := ∀ s a s', m s = (.ok a, s') → Q a

namespace Yields

variable {Q : α → Prop}

theorem pure {a : α} (h : Q a) : Yields Q (Pure.pure a : Exec F S α) := by
  intro s a' s' hr
  have ha : a = a' := Except.ok.inj (congrArg Prod.fst hr)
  exact ha ▸ h

theorem fault (e : F) : Yields Q (Exec.fault e : Exec F S α) :=
  fun _ _ _ h => absurd (congrArg Prod.fst h) (by simp)

/-- A block returns what its last part returns. -/
theorem bind {m : Exec F S β} {f : β → Exec F S α} (hf : ∀ b, Yields Q (f b)) :
    Yields Q (m >>= f) := by
  intro s a s'' h
  obtain ⟨b, s', -, hb⟩ := bind_eq_ok h
  exact hf b s' a s'' hb

/-- A block whose first part only returns values of `P`. -/
theorem bind_of {P : β → Prop} {m : Exec F S β} {f : β → Exec F S α} (hm : Yields P m)
    (hf : ∀ b, P b → Yields Q (f b)) : Yields Q (m >>= f) := by
  intro s a s'' h
  obtain ⟨b, s', hb, ha⟩ := bind_eq_ok h
  exact hf b (hm s b s' hb) s' a s'' ha

theorem ite {c : Prop} [Decidable c] {m m' : Exec F S α} (h : Yields Q m) (h' : Yields Q m') :
    Yields Q (if c then m else m') := by
  split
  · exact h
  · exact h'

end Yields

/-! ## Pre- and postconditions -/

/-- From `P`, a returning run ends in `Q` with its value and a faulting one in `E`. -/
def Triple (P : S → Prop) (m : Exec F S α) (Q : α → S → Prop) (E : F → S → Prop) : Prop :=
  ∀ s, P s → match m s with
    | (.ok a, s') => Q a s'
    | (.error e, s') => E e s'

namespace Triple

variable {P : S → Prop} {Q : α → S → Prop} {E : F → S → Prop}

theorem ok {m : Exec F S α} (h : Triple P m Q E) {s s' : S} {a : α} (hs : P s)
    (hm : m s = (.ok a, s')) : Q a s' := by
  have := h s hs
  rwa [hm] at this

theorem error {m : Exec F S α} (h : Triple P m Q E) {s s' : S} {e : F} (hs : P s)
    (hm : m s = (.error e, s')) : E e s' := by
  have := h s hs
  rwa [hm] at this

theorem pure {a : α} (h : ∀ s, P s → Q a s) : Triple P (Pure.pure a : Exec F S α) Q E :=
  fun s hs => h s hs

theorem bind {m : Exec F S α} {f : α → Exec F S β} {Q' : β → S → Prop}
    (hm : Triple P m Q E) (hf : ∀ a, Triple (Q a) (f a) Q' E) :
    Triple P (m >>= f) Q' E := by
  intro s hs
  rcases hr : m s with ⟨e | a, s'⟩
  · rw [bind_run_error hr]
    exact hm.error hs hr
  · rw [bind_run_ok hr]
    exact hf a s' (hm.ok hs hr)

end Triple

end Exec
