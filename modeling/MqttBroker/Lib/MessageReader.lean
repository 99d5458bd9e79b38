import Mathlib.Algebra.Ring.Nat
import Mathlib.Data.List.Basic

/-!
# Reading messages until one fails

A reader takes one message from a state and leaves another state, or it fails. `readAll` reads
until the first failure. What it returns follows from what a single read does: with messages that
were put in front of a state, under a view of the states, and for a property of every message.
-/

/-- `size` becomes smaller with every message, so that the messages come to an end. -/
structure MessageReader (σ μ ε : Type) where
  read : σ → Except ε μ × σ
  size : σ → ℕ
  shortens : ∀ {s m s'}, read s = (.ok m, s') → size s' < size s

namespace MessageReader

variable {σ σ' μ ε : Type} (R : MessageReader σ μ ε)

/-- The messages before the first failure, the failure and the state after it. -/
def readAll (s : σ) : List μ × ε × σ :=
  match _h : R.read s with
  | (.error e, s') => ([], e, s')
  | (.ok m, s') => (m :: (readAll s').1, (readAll s').2)
termination_by R.size s
decreasing_by all_goals exact R.shortens _h

variable {R} {s s' : σ} {m : μ} {e : ε}

theorem readAll_of_error (h : R.read s = (.error e, s')) : R.readAll s = ([], e, s') := by
  rw [readAll]
  split
  · next heq =>
    rw [h] at heq
    obtain ⟨herr, rfl⟩ := Prod.mk.inj heq
    rw [Except.error.inj herr]
  · next heq =>
    rw [h] at heq
    exact nomatch heq

theorem readAll_of_ok (h : R.read s = (.ok m, s')) :
    R.readAll s = (m :: (R.readAll s').1, (R.readAll s').2) := by
  rw [readAll]
  split
  · next heq =>
    rw [h] at heq
    exact nomatch heq
  · next heq =>
    rw [h] at heq
    obtain ⟨hok, rfl⟩ := Prod.mk.inj heq
    rw [Except.ok.inj hok]

/-- Induction on the messages that a state has: one case for a failure, one for a message. -/
theorem induct {Q : σ → Prop} (error : ∀ s e s', R.read s = (.error e, s') → Q s)
    (ok : ∀ s m s', R.read s = (.ok m, s') → Q s' → Q s) (s : σ) : Q s := by
  induction hn : R.size s using Nat.strongRecOn generalizing s with
  | ind n ih =>
    cases hread : R.read s with
    | mk result s' =>
      cases result with
      | error e => exact error s e s' hread
      | ok m => exact ok s m s' hread (ih (R.size s') (hn ▸ R.shortens hread) s' rfl)

/-- What holds of every message that a read returns holds of all of them. -/
theorem forall_mem_readAll {Q : μ → Prop} (h : ∀ s m s', R.read s = (.ok m, s') → Q m) (s : σ) :
    ∀ m ∈ (R.readAll s).1, Q m := by
  induction s using induct (R := R) with
  | error s e s' hread =>
    rw [readAll_of_error hread]
    exact fun m hm => absurd hm List.not_mem_nil
  | ok s m s' hread ih =>
    rw [readAll_of_ok hread]
    intro m' hm'
    obtain rfl | hm' := List.mem_cons.mp hm'
    · exact h s m' s' hread
    · exact ih m' hm'

/-- The messages weigh together no more than the state had room for. -/
theorem sum_readAll_le {weight : μ → ℕ}
    (h : ∀ s m s', R.read s = (.ok m, s') → weight m + R.size s' ≤ R.size s) (s : σ) :
    ((R.readAll s).1.map weight).sum ≤ R.size s := by
  induction s using induct (R := R) with
  | error s e s' hread =>
    rw [readAll_of_error hread]
    exact Nat.zero_le _
  | ok s m s' hread ih =>
    have hroom := h s m s' hread
    rw [readAll_of_ok hread, List.map_cons, List.sum_cons]
    omega

/-- Messages that were put in front of a state are read, and then what the state has. -/
theorem readAll_foldr (put : μ → σ → σ) (messages : List μ)
    (hput : ∀ m ∈ messages, ∀ s, R.read (put m s) = (.ok m, s)) (s : σ) :
    R.readAll (messages.foldr put s) = (messages ++ (R.readAll s).1, (R.readAll s).2) := by
  induction messages with
  | nil => rfl
  | cons m messages ih =>
    have hrest := ih fun m' hm' => hput m' (List.mem_cons_of_mem m hm')
    rw [List.foldr_cons, readAll_of_ok (hput m List.mem_cons_self _), hrest]
    rfl

/-- A reader whose states are a view of another reader's reads the same messages. -/
theorem readAll_view (R' : MessageReader σ' μ ε) {f : σ → σ'}
    (hf : ∀ s, R'.read (f s) = ((R.read s).1, f (R.read s).2)) (s : σ) :
    R'.readAll (f s) = ((R.readAll s).1, (R.readAll s).2.1, f (R.readAll s).2.2) := by
  induction s using induct (R := R) with
  | error s e s' hread =>
    have hread' := hf s
    rw [hread] at hread'
    rw [readAll_of_error hread, readAll_of_error hread']
  | ok s m s' hread ih =>
    have hread' := hf s
    rw [hread] at hread'
    rw [readAll_of_ok hread, readAll_of_ok hread', ih]

end MessageReader
