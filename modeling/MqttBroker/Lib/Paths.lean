import Mathlib.Data.Nat.Notation
import MqttBroker.Lib.StepSystem

/-!
# Infinite runs of a step system

A path is an infinite sequence of states, each of which comes from the one before it by an
action or is the same, so that a run that has come to its end goes on as a path. What the
actions preserve holds from some time on, and a run of finitely many actions is a path.
-/

namespace StepSystem

variable {σ α : Type} {T : StepSystem σ α}

/-- What happens at one time of a path. -/
def Next (T : StepSystem σ α) (s s' : σ) : Option α → Prop
  | some a => T.step a s = some s'
  | none => s' = s

/-- An infinite run. -/
structure Path (T : StepSystem σ α) where
  state : ℕ → σ
  turn : ℕ → Option α
  init : T.init (state 0)
  next : ∀ n, T.Next (state n) (state (n + 1)) (turn n)

namespace Path

variable {n m : ℕ}

theorem step_of_turn (π : T.Path) {a : α} (h : π.turn n = some a) :
    T.step a (π.state n) = some (π.state (n + 1)) := by
  have hnext := π.next n
  rw [h] at hnext
  exact hnext

/-- What the actions preserve holds at the next time. -/
theorem preserved (π : T.Path) {I : σ → Prop}
    (hstep : ∀ s a s', I s → T.step a s = some s' → I s') (h : I (π.state n)) :
    I (π.state (n + 1)) := by
  have hnext := π.next n
  cases hturn : π.turn n with
  | none =>
    rw [hturn] at hnext
    rw [hnext]
    exact h
  | some a =>
    rw [hturn] at hnext
    exact hstep _ a _ h hnext

/-- What the actions preserve holds from then on. -/
theorem stable (π : T.Path) {I : σ → Prop}
    (hstep : ∀ s a s', I s → T.step a s = some s' → I s') (hnm : n ≤ m) (h : I (π.state n)) :
    I (π.state m) := by
  induction hnm with
  | refl => exact h
  | step _ ih => exact π.preserved hstep ih

theorem invariant (π : T.Path) {I : σ → Prop} (h0 : ∀ s, T.init s → I s)
    (hstep : ∀ s a s', I s → T.step a s = some s' → I s') (n : ℕ) : I (π.state n) :=
  π.stable hstep (Nat.zero_le n) (h0 _ π.init)

/-- The state after the first `n` of the actions of a run. -/
def stateAt (T : StepSystem σ α) : List α → σ → ℕ → σ
  | a :: as, s, n + 1 => stateAt T as ((T.step a s).getD s) n
  | _, s, _ => s

theorem next_stateAt (as : List α) : ∀ {s s' : σ}, T.exec as s = some s' → ∀ n,
    T.Next (stateAt T as s n) (stateAt T as s (n + 1)) as[n]? := by
  induction as with
  | nil => exact fun _ n => by cases n with | zero | succ n => rfl
  | cons a as ih =>
    intro s s' h n
    obtain ⟨s₁, hs, hexec⟩ := Option.bind_eq_some_iff.mp h
    have hget : (T.step a s).getD s = s₁ := by
      rw [hs]
      rfl
    cases n with
    | zero =>
      show T.step a s = some (stateAt T as ((T.step a s).getD s) 0)
      rw [hget, hs]
      cases as with | nil | cons _ _ => rfl
    | succ n =>
      show T.Next (stateAt T as ((T.step a s).getD s) n)
        (stateAt T as ((T.step a s).getD s) (n + 1)) as[n]?
      rw [hget]
      exact ih hexec n

/-- A run that rests at its end. -/
def ofExec (as : List α) {s : σ} (hs : T.init s) (h : (T.exec as s).isSome = true) : T.Path where
  state := stateAt T as s
  turn n := as[n]?
  init := by cases as with | nil | cons _ _ => exact hs
  next := next_stateAt as (Option.some_get h).symm

end Path

end StepSystem
