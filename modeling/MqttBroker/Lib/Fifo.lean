import Mathlib.Data.List.Basic
import MqttBroker.Lib.StepSystem

/-!
# Ideal queues

A `Fifo` is a queue with its history: what has entered it and what has left it. Elements leave
in the order in which they entered, each once, so at any time what has left is a prefix of what
has entered. A system that simulates a queue has the same property: it is enough to say, for
each of its states, which queue it stands for, and to see that its steps let at most one
element enter or leave.
-/

/-- A queue, what has entered it and what has left it. -/
@[ext]
structure Fifo (α : Type) where
  queue : List α
  entered : List α
  left : List α

namespace Fifo

variable {α : Type}

def empty : Fifo α := ⟨[], [], []⟩

/-- An element enters at the back. -/
def enter (v : α) (q : Fifo α) : Fifo α :=
  { q with queue := q.queue ++ [v], entered := q.entered ++ [v] }

/-- The element at the front leaves, if there is one. -/
def leave (q : Fifo α) : Fifo α :=
  { q with queue := q.queue.tail, left := q.left ++ q.queue.head?.toList }

inductive Step (q : Fifo α) : Fifo α → Prop
  | stay : Step q q
  | enter (v : α) : Step q (q.enter v)
  | leave : Step q q.leave

/-- What has entered has left or is still there. -/
def Conserves (q : Fifo α) : Prop := q.entered = q.left ++ q.queue

theorem Conserves.step {q q' : Fifo α} (h : q.Conserves) (hs : Step q q') : q'.Conserves := by
  unfold Conserves at h ⊢
  cases hs with
  | stay => exact h
  | enter v =>
    rw [Fifo.enter, h]
    exact List.append_assoc ..
  | leave =>
    rw [Fifo.leave, h, List.append_assoc]
    cases q.queue with
    | nil => rfl
    | cons v queue => rfl

theorem Conserves.left_prefix {q : Fifo α} (h : q.Conserves) : q.left <+: q.entered := by
  rw [h]
  exact List.prefix_append _ _

/-- A system whose states stand for queues, and whose steps are steps of these queues in the
states of an invariant, conserves what enters. -/
theorem conserves_of_simulates {σ β : Type} {T : StepSystem σ β} {I : σ → Prop}
    (queueOf : σ → Fifo α) (h0 : ∀ s, T.init s → I s ∧ queueOf s = empty)
    (hstep : ∀ s a s', I s → T.step a s = some s' → I s' ∧ Step (queueOf s) (queueOf s'))
    {s : σ} (h : T.Reachable s) : (queueOf s).Conserves := by
  have hboth : I s ∧ (queueOf s).Conserves := by
    refine StepSystem.Reach.invariant (I := fun s => I s ∧ (queueOf s).Conserves) ?_ ?_ h
    · intro s hs
      obtain ⟨hI, hq⟩ := h0 s hs
      rw [hq]
      exact ⟨hI, rfl⟩
    · intro s a s' hs _ hs'
      obtain ⟨hI, hq⟩ := hstep s a s' hs.1 hs'
      exact ⟨hI, hs.2.step hq⟩
  exact hboth.2

end Fifo
