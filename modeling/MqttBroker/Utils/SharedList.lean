import Mathlib.Data.List.Basic
import Mathlib.Data.Nat.Notation
import MqttBroker.Lib.HeldBy
import MqttBroker.Lib.StepSystem
import MqttBroker.Utils.List

/-!
# A `utils.List` between goroutines

`Push` appends under the mutex and signals after it has given the mutex back; `Pop` removes
under the mutex and signals again, still under it, when elements are left. The channel has
one slot, and both sends are without effect when it is full. A consumer receives from the
channel and then calls `Pop`; a consumer that loops starts again as another one.

No wake-up is lost: while the list has elements, the channel has a value, or a `Push` is
between its append and its signal, or a consumer is on its way from the channel to the end of
its `Pop`. So the goroutines do not all sleep while elements are left.
-/

namespace MqttBroker

/-- `utils.List`, with its mutex and its channel of one slot. -/
structure SharedList (α : Type) where
  l : List α
  /-- whether the mutex is locked -/
  mux : Bool
  /-- whether the channel has a value -/
  ch : Bool
  deriving DecidableEq, Repr

namespace SharedList

variable {α γ : Type}

/-- `NewList`. -/
def newList : SharedList α := ⟨[], false, false⟩

/-- `mux.Lock()`, which waits for the mutex. -/
def lock (x : SharedList α) : Option (SharedList α) :=
  if x.mux then none else some { x with mux := true }

def unlock (x : SharedList α) : SharedList α := { x with mux := false }

def pushBack (v : α) (x : SharedList α) : SharedList α := { x with l := GoList.push v x.l }

/-- The send with a `default`. -/
def signal (x : SharedList α) : SharedList α := { x with ch := true }

/-- The signal of `Pop`. -/
def signalRest (x : SharedList α) : SharedList α := if x.l.length > 0 then x.signal else x

/-- The receive from `Wait()`. -/
def receive (x : SharedList α) : Option (SharedList α) :=
  if x.ch then some { x with ch := false } else none

/-! ## Goroutines -/

/-- What a goroutine does next. A `Pop` is woken when a receive came before it; the literals of
`Each` and `Remove` come with the variables that they write. A `Pop` returns an element or nil,
the other methods nothing of interest. -/
inductive Goroutine (α γ : Type)
  | push (v : α)
  | pushLocked (v : α)
  | pushed
  | signalling
  | waiting
  | pop (woken : Bool)
  | popLocked (woken : Bool)
  | removed (woken : Bool) (v : α)
  | each (cb : α → γ → Bool × α × γ) (c : γ)
  | eachLocked (cb : α → γ → Bool × α × γ) (c : γ)
  | remove (cb : α → γ → (Bool × Bool) × γ) (c : γ)
  | removeLocked (cb : α → γ → (Bool × Bool) × γ) (c : γ)
  | len
  | leaving (v : Option α)
  | returned (v : Option α)

namespace Goroutine

/-- The goroutine is at the beginning of a call or of a consumer's turn. -/
def begins : Goroutine α γ → Bool
  | push _ | waiting | pop false | each _ _ | remove _ _ | len => true
  | _ => false

/-- The next operation, and the operation after it; `none` while it waits. -/
def step (x : SharedList α) : Goroutine α γ → Option (SharedList α × Goroutine α γ)
  | push v => x.lock.map fun x => (x, pushLocked v)
  | pushLocked v => some (x.pushBack v, pushed)
  | pushed => some (x.unlock, signalling)
  | signalling => some (x.signal, returned none)
  | waiting => x.receive.map fun x => (x, pop true)
  | pop woken => x.lock.map fun x => (x, popLocked woken)
  | popLocked woken =>
    match GoList.pop x.l with
    | (none, _) => some (x, leaving none)
    | (some v, l) => some ({ x with l }, removed woken v)
  | removed _ v => some (x.signalRest, leaving (some v))
  | each cb c => x.lock.map fun x => (x, eachLocked cb c)
  | eachLocked cb c => some ({ x with l := (GoList.each cb x.l c).1 }, leaving none)
  | remove cb c => x.lock.map fun x => (x, removeLocked cb c)
  | removeLocked cb c => some ({ x with l := (GoList.remove cb x.l c).1 }, leaving none)
  | len => x.lock.map fun x => (x, leaving none)
  | leaving v => some (x.unlock, returned v)
  | returned _ => none

/-- The goroutine has the mutex. -/
def holds : Goroutine α γ → Bool
  | pushLocked _ | pushed | popLocked _ | removed _ _ | eachLocked _ _ | removeLocked _ _
  | leaving _ => true
  | _ => false

/-- A `Push` between its append and its signal. -/
def appended : Goroutine α γ → Bool
  | pushed | signalling => true
  | _ => false

/-- A consumer that has received and whose `Pop` is not over. -/
def woken : Goroutine α γ → Bool
  | pop true | popLocked true | removed true _ => true
  | _ => false

end Goroutine

/-! ## The system -/

/-- A list and the goroutines that use it. -/
structure Use (α γ : Type) where
  list : SharedList α
  goroutines : List (Goroutine α γ)

inductive Turn (α γ : Type)
  | start (g : Goroutine α γ)
  | run (i : ℕ)

def Use.step : Turn α γ → Use α γ → Option (Use α γ)
  | .start g, s => if g.begins then some { s with goroutines := s.goroutines ++ [g] } else none
  | .run i, s =>
    match s.goroutines[i]? with
    | none => none
    | some g => (g.step s.list).map fun next => ⟨next.1, s.goroutines.set i next.2⟩

def system (α γ : Type) : StepSystem (Use α γ) (Turn α γ) where
  init s := s = ⟨newList, []⟩
  step := Use.step

variable {s s' : Use α γ} {x x' : SharedList α} {g g' : Goroutine α γ}

theorem step_start (hs : s.step (.start g) = some s') :
    g.begins = true ∧ s' = { s with goroutines := s.goroutines ++ [g] } := by
  rw [Use.step] at hs
  by_cases hg : g.begins = true
  · rw [if_pos hg] at hs
    exact ⟨hg, (Option.some.inj hs).symm⟩
  · rw [if_neg hg] at hs
    exact absurd hs (by simp)

theorem step_run {i : ℕ} (hs : s.step (.run i) = some s') :
    ∃ (hi : i < s.goroutines.length) (next : SharedList α × Goroutine α γ),
      s.goroutines[i].step s.list = some next ∧ s' = ⟨next.1, s.goroutines.set i next.2⟩ := by
  rw [Use.step] at hs
  cases hget : s.goroutines[i]? with
  | none =>
    rw [hget] at hs
    exact absurd hs (by simp)
  | some g =>
    rw [hget] at hs
    obtain ⟨next, hnext, rfl⟩ := Option.map_eq_some_iff.mp hs
    obtain ⟨hi, rfl⟩ := List.getElem?_eq_some_iff.mp hget
    exact ⟨hi, next, hnext, rfl⟩

/-! ## The mutex -/

/-- Locking, as a step from an operation to one that has the mutex. -/
theorem map_lock {next : Goroutine α γ} (h : (x.lock.map fun x => (x, next)) = some (x', g')) :
    x.mux = false ∧ x' = { x with mux := true } ∧ g' = next := by
  unfold lock at h
  by_cases hmux : x.mux = true
  · rw [if_pos hmux] at h
    exact absurd h (by simp)
  · rw [if_neg hmux, Option.map_some, Option.some.injEq, Prod.mk.injEq] at h
    exact ⟨by simpa using hmux, h.1.symm, h.2.symm⟩

/-- The mutex is locked when a goroutine has it, and one goroutine has it at most. -/
def Exclusive (s : Use α γ) : Prop :=
  s.goroutines.countP Goroutine.holds = s.list.mux.toNat

/-- The mutex and the goroutine that has it change together. -/
theorem step_mux (h : g.step x = some (x', g')) (hg : g.holds = true → x.mux = true) :
    x'.mux.toNat + g.holds.toNat = x.mux.toNat + g'.holds.toNat := by
  cases g with
  | push _ | pop _ | each _ _ | remove _ _ | len =>
    obtain ⟨hmux, rfl, rfl⟩ := map_lock h
    rw [hmux]
    rfl
  | waiting =>
    obtain ⟨x₁, hx₁, hnext⟩ := Option.map_eq_some_iff.mp h
    obtain ⟨rfl, rfl⟩ := Prod.mk.inj hnext
    unfold receive at hx₁
    by_cases hch : x.ch = true
    · rw [if_pos hch] at hx₁
      rw [← Option.some.inj hx₁]
      rfl
    · rw [if_neg hch] at hx₁
      exact absurd hx₁ (by simp)
  | pushLocked _ | signalling | eachLocked _ _ | removeLocked _ _ =>
    obtain ⟨rfl, rfl⟩ := Prod.mk.inj (Option.some.inj h)
    rfl
  | pushed | leaving _ =>
    obtain ⟨rfl, rfl⟩ := Prod.mk.inj (Option.some.inj h)
    rw [hg rfl]
    rfl
  | popLocked _ =>
    rw [Goroutine.step] at h
    split at h
    · obtain ⟨rfl, rfl⟩ := Prod.mk.inj (Option.some.inj h)
      rfl
    · obtain ⟨rfl, rfl⟩ := Prod.mk.inj (Option.some.inj h)
      rfl
  | removed _ _ =>
    obtain ⟨rfl, rfl⟩ := Prod.mk.inj (Option.some.inj h)
    unfold signalRest
    split
    · rfl
    · rfl
  | returned _ => exact absurd h (by simp [Goroutine.step])

/-- The count of `Exclusive` is the one of the library. -/
theorem Exclusive.heldBy (h : Exclusive s) : HeldBy Goroutine.holds s.goroutines s.list.mux := h

theorem Exclusive.step (h : Exclusive s) {t : Turn α γ} (hs : s.step t = some s') :
    Exclusive s' := by
  cases t with
  | start g =>
    obtain ⟨hg, rfl⟩ := step_start hs
    have hnot : g.holds = false := by
      cases g with
      | push _ | waiting | each _ _ | remove _ _ | len | pop _ => rfl
      | _ => exact absurd hg (by simp [Goroutine.begins])
    exact h.heldBy.append hnot
  | run i =>
    obtain ⟨hi, next, hnext, rfl⟩ := step_run hs
    exact h.heldBy.set hi (step_mux hnext (h.heldBy.held_eq hi))

/-! ## Wake-ups -/

/-- While the list has elements, somebody is to see to them: the value in the channel will wake
a consumer, a `Push` will put one there, or a consumer will take an element and, when others
are left, put a value there itself. -/
def Awake (s : Use α γ) : Prop :=
  s.list.l ≠ [] → s.list.ch = true ∨ (∃ g ∈ s.goroutines, g.appended = true) ∨
    ∃ g ∈ s.goroutines, g.woken = true

/-- After an operation of a goroutine the channel has a value, or the goroutine itself is to see
to the elements, unless the list had elements before it and the goroutine was not to see to
them; then the channel keeps its value. -/
theorem step_awake (h : g.step x = some (x', g')) (hl : x'.l ≠ []) :
    x'.ch = true ∨ g'.appended = true ∨ g'.woken = true ∨
      x.l ≠ [] ∧ g.appended = false ∧ g.woken = false ∧ x'.ch = x.ch := by
  cases g with
  | push _ | each _ _ | remove _ _ | len =>
    obtain ⟨-, rfl, rfl⟩ := map_lock h
    exact .inr (.inr (.inr ⟨hl, rfl, rfl, rfl⟩))
  | pop woken =>
    obtain ⟨-, rfl, rfl⟩ := map_lock h
    cases woken with
    | true => exact .inr (.inr (.inl rfl))
    | false => exact .inr (.inr (.inr ⟨hl, rfl, rfl, rfl⟩))
  | pushLocked _ | pushed =>
    obtain ⟨rfl, rfl⟩ := Prod.mk.inj (Option.some.inj h)
    exact .inr (.inl rfl)
  | signalling =>
    obtain ⟨rfl, rfl⟩ := Prod.mk.inj (Option.some.inj h)
    exact .inl rfl
  | waiting =>
    obtain ⟨_, -, hnext⟩ := Option.map_eq_some_iff.mp h
    obtain ⟨rfl, rfl⟩ := Prod.mk.inj hnext
    exact .inr (.inr (.inl rfl))
  | popLocked woken =>
    rw [Goroutine.step] at h
    cases hlist : x.l with
    | nil =>
      rw [hlist] at h
      obtain ⟨rfl, rfl⟩ := Prod.mk.inj (Option.some.inj h)
      exact absurd hlist hl
    | cons v l =>
      rw [hlist] at h
      obtain ⟨rfl, rfl⟩ := Prod.mk.inj (Option.some.inj h)
      cases woken with
      | true => exact .inr (.inr (.inl rfl))
      | false => exact .inr (.inr (.inr ⟨by simp, rfl, rfl, rfl⟩))
  | removed _ _ =>
    obtain ⟨rfl, rfl⟩ := Prod.mk.inj (Option.some.inj h)
    unfold signalRest at hl ⊢
    by_cases hlen : x.l.length > 0
    · rw [if_pos hlen]
      exact .inl rfl
    · rw [if_neg hlen] at hl
      exact absurd (List.length_pos_of_ne_nil hl) hlen
  | eachLocked cb c =>
    obtain ⟨rfl, rfl⟩ := Prod.mk.inj (Option.some.inj h)
    refine .inr (.inr (.inr ⟨fun hnil => hl ?_, rfl, rfl, rfl⟩))
    show (GoList.each cb x.l c).1 = []
    rw [hnil, GoList.each]
  | removeLocked cb c =>
    obtain ⟨rfl, rfl⟩ := Prod.mk.inj (Option.some.inj h)
    refine .inr (.inr (.inr ⟨fun hnil => hl ?_, rfl, rfl, rfl⟩))
    show (GoList.remove cb x.l c).1 = []
    rw [hnil, GoList.remove]
  | leaving _ =>
    obtain ⟨rfl, rfl⟩ := Prod.mk.inj (Option.some.inj h)
    exact .inr (.inr (.inr ⟨hl, rfl, rfl, rfl⟩))
  | returned _ => exact absurd h (by simp [Goroutine.step])

/-- A goroutine that did not do the operation, and one that it was not about, is still there. -/
theorem mem_set_of_mem {q : Goroutine α γ → Bool} {gs : List (Goroutine α γ)} {i : ℕ}
    (hi : i < gs.length) (hq : q gs[i] = false) (h : ∃ g ∈ gs, q g = true) (g' : Goroutine α γ) :
    ∃ g ∈ gs.set i g', q g = true := by
  obtain ⟨g, hmem, hg⟩ := h
  obtain ⟨j, hj, rfl⟩ := List.getElem_of_mem hmem
  have hij : i ≠ j := by
    intro hij
    subst hij
    rw [hg] at hq
    exact absurd hq (by simp)
  refine ⟨gs[j], List.mem_iff_getElem?.mpr ⟨j, ?_⟩, hg⟩
  rw [List.getElem?_set_ne hij, List.getElem?_eq_getElem hj]

theorem Awake.step (h : Awake s) {t : Turn α γ} (hs : s.step t = some s') : Awake s' := by
  cases t with
  | start g =>
    obtain ⟨-, rfl⟩ := step_start hs
    intro hl
    have hmem : ∀ {g₁ : Goroutine α γ}, g₁ ∈ s.goroutines → g₁ ∈ s.goroutines ++ [g] :=
      List.mem_append_left _
    exact (h hl).imp id (.imp (.imp fun _ hg => ⟨hmem hg.1, hg.2⟩)
      (.imp fun _ hg => ⟨hmem hg.1, hg.2⟩))
  | run i =>
    obtain ⟨hi, next, hnext, rfl⟩ := step_run hs
    intro hl
    have hself : next.2 ∈ s.goroutines.set i next.2 := List.mem_set hi _
    obtain hch | happ | hwoken | ⟨hbefore, happ, hwoken, hch⟩ := step_awake hnext hl
    · exact .inl hch
    · exact .inr (.inl ⟨_, hself, happ⟩)
    · exact .inr (.inr ⟨_, hself, hwoken⟩)
    · -- what keeps somebody awake is not the goroutine of this turn
      obtain hreason | hreason | hreason := h hbefore
      · exact .inl (hch.trans hreason)
      · exact .inr (.inl (mem_set_of_mem hi happ hreason _))
      · exact .inr (.inr (mem_set_of_mem hi hwoken hreason _))

/-! ## Elements -/

namespace Goroutine

/-- In a `Push` or a `Len`. -/
def adds : Goroutine α γ → Bool
  | push _ | pushLocked _ | pushed | signalling | len | leaving none | returned none => true
  | _ => false

/-- In a `Pop`, or after it. -/
def takes : Goroutine α γ → Bool
  | pop _ | popLocked _ | removed _ _ | leaving _ | returned _ => true
  | _ => false

/-- What the next operation appends. -/
def appends : Goroutine α γ → Option α
  | pushLocked v => some v
  | _ => none

/-- What a `Pop` has taken. -/
def taken : Goroutine α γ → Option α
  | removed _ v => some v
  | leaving v | returned v => v
  | _ => none

end Goroutine

@[simp] theorem l_signalRest : x.signalRest.l = x.l := by
  unfold signalRest
  split
  · rfl
  · rfl

theorem receive_l (h : x.receive = some x') : x'.l = x.l := by
  unfold receive at h
  by_cases hch : x.ch = true
  · rw [if_pos hch] at h
    rw [← Option.some.inj h]
  · rw [if_neg hch] at h
    exact absurd h (by simp)

/-- A `Push` adds its element at the back, and takes none. -/
theorem step_adds (h : g.step x = some (x', g')) (hg : g.adds = true) :
    g'.adds = true ∧ x'.l = x.l ++ g.appends.toList := by
  cases g with
  | push _ | len =>
    obtain ⟨-, rfl, rfl⟩ := map_lock h
    exact ⟨rfl, (List.append_nil _).symm⟩
  | pushLocked v =>
    obtain ⟨rfl, rfl⟩ := Prod.mk.inj (Option.some.inj h)
    exact ⟨rfl, rfl⟩
  | pushed | signalling =>
    obtain ⟨rfl, rfl⟩ := Prod.mk.inj (Option.some.inj h)
    exact ⟨rfl, (List.append_nil _).symm⟩
  | leaving v =>
    obtain ⟨rfl, rfl⟩ := Prod.mk.inj (Option.some.inj h)
    cases v with
    | none => exact ⟨rfl, (List.append_nil _).symm⟩
    | some v => exact absurd hg (by simp [Goroutine.adds])
  | returned _ => exact absurd h (by simp [Goroutine.step])
  | _ => exact absurd hg (by simp [Goroutine.adds])

/-- A `Pop` takes the element at the front, if there is one. -/
theorem step_takes (h : g.step x = some (x', g')) (hg : g.takes = true) :
    g'.takes = true ∧ g'.taken.toList ++ x'.l = g.taken.toList ++ x.l := by
  cases g with
  | pop _ =>
    obtain ⟨-, rfl, rfl⟩ := map_lock h
    exact ⟨rfl, rfl⟩
  | popLocked _ =>
    rw [Goroutine.step] at h
    cases hl : x.l with
    | nil =>
      rw [hl] at h
      obtain ⟨rfl, rfl⟩ := Prod.mk.inj (Option.some.inj h)
      exact ⟨rfl, hl⟩
    | cons v l =>
      rw [hl] at h
      obtain ⟨rfl, rfl⟩ := Prod.mk.inj (Option.some.inj h)
      exact ⟨rfl, rfl⟩
  | removed _ v =>
    obtain ⟨rfl, rfl⟩ := Prod.mk.inj (Option.some.inj h)
    exact ⟨rfl, by rw [l_signalRest]; rfl⟩
  | leaving v =>
    obtain ⟨rfl, rfl⟩ := Prod.mk.inj (Option.some.inj h)
    exact ⟨rfl, rfl⟩
  | returned _ => exact absurd h (by simp [Goroutine.step])
  | _ => exact absurd hg (by simp [Goroutine.takes])

namespace Goroutine

/-- In a `Push` of `v`. -/
def Pushing (v : α) : Goroutine α γ → Prop
  | push v' | pushLocked v' => v' = v
  | pushed | signalling | returned none => True
  | _ => False

/-- In a `Pop` that has found an element, or has not looked yet. -/
def Popping : Goroutine α γ → Prop
  | pop _ | popLocked _ | removed _ _ | leaving (some _) | returned (some _) => True
  | _ => False

/-- What a `Push` has still to append. -/
def carried : Goroutine α γ → Option α
  | push v | pushLocked v => some v
  | _ => none

/-- What the call has returned. -/
def ended : Goroutine α γ → Option (Option α)
  | returned v => some v
  | _ => none

theorem ended_eq_some {v : Option α} (h : g.ended = some v) : g = returned v := by
  cases g with
  | returned v' => rw [Option.some.inj h]
  | _ => exact absurd h (by simp [ended])

end Goroutine

/-- A `Push` appends its element, and nothing else. -/
theorem step_pushing {v : α} (h : g.step x = some (x', g')) (hg : g.Pushing v) :
    g'.Pushing v ∧ (x'.l = x.l ∨ x'.l = x.l ++ [v]) := by
  cases g with
  | push v' =>
    obtain ⟨-, rfl, rfl⟩ := map_lock h
    exact ⟨hg, .inl rfl⟩
  | pushLocked v' =>
    obtain ⟨rfl, rfl⟩ := Prod.mk.inj (Option.some.inj h)
    obtain rfl : v' = v := hg
    exact ⟨trivial, .inr rfl⟩
  | pushed | signalling =>
    obtain ⟨rfl, rfl⟩ := Prod.mk.inj (Option.some.inj h)
    exact ⟨trivial, .inl rfl⟩
  | returned v' => exact absurd h (by simp [Goroutine.step])
  | _ => exact hg.elim

/-- What a `Push` carries goes to the back of the list. -/
theorem step_carried (h : g.step x = some (x', g')) (hg : g.adds = true) :
    x'.l ++ g'.carried.toList = x.l ++ g.carried.toList := by
  cases g with
  | push _ | len =>
    obtain ⟨-, rfl, rfl⟩ := map_lock h
    rfl
  | pushLocked v =>
    obtain ⟨rfl, rfl⟩ := Prod.mk.inj (Option.some.inj h)
    exact List.append_nil _
  | pushed | signalling | leaving _ =>
    obtain ⟨rfl, rfl⟩ := Prod.mk.inj (Option.some.inj h)
    rfl
  | returned _ => exact absurd h (by simp [Goroutine.step])
  | _ => exact absurd hg (by simp [Goroutine.adds])

/-- A `Pop` that looks at a list with elements finds one of them. -/
theorem step_popping (h : g.step x = some (x', g')) (hg : g.Popping)
    (hl : ∀ woken, g = .popLocked woken → x.l ≠ []) : g'.Popping := by
  cases g with
  | pop _ =>
    obtain ⟨-, -, rfl⟩ := map_lock h
    exact trivial
  | popLocked woken =>
    rw [Goroutine.step] at h
    cases hlist : x.l with
    | nil => exact absurd hlist (hl woken rfl)
    | cons v l =>
      rw [hlist] at h
      obtain ⟨-, rfl⟩ := Prod.mk.inj (Option.some.inj h)
      exact trivial
  | removed _ v =>
    obtain ⟨-, rfl⟩ := Prod.mk.inj (Option.some.inj h)
    exact trivial
  | leaving v =>
    obtain ⟨-, rfl⟩ := Prod.mk.inj (Option.some.inj h)
    cases v with | none => exact hg.elim | some v => exact trivial
  | returned _ => exact absurd h (by simp [Goroutine.step])
  | _ => exact hg.elim

theorem Goroutine.Pushing.adds {v : α} (hg : g.Pushing v) : g.adds = true := by
  cases g with
  | push _ | pushLocked _ | pushed | signalling => rfl
  | returned v' => cases v' with | none => rfl | some _ => exact hg.elim
  | _ => exact hg.elim

theorem Goroutine.Popping.takes (hg : g.Popping) : g.takes = true := by
  cases g with
  | pop _ | popLocked _ | removed _ _ | leaving _ | returned _ => rfl
  | _ => exact hg.elim

/-! ## Signals -/

/-- A `Pop` that has yet to look for an element. -/
def Goroutine.looks : Goroutine α γ → Bool
  | pop _ | popLocked _ => true
  | _ => false

/-- There is an element for every signal: for those that the `Push`es still have to send, for the
one in the channel, and for the one that a consumer has received when it has yet to look. -/
def Backed (x : SharedList α) (pushes : ℕ) (looks : Bool) : Prop :=
  pushes + x.ch.toNat + looks.toNat ≤ x.l.length

/-- The signal of a `Pop` that has removed an element has one too. -/
def Spare (x : SharedList α) (pushes : ℕ) : Prop :=
  x.l ≠ [] → x.ch = false → pushes < x.l.length

instance (x : SharedList α) (pushes : ℕ) : Decidable (x.Spare pushes) :=
  inferInstanceAs (Decidable (_ → _ → _))

namespace Backed

variable {pushes : ℕ} {looks : Bool}

/-- Who looks finds an element. -/
theorem ne_nil (h : x.Backed pushes true) : x.l ≠ [] := by
  have h : pushes + x.ch.toNat + 1 ≤ x.l.length := h
  exact List.ne_nil_of_length_pos (by omega)

/-- A `Push` brings its signal together with its element. -/
theorem push (h : x.Backed (pushes + g.appended.toNat) looks) (hg : g.adds = true)
    (hs : g.step x = some (x', g')) : x'.Backed (pushes + g'.appended.toNat) looks := by
  cases g with
  | push v | len =>
    obtain ⟨-, rfl, rfl⟩ := map_lock hs
    exact h
  | pushLocked v =>
    obtain ⟨rfl, rfl⟩ := Prod.mk.inj (Option.some.inj hs)
    have h : pushes + 0 + x.ch.toNat + looks.toNat ≤ x.l.length := h
    show pushes + 1 + x.ch.toNat + looks.toNat ≤ (x.l ++ [v]).length
    rw [List.length_append, List.length_singleton]
    omega
  | pushed =>
    obtain ⟨rfl, rfl⟩ := Prod.mk.inj (Option.some.inj hs)
    exact h
  | signalling =>
    obtain ⟨rfl, rfl⟩ := Prod.mk.inj (Option.some.inj hs)
    have h : pushes + 1 + x.ch.toNat + looks.toNat ≤ x.l.length := h
    show pushes + 0 + 1 + looks.toNat ≤ x.l.length
    omega
  | leaving v =>
    obtain ⟨rfl, rfl⟩ := Prod.mk.inj (Option.some.inj hs)
    exact h
  | returned _ => exact absurd hs (by simp [Goroutine.step])
  | _ => exact absurd hg (by simp [Goroutine.adds])

theorem receive (h : x.Backed pushes false) (hs : x.receive = some x') :
    x'.Backed pushes true := by
  unfold SharedList.receive at hs
  by_cases hch : x.ch = true
  · rw [if_pos hch] at hs
    obtain rfl := Option.some.inj hs
    rw [Backed, hch] at h
    exact h
  · rw [if_neg hch] at hs
    exact absurd hs (by simp)

/-- A `Pop` removes the element for the signal that was received. -/
theorem pop (h : x.Backed pushes g.looks) (hg : g.takes = true)
    (hspare : ∀ woken v, g = .removed woken v → x.Spare pushes)
    (hs : g.step x = some (x', g')) : x'.Backed pushes g'.looks := by
  cases g with
  | pop woken =>
    obtain ⟨-, rfl, rfl⟩ := map_lock hs
    exact h
  | popLocked woken =>
    rw [Goroutine.step] at hs
    cases hl : x.l with
    | nil => exact absurd hl h.ne_nil
    | cons v l =>
      rw [hl] at hs
      obtain ⟨rfl, rfl⟩ := Prod.mk.inj (Option.some.inj hs)
      have h : pushes + x.ch.toNat + 1 ≤ x.l.length := h
      rw [hl, List.length_cons] at h
      show pushes + x.ch.toNat + 0 ≤ l.length
      omega
  | removed woken v =>
    obtain ⟨rfl, rfl⟩ := Prod.mk.inj (Option.some.inj hs)
    have hspare := hspare woken v rfl
    have h : pushes + x.ch.toNat + 0 ≤ x.l.length := h
    show x.signalRest.Backed pushes false
    unfold signalRest
    split
    · next hlen =>
      -- the signal has no effect when the channel has a value
      show pushes + 1 + 0 ≤ x.l.length
      cases hch : x.ch with
      | true =>
        rw [hch] at h
        exact h
      | false => exact hspare (List.ne_nil_of_length_pos hlen) hch
    · exact h
  | leaving v =>
    obtain ⟨rfl, rfl⟩ := Prod.mk.inj (Option.some.inj hs)
    exact h
  | returned _ => exact absurd hs (by simp [Goroutine.step])
  | _ => exact absurd hg (by simp [Goroutine.takes])

end Backed

/-! ## Every run -/

theorem reachable_exclusive (h : (system α γ).Reachable s) : Exclusive s :=
  StepSystem.Reach.invariant (fun _ hs => by rw [hs]; rfl) (fun _ _ _ hI _ hs => hI.step hs) h

theorem reachable_awake (h : (system α γ).Reachable s) : Awake s :=
  StepSystem.Reach.invariant (fun _ hs hl => absurd (by rw [hs]; rfl) hl)
    (fun _ _ _ hI _ hs => hI.step hs) h

/-- A goroutine waits for the mutex or for a value in the channel only. -/
theorem step_eq_none (h : g.step x = none) (hg : ∀ v, g ≠ .returned v) :
    x.mux = true ∧ g.holds = false ∨ g = .waiting ∧ x.ch = false := by
  cases g with
  | push _ | pop _ | each _ _ | remove _ _ | len =>
    refine .inl ⟨?_, rfl⟩
    rw [Goroutine.step, Option.map_eq_none_iff, lock] at h
    by_contra hmux
    rw [if_neg hmux] at h
    exact absurd h (by simp)
  | waiting =>
    refine .inr ⟨rfl, ?_⟩
    rw [Goroutine.step, Option.map_eq_none_iff, receive] at h
    by_contra hch
    rw [Bool.not_eq_false] at hch
    rw [if_pos hch] at h
    exact absurd h (by simp)
  | popLocked _ =>
    rw [Goroutine.step] at h
    split at h
    · exact absurd h (by simp)
    · exact absurd h (by simp)
  | returned v => exact absurd rfl (hg v)
  | _ => exact absurd h (by simp [Goroutine.step])

/-- The goroutine that has locked the mutex goes on. -/
theorem Exclusive.exists_holder (h : Exclusive s) (hmux : s.list.mux = true) :
    ∃ g ∈ s.goroutines, g.holds = true :=
  HeldBy.exists_of_held (hmux ▸ h.heldBy)

theorem not_returned_of_holds (h : g.holds = true) (v : Option α) : g ≠ .returned v := by
  intro hg
  rw [hg] at h
  exact absurd h (by simp [Goroutine.holds])

/-- When no goroutine can go on, none has the mutex. -/
theorem Exclusive.mux_of_asleep (h : Exclusive s) (hasleep : ∀ g ∈ s.goroutines,
    g.step s.list = none) : s.list.mux = false := by
  by_contra hmux
  rw [Bool.not_eq_false] at hmux
  obtain ⟨g, hmem, hg⟩ := h.exists_holder hmux
  obtain ⟨-, hnot⟩ | ⟨rfl, -⟩ := step_eq_none (hasleep g hmem) (not_returned_of_holds hg)
  · rw [hg] at hnot
    exact absurd hnot (by simp)
  · exact absurd hg (by simp [Goroutine.holds])

theorem asleep_of_run (h : ∀ i, s.step (.run i) = none) : ∀ g ∈ s.goroutines,
    g.step s.list = none := by
  intro g hmem
  obtain ⟨i, hi⟩ := List.mem_iff_getElem?.mp hmem
  have hrun := h i
  rw [Use.step, hi] at hrun
  exact Option.map_eq_none_iff.mp hrun

/-- While no goroutine has the mutex, a goroutine that is to see to the elements is before its
signal or before its `Pop`. -/
theorem Awake.outside (h : Awake s) (hexclusive : Exclusive s) (hl : s.list.l ≠ [])
    (hmux : s.list.mux = false) :
    s.list.ch = true ∨ .signalling ∈ s.goroutines ∨ .pop true ∈ s.goroutines := by
  have hfree : ∀ g ∈ s.goroutines, g.holds = false := by
    intro g hmem
    by_contra hg
    rw [Bool.not_eq_false] at hg
    obtain ⟨i, hi, rfl⟩ := List.getElem_of_mem hmem
    rw [hexclusive.heldBy.held_eq hi hg] at hmux
    exact absurd hmux (by simp)
  obtain hch | ⟨g, hmem, hg⟩ | ⟨g, hmem, hg⟩ := h hl
  · exact .inl hch
  · have hnot := hfree g hmem
    cases g with
    | signalling => exact .inr (.inl hmem)
    | pushed => exact absurd hnot (by simp [Goroutine.holds])
    | _ => exact absurd hg (by simp [Goroutine.appended])
  · have hnot := hfree g hmem
    cases g with
    | pop woken =>
      cases woken with
      | true => exact .inr (.inr hmem)
      | false => exact absurd hg (by simp [Goroutine.woken])
    | popLocked _ | removed _ _ => exact absurd hnot (by simp [Goroutine.holds])
    | _ => exact absurd hg (by simp [Goroutine.woken])

/-- In every state that any number of goroutines reach with calls of `Push`, `Pop`, `Each`,
`Remove` and `Len` and with receives that a `Pop` follows: if the list has elements, the channel
has a value, or a `Push` is between its append and its signal, or a consumer has received and
its `Pop` is not over; while no goroutine has the mutex, this consumer has taken nothing yet.
And when no goroutine can go on while a consumer waits, the list is empty. -/
theorem no_lost_wakeup (h : (system α γ).Reachable s) :
    (s.list.l ≠ [] → s.list.ch = true ∨ (∃ g ∈ s.goroutines, g.appended = true) ∨
      ∃ g ∈ s.goroutines, g.woken = true) ∧
    (s.list.l ≠ [] → s.list.mux = false →
      s.list.ch = true ∨ .signalling ∈ s.goroutines ∨ .pop true ∈ s.goroutines) ∧
    ((∀ i, s.step (.run i) = none) → .waiting ∈ s.goroutines → s.list.l = []) := by
  have hexclusive := reachable_exclusive h
  have hawake := reachable_awake h
  refine ⟨hawake, hawake.outside hexclusive, fun hrun hwaiting => ?_⟩
  have hasleep := asleep_of_run hrun
  have hmux := hexclusive.mux_of_asleep hasleep
  have hunlocked : s.list.mux ≠ true := by
    rw [hmux]
    exact Bool.false_ne_true
  by_contra hl
  obtain hch | hmem | hmem := hawake.outside hexclusive hl hmux
  · -- the consumer that waits would receive the value
    obtain ⟨hlocked, -⟩ | ⟨-, hnot⟩ := step_eq_none (hasleep _ hwaiting) (by simp)
    · exact hunlocked hlocked
    · rw [hch] at hnot
      exact absurd hnot (by simp)
  · exact absurd (hasleep _ hmem) (by simp [Goroutine.step])
  · obtain ⟨hlocked, -⟩ | ⟨hnot, -⟩ := step_eq_none (hasleep _ hmem) (by simp)
    · exact hunlocked hlocked
    · exact absurd hnot (by simp)

/-- Two calls of `Push` return, and a consumer receives from the channel. -/
def twoPushed : List (Turn ℕ Unit) :=
  [.start (.push 7), .start (.push 8), .start .waiting, .run 0, .run 0, .run 0, .run 0, .run 1,
    .run 1, .run 1, .run 1, .run 2]

/-- The signals of two elements are one value in the channel: the consumer that has received it
is what keeps the second element from being forgotten. -/
theorem no_lost_wakeup_two : ∃ s : Use ℕ Unit, (system ℕ Unit).Reachable s ∧
    s.list = ⟨[7, 8], false, false⟩ ∧
    (s.list.ch = true ∨ .signalling ∈ s.goroutines ∨ .pop true ∈ s.goroutines) := by
  have hrun : ∃ s, (system ℕ Unit).exec twoPushed ⟨newList, []⟩ = some s ∧
      s.list = ⟨[7, 8], false, false⟩ := ⟨_, rfl, rfl⟩
  obtain ⟨s, hexec, hlist⟩ := hrun
  have hs : (system ℕ Unit).Reachable s := StepSystem.reachable_of_exec rfl hexec
  refine ⟨s, hs, hlist, (no_lost_wakeup hs).2.1 ?_ ?_⟩
  · rw [hlist]
    exact List.cons_ne_nil 7 [8]
  · rw [hlist]

end SharedList
end MqttBroker
