import MqttBroker.Lib.HeldBy
import MqttBroker.Store.MemStore

/-!
# The locks of the retained messages

`SaveRetainMsg` writes the map of retained messages under `mtx`, `RemoveMsgByTopic` and
`GetAllRetainMsgs` use it under `retainMtx`. Here a call is a sequence of operations: it locks
its mutex, looks at the map or changes it one access after another, and unlocks. Calls under
one mutex exclude each other; nothing keeps calls under the two mutexes apart.
-/

namespace MqttBroker
namespace MemStore

/-- The mutexes of a `memStore`. -/
inductive Mutex
  | mtx
  | retainMtx
deriving DecidableEq

def Mutex.other : Mutex → Mutex
  | .mtx => .retainMtx
  | .retainMtx => .mtx

/-- A `memStore` with its mutexes. -/
structure Locked where
  store : MemStore
  mtx : Bool := false
  retainMtx : Bool := false

namespace Locked

/-- Whether a mutex is locked. -/
def held (x : Locked) : Mutex → Bool
  | .mtx => x.mtx
  | .retainMtx => x.retainMtx

def setHeld (x : Locked) (v : Bool) : Mutex → Locked
  | .mtx => { x with mtx := v }
  | .retainMtx => { x with retainMtx := v }

/-- `Lock()`, which waits for the mutex. -/
def lock (m : Mutex) (x : Locked) : Option Locked :=
  if x.held m then none else some (x.setHeld true m)

def unlock (m : Mutex) (x : Locked) : Locked := x.setHeld false m

theorem held_setHeld (x : Locked) (v : Bool) (m m' : Mutex) :
    (x.setHeld v m).held m' = if m = m' then v else x.held m' := by
  cases m with
  | mtx => cases m' with | mtx | retainMtx => rfl
  | retainMtx => cases m' with | mtx | retainMtx => rfl

theorem store_setHeld (x : Locked) (v : Bool) (m : Mutex) : (x.setHeld v m).store = x.store := by
  cases m with | mtx | retainMtx => rfl

end Locked

/-- What a call on the retained messages returns; `SaveRetainMsg` returns nil. -/
structure Returned where
  msgs : List Msg := []
  err : Option StoreError := none

/-- What a call on the retained messages does next. The `range` of `GetAllRetainMsgs` visits the
topics that the map has when it begins, and leaves out those that are gone by then. -/
inductive RetainCall
  | saveRetainMsg (topic body : GoString) (qos : UInt8)
  | saving (topic body : GoString) (qos : UInt8)
  | removeMsgByTopic (topic : GoString)
  | looking (topic : GoString)
  | deleting (topic : GoString)
  | getAllRetainMsgs (order : RangeOrder GoString Msg)
  | ranging (order : RangeOrder GoString Msg)
  | visiting (left : List GoString) (msgs : List Msg)
  | leaving (m : Mutex) (r : Returned)
  | returned (r : Returned)

namespace RetainCall

/-- The calls of the three methods. -/
def begins : RetainCall → Bool
  | saveRetainMsg _ _ _ | removeMsgByTopic _ | getAllRetainMsgs _ => true
  | _ => false

/-- The mutex that is locked next. -/
def locks : RetainCall → Option Mutex
  | saveRetainMsg _ _ _ => some .mtx
  | removeMsgByTopic _ | getAllRetainMsgs _ => some .retainMtx
  | _ => none

/-- The next operation is an access to the map, under the mutex. -/
def inside (m : Mutex) : RetainCall → Bool
  | saving _ _ _ => m = .mtx
  | looking _ | deleting _ | ranging _ | visiting _ _ => m = .retainMtx
  | _ => false

/-- The call has the mutex. -/
def holds (m : Mutex) : RetainCall → Bool
  | leaving m' _ => m = m'
  | call => call.inside m

/-- A call inside its accesses that changes the map. -/
def modifies : RetainCall → Bool
  | saving _ _ _ | looking _ | deleting _ => true
  | _ => false

/-- The next operation of a call, and the operation after it; `none` while it waits. -/
def step (x : Locked) : RetainCall → Option (Locked × RetainCall)
  | saveRetainMsg topic body qos => (x.lock .mtx).map fun x => (x, saving topic body qos)
  | saving topic body qos =>
    some ({ x with store := x.store.saveRetainMsg topic body qos }, leaving .mtx {})
  | removeMsgByTopic topic => (x.lock .retainMtx).map fun x => (x, looking topic)
  | looking topic =>
    if topic ∈ x.store.retainMsgs then some (x, deleting topic)
    else some (x, leaving .retainMtx { err := some .errNoExsit })
  | deleting topic =>
    some ({ x with store := { x.store with retainMsgs := x.store.retainMsgs.erase topic } },
      leaving .retainMtx {})
  | getAllRetainMsgs order => (x.lock .retainMtx).map fun x => (x, ranging order)
  | ranging order => some (x, visiting ((order.toList x.store.retainMsgs).map Sigma.fst) [])
  | visiting [] msgs => some (x, leaving .retainMtx { msgs })
  | visiting (topic :: left) msgs =>
    some (x, visiting left (msgs ++ (x.store.retainMsgs.lookup topic).toList))
  | leaving m r => some (x.unlock m, returned r)
  | returned _ => none

end RetainCall

/-! ## The system -/

/-- A store and the calls on its retained messages. -/
structure Shared where
  locked : Locked
  calls : List RetainCall

inductive Turn
  | call (c : RetainCall)
  | run (i : ℕ)

def Shared.step : Turn → Shared → Option Shared
  | .call c, s => if c.begins then some { s with calls := s.calls ++ [c] } else none
  | .run i, s =>
    match s.calls[i]? with
    | none => none
    | some c => (c.step s.locked).map fun next => ⟨next.1, s.calls.set i next.2⟩

/-- A store that nobody uses. -/
def idle (store : MemStore) : Shared := ⟨{ store }, []⟩

/-- Any number of calls on a store, in any order of their operations. -/
def concurrent : StepSystem Shared Turn where
  init s := ∃ store, s = idle store
  step := Shared.step

/-- No two calls are inside their accesses at the same time when one of them changes the map. -/
def Exclusive (s : Shared) : Prop :=
  ∀ i j, ∀ (hi : i < s.calls.length) (hj : j < s.calls.length), i ≠ j →
    s.calls[i].modifies = true → ∀ m, s.calls[j].inside m = false

variable {s s' : Shared} {x x' : Locked} {c c' : RetainCall} {t : Turn}

theorem step_call (hs : s.step (.call c) = some s') :
    c.begins = true ∧ s' = { s with calls := s.calls ++ [c] } := by
  rw [Shared.step] at hs
  by_cases hc : c.begins = true
  · rw [if_pos hc] at hs
    exact ⟨hc, (Option.some.inj hs).symm⟩
  · rw [if_neg hc] at hs
    exact absurd hs (by simp)

theorem step_run {i : ℕ} (hs : s.step (.run i) = some s') :
    ∃ (hi : i < s.calls.length) (next : Locked × RetainCall),
      s.calls[i].step s.locked = some next ∧ s' = ⟨next.1, s.calls.set i next.2⟩ := by
  rw [Shared.step] at hs
  cases hget : s.calls[i]? with
  | none =>
    rw [hget] at hs
    exact absurd hs (by simp)
  | some c =>
    rw [hget] at hs
    obtain ⟨next, hnext, rfl⟩ := Option.map_eq_some_iff.mp hs
    obtain ⟨hi, rfl⟩ := List.getElem?_eq_some_iff.mp hget
    exact ⟨hi, next, hnext, rfl⟩

/-! ## One operation -/

theorem map_lock {m : Mutex} {next : RetainCall}
    (h : ((x.lock m).map fun x => (x, next)) = some (x', c')) :
    x.held m = false ∧ x' = x.setHeld true m ∧ c' = next := by
  unfold Locked.lock at h
  by_cases hheld : x.held m = true
  · rw [if_pos hheld] at h
    exact absurd h (by simp)
  · rw [if_neg hheld, Option.map_some, Option.some.injEq, Prod.mk.injEq] at h
    exact ⟨by simpa using hheld, h.1.symm, h.2.symm⟩

/-- What an operation can be: the mutex is locked and the accesses begin, or the call, which has
its mutex, makes an access and keeps the mutex, or it unlocks. -/
theorem step_cases (h : c.step x = some (x', c')) :
    (∃ m, c.locks = some m ∧ x.held m = false ∧ x' = x.setHeld true m ∧ c'.inside m = true) ∨
    (∃ m store, c.inside m = true ∧ x' = { x with store } ∧ c'.holds m = true ∧
      (store = x.store ∨ c.modifies = true ∧ ∃ call : Call, store = call.apply x.store)) ∨
    ∃ m r, c = .leaving m r ∧ x' = x.setHeld false m ∧ c' = .returned r := by
  cases c with
  | saveRetainMsg _ _ _ | removeMsgByTopic _ | getAllRetainMsgs _ =>
    obtain ⟨hheld, rfl, rfl⟩ := map_lock h
    exact .inl ⟨_, rfl, hheld, rfl, rfl⟩
  | saving topic body qos =>
    obtain ⟨rfl, rfl⟩ := Prod.mk.inj (Option.some.inj h)
    exact .inr (.inl ⟨.mtx, _, rfl, rfl, rfl, .inr ⟨rfl, .saveRetainMsg topic body qos, rfl⟩⟩)
  | looking topic =>
    rw [RetainCall.step] at h
    split at h
    · obtain ⟨rfl, rfl⟩ := Prod.mk.inj (Option.some.inj h)
      exact .inr (.inl ⟨.retainMtx, _, rfl, rfl, rfl, .inl rfl⟩)
    · obtain ⟨rfl, rfl⟩ := Prod.mk.inj (Option.some.inj h)
      exact .inr (.inl ⟨.retainMtx, _, rfl, rfl, rfl, .inl rfl⟩)
  | deleting topic =>
    obtain ⟨rfl, rfl⟩ := Prod.mk.inj (Option.some.inj h)
    refine .inr (.inl ⟨.retainMtx, _, rfl, rfl, rfl, .inr ⟨rfl, .removeMsgByTopic topic, ?_⟩⟩)
    rw [Call.apply, removeMsgByTopic]
    split
    · rfl
    · next hgone => rw [GoMap.erase_of_notMem hgone]
  | ranging order =>
    obtain ⟨rfl, rfl⟩ := Prod.mk.inj (Option.some.inj h)
    exact .inr (.inl ⟨.retainMtx, _, rfl, rfl, rfl, .inl rfl⟩)
  | visiting left msgs =>
    cases left with
    | nil =>
      obtain ⟨rfl, rfl⟩ := Prod.mk.inj (Option.some.inj h)
      exact .inr (.inl ⟨.retainMtx, _, rfl, rfl, rfl, .inl rfl⟩)
    | cons topic left =>
      obtain ⟨rfl, rfl⟩ := Prod.mk.inj (Option.some.inj h)
      exact .inr (.inl ⟨.retainMtx, _, rfl, rfl, rfl, .inl rfl⟩)
  | leaving m r =>
    obtain ⟨rfl, rfl⟩ := Prod.mk.inj (Option.some.inj h)
    exact .inr (.inr ⟨m, r, rfl, rfl, rfl⟩)
  | returned _ => exact absurd h (by simp [RetainCall.step])

namespace RetainCall

theorem holds_of_inside {m : Mutex} (h : c.inside m = true) : c.holds m = true := by
  cases c with
  | leaving _ _ => exact absurd h (by simp [inside])
  | _ => exact h

/-- A call has one mutex at most. -/
theorem holds_eq {m : Mutex} (h : c.holds m = true) (m' : Mutex) :
    c.holds m' = decide (m' = m) := by
  cases c with
  | saving _ _ _ | looking _ | deleting _ | ranging _ | visiting _ _ | leaving _ _ =>
    rw [of_decide_eq_true h]
    rfl
  | _ => exact absurd h (by simp [holds, inside])

theorem holds_of_locks {m : Mutex} (h : c.locks = some m) (m' : Mutex) : c.holds m' = false := by
  cases c with
  | saveRetainMsg _ _ _ | removeMsgByTopic _ | getAllRetainMsgs _ => rfl
  | _ => exact absurd h (by simp [locks])

theorem inside_of_modifies (h : c.modifies = true) : ∃ m, c.inside m = true := by
  cases c with
  | saving _ _ _ => exact ⟨.mtx, rfl⟩
  | looking _ | deleting _ => exact ⟨.retainMtx, rfl⟩
  | _ => exact absurd h (by simp [modifies])

theorem holds_of_begins (h : c.begins = true) (m : Mutex) : c.holds m = false := by
  cases c with
  | saveRetainMsg _ _ _ | removeMsgByTopic _ | getAllRetainMsgs _ => rfl
  | _ => exact absurd h (by simp [begins])

/-- A mutex that is free is locked at once. -/
theorem step_of_locks {m : Mutex} (h : c.locks = some m) (hfree : x.held m = false) :
    ∃ c', c.step x = some (x.setHeld true m, c') ∧ c'.inside m = true := by
  have hlock : x.lock m = some (x.setHeld true m) := by
    rw [Locked.lock, hfree, if_neg Bool.false_ne_true]
  cases c with
  | saveRetainMsg topic body qos =>
    obtain rfl : Mutex.mtx = m := Option.some.inj h
    exact ⟨saving topic body qos, by rw [step, hlock, Option.map_some], rfl⟩
  | removeMsgByTopic topic =>
    obtain rfl : Mutex.retainMtx = m := Option.some.inj h
    exact ⟨looking topic, by rw [step, hlock, Option.map_some], rfl⟩
  | getAllRetainMsgs order =>
    obtain rfl : Mutex.retainMtx = m := Option.some.inj h
    exact ⟨ranging order, by rw [step, hlock, Option.map_some], rfl⟩
  | _ => exact absurd h (by simp [locks])

end RetainCall

/-- A mutex and the call that has it change together. -/
theorem step_held (h : c.step x = some (x', c')) (hc : ∀ m, c.holds m = true → x.held m = true)
    (m : Mutex) :
    (x'.held m).toNat + (c.holds m).toNat = (x.held m).toNat + (c'.holds m).toNat := by
  obtain ⟨m₀, hlocks, hfree, rfl, hinside⟩ | ⟨m₀, store, hinside, rfl, hholds, -⟩ |
    ⟨m₀, r, rfl, rfl, rfl⟩ := step_cases h
  · rw [RetainCall.holds_of_locks hlocks, RetainCall.holds_eq (RetainCall.holds_of_inside hinside),
      Locked.held_setHeld]
    by_cases hm : m₀ = m
    · rw [if_pos hm, decide_eq_true hm.symm, ← hm, hfree]
      rfl
    · rw [if_neg hm, decide_eq_false (Ne.symm hm)]
  · rw [RetainCall.holds_eq (RetainCall.holds_of_inside hinside), RetainCall.holds_eq hholds]
    cases m with | mtx | retainMtx => rfl
  · rw [RetainCall.holds, Locked.held_setHeld]
    by_cases hm : m₀ = m
    · rw [if_pos hm, decide_eq_true hm.symm, ← hm, hc m₀ (decide_eq_true rfl)]
      rfl
    · rw [if_neg hm, decide_eq_false (Ne.symm hm)]
      rfl

/-! ## The mutexes -/

/-- Each mutex is locked when a call has it, and one call has it at most. -/
def Owned (s : Shared) : Prop :=
  ∀ m, HeldBy (RetainCall.holds m) s.calls (s.locked.held m)

theorem Owned.step (h : Owned s) (hs : s.step t = some s') : Owned s' := by
  intro m
  cases t with
  | call c =>
    obtain ⟨hc, rfl⟩ := step_call hs
    exact (h m).append (RetainCall.holds_of_begins hc m)
  | run i =>
    obtain ⟨hi, next, hnext, rfl⟩ := step_run hs
    exact (h m).set hi (step_held hnext (fun m => (h m).held_eq hi) m)

/-- No call is inside under one mutex while another is inside under the other one. -/
def Apart (calls : List RetainCall) : Prop :=
  ∀ m, ∀ c ∈ calls, ∀ c' ∈ calls, c.inside m = true → c'.inside m.other = false

/-- Calls under one mutex exclude each other as it is. -/
theorem Owned.exclusive_iff_apart (h : Owned s) : Exclusive s ↔ Apart s.calls := by
  constructor
  · intro hexclusive
    have hsave : ∀ c ∈ s.calls, ∀ c' ∈ s.calls, c.inside .mtx = true →
        c'.inside .retainMtx = false := by
      intro c hc c' hc' hinside
      obtain ⟨i, hi, rfl⟩ := List.getElem_of_mem hc
      obtain ⟨j, hj, rfl⟩ := List.getElem_of_mem hc'
      by_cases hij : i = j
      · subst hij
        by_contra hboth
        rw [Bool.not_eq_false] at hboth
        have heq := RetainCall.holds_eq (RetainCall.holds_of_inside hinside) .retainMtx
        rw [RetainCall.holds_of_inside hboth] at heq
        exact absurd heq (by decide)
      · refine hexclusive i j hi hj hij ?_ _
        generalize s.calls[i] = c at hinside
        cases c with
        | saving _ _ _ => rfl
        | _ => exact absurd hinside (by simp [RetainCall.inside])
    intro m c hc c' hc' hinside
    cases m with
    | mtx => exact hsave c hc c' hc' hinside
    | retainMtx =>
      by_contra hother
      rw [Bool.not_eq_false] at hother
      rw [hsave c' hc' c hc hother] at hinside
      exact absurd hinside (by simp)
  · intro hapart i j hi hj hij hmodifies m
    obtain ⟨m', hinside⟩ := RetainCall.inside_of_modifies hmodifies
    by_contra hboth
    rw [Bool.not_eq_false] at hboth
    by_cases hm : m = m'
    · subst hm
      exact hij ((h m).eq_of_both hi hj (RetainCall.holds_of_inside hinside)
        (RetainCall.holds_of_inside hboth))
    · have hother : m'.other = m := by
        cases m with
        | mtx => cases m' with | mtx => exact absurd rfl hm | retainMtx => rfl
        | retainMtx => cases m' with | mtx => rfl | retainMtx => exact absurd rfl hm
      have hnot := hapart m' _ (List.getElem_mem hi) _ (List.getElem_mem hj) hinside
      rw [hother, hboth] at hnot
      exact absurd hnot (by simp)

/-- What an operation leaves of the calls is apart if nobody is inside under the other mutex. -/
theorem Apart.set {calls : List RetainCall} (h : Apart calls) {i : ℕ}
    (hnew : ∀ m, c'.inside m = true → ∀ c ∈ calls, c.inside m.other = false) :
    Apart (calls.set i c') := by
  have hself : ∀ m, c'.inside m = true → c'.inside m.other = false := by
    intro m hm
    by_contra hother
    rw [Bool.not_eq_false] at hother
    have heq := RetainCall.holds_eq (RetainCall.holds_of_inside hm) m.other
    rw [RetainCall.holds_of_inside hother] at heq
    cases m with | mtx | retainMtx => exact absurd heq (by decide)
  intro m c₁ hc₁ c₂ hc₂ hinside
  obtain hold₁ | rfl := List.mem_or_eq_of_mem_set hc₁
  · obtain hold₂ | rfl := List.mem_or_eq_of_mem_set hc₂
    · exact h m c₁ hold₁ c₂ hold₂ hinside
    · by_contra hother
      rw [Bool.not_eq_false] at hother
      have hback := hnew m.other hother c₁ hold₁
      have hm : m.other.other = m := by cases m with | mtx | retainMtx => rfl
      rw [hm, hinside] at hback
      exact absurd hback (by simp)
  · obtain hold₂ | rfl := List.mem_or_eq_of_mem_set hc₂
    · exact hnew m hinside c₂ hold₂
    · exact hself m hinside

/-! ## Calls under the two mutexes -/

/-- A call that locks its mutex now does so while no call under the other mutex has an access to
make. -/
def Admitted (s : Shared) : Turn → Prop
  | .call _ => True
  | .run i => ∀ c m, s.calls[i]? = some c → c.locks = some m → s.locked.held m = false →
    ∀ c' ∈ s.calls, c'.inside m.other = false

theorem admitted_iff (howned : Owned s) (hapart : Apart s.calls) :
    Admitted s t ↔ ∀ s', s.step t = some s' → Owned s' ∧ Apart s'.calls := by
  cases t with
  | call c =>
    refine iff_of_true trivial fun s' hs => ⟨howned.step hs, ?_⟩
    obtain ⟨hbegins, rfl⟩ := step_call hs
    have hnot : ∀ m, c.inside m = false := by
      intro m
      by_contra hinside
      rw [Bool.not_eq_false] at hinside
      have hholds := RetainCall.holds_of_inside hinside
      rw [RetainCall.holds_of_begins hbegins] at hholds
      exact absurd hholds (by simp)
    intro m c₁ hc₁ c₂ hc₂ hinside
    obtain hc₁ | hc₁ := List.mem_append.mp hc₁
    · obtain hc₂ | hc₂ := List.mem_append.mp hc₂
      · exact hapart m c₁ hc₁ c₂ hc₂ hinside
      · rw [List.mem_singleton.mp hc₂]
        exact hnot _
    · rw [List.mem_singleton.mp hc₁, hnot m] at hinside
      exact absurd hinside (by simp)
  | run i =>
    constructor
    · intro hadmitted s' hs
      refine ⟨howned.step hs, ?_⟩
      obtain ⟨hi, next, hnext, rfl⟩ := step_run hs
      refine hapart.set fun m hinside => ?_
      have hunique : ∀ {m₀}, next.2.holds m₀ = true → m = m₀ := fun hholds =>
        of_decide_eq_true ((RetainCall.holds_eq hholds m).symm.trans
          (RetainCall.holds_of_inside hinside))
      obtain ⟨m₀, hlocks, hfree, -, hentered⟩ | ⟨m₀, store, hbefore, -, hholds, -⟩ |
        ⟨m₀, r, -, -, hreturned⟩ := step_cases hnext
      · obtain rfl := hunique (RetainCall.holds_of_inside hentered)
        exact hadmitted _ m (List.getElem?_eq_getElem hi) hlocks hfree
      · obtain rfl := hunique hholds
        exact fun c hc => hapart m _ (List.getElem_mem hi) c hc hbefore
      · rw [hreturned] at hinside
        exact absurd hinside (by simp [RetainCall.inside])
    · intro hnext c m hget hlocks hfree c' hc'
      obtain ⟨c₁, hstep, hentered⟩ := RetainCall.step_of_locks (x := s.locked) hlocks hfree
      have hs : s.step (.run i) = some ⟨s.locked.setHeld true m, s.calls.set i c₁⟩ := by
        rw [Shared.step, hget]
        exact congrArg (Option.map _) hstep
      obtain ⟨hi, rfl⟩ := List.getElem?_eq_some_iff.mp hget
      obtain ⟨j, hj, rfl⟩ := List.getElem_of_mem hc'
      by_cases hij : i = j
      · -- the call itself was outside
        subst hij
        by_contra hinside
        rw [Bool.not_eq_false] at hinside
        have hholds := RetainCall.holds_of_inside hinside
        rw [RetainCall.holds_of_locks hlocks] at hholds
        exact absurd hholds (by simp)
      · refine (hnext _ hs).2 m c₁ (List.mem_set hi _) _ ?_ hentered
        refine List.mem_iff_getElem?.mpr ⟨j, ?_⟩
        rw [List.getElem?_set_ne hij, List.getElem?_eq_getElem hj]

theorem idle_owned (store : MemStore) : Owned (idle store) := by
  intro m
  cases m with | mtx | retainMtx => rfl

theorem idle_apart (store : MemStore) : Apart (idle store).calls :=
  fun _ _ hc => absurd hc List.not_mem_nil

/-- **The calls of a run exclude each other exactly where each call that takes its mutex does so
while no call under the other one is inside**: `SaveRetainMsg` locks `mtx`, the two others lock
`retainMtx`, and the mutexes themselves do not see to it. -/
theorem always_exclusive_iff (store : MemStore) (ts : List Turn) :
    concurrent.Always Exclusive ts (idle store) ↔ concurrent.Along Admitted ts (idle store) := by
  have hboth : concurrent.Always Exclusive ts (idle store) ↔
      concurrent.Always (fun s => Owned s ∧ Apart s.calls) ts (idle store) :=
    StepSystem.always_congr (fun _ _ _ h hs => h.step hs)
      (fun _ h => h.exclusive_iff_apart.trans (and_iff_right h).symm) ts _ (idle_owned store)
  exact hboth.trans (StepSystem.always_iff_along (fun _ _ h => admitted_iff h.1 h.2) ts _
    ⟨idle_owned store, idle_apart store⟩)

/-- `SaveRetainMsg` and `RemoveMsgByTopic` of one topic both get through their locks. -/
def savedAndRemoved : List Turn :=
  [.call (.saveRetainMsg (str "t") (str "a") 0), .call (.removeMsgByTopic (str "t")), .run 0,
    .run 1]

/-- One call is about to write the map, and the other one is about to look at it. -/
theorem not_exclusive_savedAndRemoved :
    ∃ s, concurrent.exec savedAndRemoved (idle newStoreMgr) = some s ∧ ¬ Exclusive s := by
  have hrun : ∃ s, concurrent.exec savedAndRemoved (idle newStoreMgr) = some s ∧
      s.calls = [.saving (str "t") (str "a") 0, .looking (str "t")] := ⟨_, rfl, rfl⟩
  obtain ⟨s, hexec, hcalls⟩ := hrun
  refine ⟨s, hexec, fun h => ?_⟩
  have hnot := h 0 1 (by rw [hcalls]; decide) (by rw [hcalls]; decide) (by decide)
  simp only [hcalls] at hnot
  exact Bool.noConfusion (hnot rfl .retainMtx)

/-! ## What the calls do together -/

/-- In any interleaving the store goes through calls of its methods, each in one step. -/
theorem exec_store (ts : List Turn) : ∀ {s s' : Shared}, concurrent.exec ts s = some s' →
    ∃ calls, system.exec calls s.locked.store = some s'.locked.store := by
  induction ts with
  | nil =>
    intro s s' h
    obtain rfl : s = s' := Option.some.inj h
    exact ⟨[], rfl⟩
  | cons t ts ih =>
    intro s s' h
    obtain ⟨s₁, hs, hexec⟩ := Option.bind_eq_some_iff.mp h
    obtain ⟨calls, hcalls⟩ := ih hexec
    cases t with
    | call c =>
      obtain ⟨-, rfl⟩ := step_call hs
      exact ⟨calls, hcalls⟩
    | run i =>
      obtain ⟨hi, next, hnext, rfl⟩ := step_run hs
      obtain ⟨m, -, -, hx, -⟩ | ⟨-, store, -, hx, -, rfl | ⟨-, call, rfl⟩⟩ | ⟨m, -, -, hx, -⟩ :=
        step_cases hnext
      · rw [hx, Locked.store_setHeld] at hcalls
        exact ⟨calls, hcalls⟩
      · rw [hx] at hcalls
        exact ⟨calls, hcalls⟩
      · rw [hx] at hcalls
        exact ⟨call :: calls, hcalls⟩
      · rw [hx, Locked.store_setHeld] at hcalls
        exact ⟨calls, hcalls⟩

/-- What a `range` has visited and what it still has to visit are the messages of the store. -/
def Consistent (s : Shared) : Prop :=
  ∀ left msgs, .visiting left msgs ∈ s.calls → ∃ order,
    s.locked.store.getAllRetainMsgs order = msgs ++ left.filterMap s.locked.store.retainMsgs.lookup

theorem filterMap_lookup_toList (order : RangeOrder GoString Msg) (store : MemStore) :
    ((order.toList store.retainMsgs).map Sigma.fst).filterMap store.retainMsgs.lookup =
      store.getAllRetainMsgs order := by
  rw [getAllRetainMsgs, List.filterMap_map, List.filterMap_eq_map_iff_forall_eq_some]
  exact fun e he => (order.mem_toList _ e.1 e.2).mp he

/-- The operation of a `range` itself. -/
theorem visiting_of_step {left : List GoString} {msgs : List Msg}
    (h : c.step x = some (x', .visiting left msgs)) : x' = x ∧
      ((∃ order, c = .ranging order ∧ msgs = [] ∧
          left = (order.toList x.store.retainMsgs).map Sigma.fst) ∨
        ∃ topic visited, c = .visiting (topic :: left) visited ∧
          msgs = visited ++ (x.store.retainMsgs.lookup topic).toList) := by
  cases c with
  | saveRetainMsg _ _ _ | removeMsgByTopic _ | getAllRetainMsgs _ =>
    obtain ⟨-, -, hnext⟩ := map_lock h
    exact RetainCall.noConfusion hnext
  | looking topic =>
    rw [RetainCall.step] at h
    split at h
    · exact RetainCall.noConfusion (Prod.mk.inj (Option.some.inj h)).2
    · exact RetainCall.noConfusion (Prod.mk.inj (Option.some.inj h)).2
  | ranging order =>
    obtain ⟨rfl, hnext⟩ := Prod.mk.inj (Option.some.inj h)
    obtain ⟨rfl, rfl⟩ := RetainCall.visiting.inj hnext
    exact ⟨rfl, .inl ⟨order, rfl, rfl, rfl⟩⟩
  | visiting left' visited =>
    cases left' with
    | nil => exact RetainCall.noConfusion (Prod.mk.inj (Option.some.inj h)).2
    | cons topic left' =>
      obtain ⟨rfl, hnext⟩ := Prod.mk.inj (Option.some.inj h)
      obtain ⟨rfl, rfl⟩ := RetainCall.visiting.inj hnext
      exact ⟨rfl, .inr ⟨topic, visited, rfl, rfl⟩⟩
  | returned _ => exact absurd h (by simp [RetainCall.step])
  | _ => exact RetainCall.noConfusion (Prod.mk.inj (Option.some.inj h)).2

/-- While the calls exclude each other, nobody changes the map that is ranged over. -/
theorem Consistent.step (h : Consistent s) (hexclusive : Exclusive s) (hs : s.step t = some s') :
    Consistent s' := by
  cases t with
  | call c =>
    obtain ⟨hbegins, rfl⟩ := step_call hs
    intro left msgs hmem
    obtain hmem | hmem := List.mem_append.mp hmem
    · exact h left msgs hmem
    · rw [← List.mem_singleton.mp hmem] at hbegins
      exact absurd hbegins (by simp [RetainCall.begins])
  | run i =>
    obtain ⟨hi, next, hnext, rfl⟩ := step_run hs
    intro left msgs hmem
    obtain ⟨j, hj, hget⟩ := List.getElem_of_mem hmem
    by_cases hij : i = j
    · subst hij
      rw [List.getElem_set_self] at hget
      obtain ⟨x', c'⟩ := next
      obtain rfl : c' = .visiting left msgs := hget
      obtain ⟨rfl, ⟨order, -, rfl, rfl⟩ | ⟨topic, visited, hc, rfl⟩⟩ := visiting_of_step hnext
      · exact ⟨order, (filterMap_lookup_toList order s.locked.store).symm⟩
      · obtain ⟨order, horder⟩ := h (topic :: left) visited (hc ▸ List.getElem_mem hi)
        refine ⟨order, ?_⟩
        rw [List.append_assoc]
        refine horder.trans (congrArg (visited ++ ·) ?_)
        rw [List.filterMap_cons]
        cases s.locked.store.retainMsgs.lookup topic with | none | some _ => rfl
    · rw [List.length_set] at hj
      rw [List.getElem_set_ne hij] at hget
      have hstore : next.1.store = s.locked.store := by
        obtain ⟨m, -, -, hx, -⟩ | ⟨m, store, -, hx, -, rfl | ⟨hmodifies, -⟩⟩ | ⟨m, r, -, hx, -⟩ :=
          step_cases hnext
        · rw [hx, Locked.store_setHeld]
        · rw [hx]
        · have hnot := hexclusive i j hi hj hij hmodifies .retainMtx
          rw [hget] at hnot
          exact absurd hnot (by simp [RetainCall.inside])
        · rw [hx, Locked.store_setHeld]
      rw [hstore]
      exact h left msgs (hget ▸ List.getElem_mem hj)

/-- In a run whose calls exclude each other, `GetAllRetainMsgs` has the retained messages of the
store, all of one moment, when its `range` ends. -/
theorem getAllRetainMsgs_consistent (store : MemStore) {ts : List Turn}
    (hadmitted : concurrent.Along Admitted ts (idle store))
    (hexec : concurrent.exec ts (idle store) = some s) {msgs : List Msg}
    (hmem : .visiting [] msgs ∈ s.calls) :
    ∃ order, s.locked.store.getAllRetainMsgs order = msgs := by
  have hinv : (Owned s ∧ Apart s.calls) ∧ Consistent s := by
    refine StepSystem.invariant_of_exec (I := fun s => (Owned s ∧ Apart s.calls) ∧ Consistent s)
      (fun _ _ _ hI hok hs => ⟨(admitted_iff hI.1.1 hI.1.2).mp hok _ hs,
        hI.2.step (hI.1.1.exclusive_iff_apart.mpr hI.1.2) hs⟩) ?_ hadmitted hexec
    exact ⟨⟨idle_owned store, idle_apart store⟩, fun _ _ h => absurd h List.not_mem_nil⟩
  obtain ⟨order, horder⟩ := hinv.2 [] msgs hmem
  exact ⟨order, horder.trans (List.append_nil msgs)⟩

end MemStore
end MqttBroker
