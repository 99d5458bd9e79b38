import Mathlib.Data.List.Basic

/-!
# `utils.List`

The mutex-guarded queue behind the in-flight, pending and send lists. `Push` appends,
`Pop` takes the front, and `Each` and `Remove` visit the elements in order and call a
function literal. Such a literal writes variables of the function around it, so here it
also receives and returns those variables (`c`); as the elements are pointers, `each` lets
it replace what it visits.
-/

namespace MqttBroker.GoList

variable {α γ : Type}

def push (v : α) (l : List α) : List α := l ++ [v]

def pop : List α → Option α × List α
  | [] => (none, [])
  | v :: l => (some v, l)

/-- `Each`: the literal returns whether to stop. -/
def each (cb : α → γ → Bool × α × γ) : List α → γ → List α × γ
  | [], c => ([], c)
  | v :: l, c =>
    match cb v c with
    | (true, v', c') => (v' :: l, c')
    | (false, v', c') => (v' :: (each cb l c').1, (each cb l c').2)

/-- `Remove`: the literal returns whether to delete the element and whether to go on. -/
def remove (cb : α → γ → (Bool × Bool) × γ) : List α → γ → List α × γ
  | [], c => ([], c)
  | v :: l, c =>
    match cb v c with
    | ((true, true), c') => remove cb l c'
    | ((true, false), c') => (l, c')
    | ((false, true), c') => (v :: (remove cb l c').1, (remove cb l c').2)
    | ((false, false), c') => (v :: l, c')

/-- A literal that never stops visits every element; when it keeps what it visits in its
variable, the last element is there afterwards. -/
theorem each_eq_map {f : α → α} {cb : α → Option α → Bool × α × Option α}
    (h : ∀ v c, cb v c = (false, f v, some (f v))) (l : List α) :
    ∀ c, each cb l c = (l.map f, (l.map f).getLast?.or c) := by
  induction l with
  | nil => exact fun _ => rfl
  | cons v l ih =>
    intro c
    rw [each, h]
    show (f v :: (each cb l (some (f v))).1, (each cb l (some (f v))).2) = _
    rw [ih, List.map_cons, List.getLast?_cons]
    cases (l.map f).getLast? with
    | none => rfl
    | some w => rfl

/-- A literal that deletes the first match and stops, and keeps the match in its variable,
removes the first match and leaves it there. -/
theorem remove_eq_eraseP {p : α → Bool} {cb : α → Option α → (Bool × Bool) × Option α}
    (hp : ∀ v c, p v = true → cb v c = ((true, false), some v))
    (hn : ∀ v c, p v = false → cb v c = ((false, true), none)) (l : List α) :
    remove cb l none = (l.eraseP p, l.find? p) := by
  induction l with
  | nil => rfl
  | cons v l ih =>
    rw [remove]
    cases h : p v with
    | true => rw [hp v none h, List.eraseP_cons_of_pos h, List.find?_cons_of_pos h]
    | false =>
      rw [hn v none h, List.eraseP_cons_of_neg (by simp [h]), List.find?_cons_of_neg (by simp [h])]
      show (v :: (remove cb l none).1, (remove cb l none).2) = _
      rw [ih]

/-- What `Remove` leaves is the list without the element it found. -/
theorem perm_of_find? {p : α → Bool} {v : α} {l : List α} (h : l.find? p = some v) :
    (v :: l.eraseP p).Perm l := by
  induction l with
  | nil => exact absurd h (by simp)
  | cons w l ih =>
    cases hw : p w with
    | true =>
      rw [List.find?_cons_of_pos hw] at h
      rw [List.eraseP_cons_of_pos hw, Option.some.inj h]
    | false =>
      rw [List.find?_cons_of_neg (by simp [hw])] at h
      rw [List.eraseP_cons_of_neg (by simp [hw])]
      exact (List.Perm.swap w v _).trans ((ih h).cons w)

end MqttBroker.GoList
