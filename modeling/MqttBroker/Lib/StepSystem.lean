import Mathlib.Logic.Basic

/-!
# Step systems

A `StepSystem` has initial states and a partial step function: `step a s = none` says that
action `a` is not enabled in `s`. Runs may be restricted to steps that meet a condition on
the state before the step; `Reach ok` are the states such runs reach, and `Reach.invariant`
is the induction over them. `Along` and `Always` are the same notions over one given list
of actions, for statements that compare the two.
-/

/-- Initial states and a partial, labelled step function. -/
structure StepSystem (σ α : Type) where
  init : σ → Prop
  step : α → σ → Option σ

namespace StepSystem

variable {σ α : Type} (T : StepSystem σ α)

/-! ## Reachable states -/

/-- The states reached by runs all of whose steps meet `ok`. -/
inductive Reach (ok : σ → α → Prop) : σ → Prop
  | init {s : σ} : T.init s → Reach ok s
  | step {s s' : σ} {a : α} : Reach ok s → ok s a → T.step a s = some s' → Reach ok s'

/-- The states reached by any run. -/
def Reachable : σ → Prop := T.Reach fun _ _ => True

variable {T}

/-- What holds initially and is preserved by the steps that meet `ok` holds in every
state that runs of such steps reach. -/
theorem Reach.invariant {ok : σ → α → Prop} {I : σ → Prop} (h0 : ∀ s, T.init s → I s)
    (hstep : ∀ s a s', I s → ok s a → T.step a s = some s' → I s') {s : σ}
    (h : T.Reach ok s) : I s := by
  induction h with
  | init hs => exact h0 _ hs
  | step _ ha hs ih => exact hstep _ _ _ ih ha hs

/-! ## One given list of actions -/

variable (T)

/-- Perform the actions in order; `none` as soon as one is not enabled. -/
def exec : List α → σ → Option σ
  | [], s => some s
  | a :: as, s => (T.step a s).bind (exec as)

theorem exec_cons {T : StepSystem σ α} {a : α} {as : List α} {s s' : σ}
    (h : T.step a s = some s') : T.exec (a :: as) s = T.exec as s' := by
  rw [exec, h]
  rfl

theorem exec_append {T : StepSystem σ α} {as bs : List α} :
    ∀ {s s' : σ}, T.exec as s = some s' → T.exec (as ++ bs) s = T.exec bs s' := by
  induction as with
  | nil =>
    intro s s' h
    rw [Option.some.inj h]
    rfl
  | cons a as ih =>
    intro s s' h
    obtain ⟨s₁, h₁, h₂⟩ := Option.bind_eq_some_iff.mp h
    rw [List.cons_append, exec_cons h₁, ih h₂]

/-- Each step of the run from `s` meets `ok` in the state before it. -/
def Along (ok : σ → α → Prop) : List α → σ → Prop
  | [], _ => True
  | a :: as, s => ok s a ∧ ∀ s', T.step a s = some s' → Along ok as s'

/-- Every state of the run from `s`, the first one included, satisfies `P`. -/
def Always (P : σ → Prop) : List α → σ → Prop
  | [], s => P s
  | a :: as, s => P s ∧ ∀ s', T.step a s = some s' → Always P as s'

variable {T}

/-- What the steps that meet `ok` preserve holds at the end of a run of such steps. -/
theorem invariant_of_exec {ok : σ → α → Prop} {I : σ → Prop}
    (hstep : ∀ s a s', I s → ok s a → T.step a s = some s' → I s') {as : List α} :
    ∀ {s s' : σ}, I s → T.Along ok as s → T.exec as s = some s' → I s' := by
  induction as with
  | nil =>
    intro s s' hs _ h
    exact Option.some.inj h ▸ hs
  | cons a as ih =>
    intro s s' hs hok h
    obtain ⟨s₁, h₁, h₂⟩ := Option.bind_eq_some_iff.mp h
    exact ih (hstep s a s₁ hs hok.1 h₁) (hok.2 s₁ h₁) h₂

/-- The end of a run whose steps meet `ok` is reached. -/
theorem reach_of_exec {ok : σ → α → Prop} {as : List α} {s s' : σ} (hs : T.Reach ok s)
    (hok : T.Along ok as s) (h : T.exec as s = some s') : T.Reach ok s' :=
  invariant_of_exec (I := T.Reach ok) (fun _ _ _ => .step) hs hok h

theorem along_true (as : List α) : ∀ s : σ, T.Along (fun _ _ => True) as s := by
  induction as with
  | nil => exact fun _ => trivial
  | cons a as ih => exact fun s => ⟨trivial, fun s' _ => ih s'⟩

/-- A condition on the actions alone. -/
theorem along_of_forall {ok : σ → α → Prop} {as : List α} (h : ∀ a ∈ as, ∀ s, ok s a) :
    ∀ s : σ, T.Along ok as s := by
  induction as with
  | nil => exact fun _ => trivial
  | cons a as ih =>
    have hrest := ih fun a' ha' => h a' (List.mem_cons_of_mem _ ha')
    exact fun s => ⟨h a List.mem_cons_self s, fun s' _ => hrest s'⟩

theorem reachable_of_exec {as : List α} {s s' : σ} (hs : T.init s)
    (h : T.exec as s = some s') : T.Reachable s' :=
  reach_of_exec (.init hs) (along_true as s) h

/-- When `ok` is exactly what a step needs to keep `I`, a run that starts in `I` stays in
`I` if and only if all its steps meet `ok`. -/
theorem always_iff_along {ok : σ → α → Prop} {I : σ → Prop}
    (h : ∀ s a, I s → (ok s a ↔ ∀ s', T.step a s = some s' → I s')) (as : List α) :
    ∀ s, I s → (T.Always I as s ↔ T.Along ok as s) := by
  induction as with
  | nil => exact fun s hs => ⟨fun _ => trivial, fun _ => hs⟩
  | cons a as ih =>
    intro s hs
    constructor
    · intro hall
      have hnext : ∀ s', T.step a s = some s' → I s' := by
        intro s' hs'
        have := hall.2 s' hs'
        cases as with
        | nil => exact this
        | cons _ _ => exact this.1
      exact ⟨(h s a hs).mpr hnext, fun s' hs' => (ih s' (hnext s' hs')).mp (hall.2 s' hs')⟩
    · intro hall
      have hnext := (h s a hs).mp hall.1
      exact ⟨hs, fun s' hs' => (ih s' (hnext s' hs')).mpr (hall.2 s' hs')⟩

/-- Properties that agree in the states of an invariant hold along the same runs. -/
theorem always_congr {P Q J : σ → Prop} (hstep : ∀ s a s', J s → T.step a s = some s' → J s')
    (h : ∀ s, J s → (P s ↔ Q s)) (as : List α) :
    ∀ s, J s → (T.Always P as s ↔ T.Always Q as s) := by
  induction as with
  | nil => exact h
  | cons a as ih =>
    intro s hs
    refine and_congr (h s hs) (forall_congr' fun s' => ?_)
    exact imp_congr_right fun hs' => ih s' (hstep s a s' hs hs')

/-! ## Checking a run by evaluation -/

/-- The check `c` succeeds for every action of the run from `s`, in the state before it. -/
def checkAll (T : StepSystem σ α) (c : σ → α → Bool) : List α → σ → Bool
  | [], _ => true
  | a :: as, s =>
    c s a && match T.step a s with
      | none => true
      | some s' => checkAll T c as s'

/-- A run whose end passes a check ends. -/
theorem exists_of_any {c : σ → Bool} {as : List α} {s : σ} (h : (T.exec as s).any c = true) :
    ∃ s', T.exec as s = some s' ∧ c s' = true :=
  (Option.any_eq_true c _).mp h

/-- A state with a check is reached by a run that ends in one. -/
theorem exists_reach_of_any {ok : σ → α → Prop} {c : σ → Bool} {as : List α} {s : σ}
    (hs : T.init s) (hok : T.Along ok as s) (h : (T.exec as s).any c = true) :
    ∃ s', T.Reach ok s' ∧ c s' = true := by
  obtain ⟨s', hexec, hc⟩ := exists_of_any h
  exact ⟨s', reach_of_exec (.init hs) hok hexec, hc⟩

theorem exists_reachable_of_any {c : σ → Bool} {as : List α} {s : σ} (hs : T.init s)
    (h : (T.exec as s).any c = true) : ∃ s', T.Reachable s' ∧ c s' = true :=
  exists_reach_of_any hs (along_true as s) h

/-- A check that implies `ok` in the states of an invariant that checked steps keep. -/
theorem along_of_checkAll {ok : σ → α → Prop} {c : σ → α → Bool} {I : σ → Prop}
    (hstep : ∀ s a s', I s → c s a = true → T.step a s = some s' → I s')
    (hc : ∀ s a, I s → c s a = true → ok s a) (as : List α) :
    ∀ s, I s → T.checkAll c as s = true → T.Along ok as s := by
  induction as with
  | nil => exact fun _ _ _ => trivial
  | cons a as ih =>
    intro s hs hall
    rw [checkAll, Bool.and_eq_true] at hall
    refine ⟨hc s a hs hall.1, fun s' hs' => ?_⟩
    have hrest := hall.2
    rw [hs'] at hrest
    exact ih s' (hstep s a s' hs hall.1 hs') hrest

/-- A check that implies `ok` in all states. -/
theorem along_of_check {ok : σ → α → Prop} {c : σ → α → Bool}
    (hc : ∀ s a, c s a = true → ok s a) {as : List α} {s : σ} (h : T.checkAll c as s = true) :
    T.Along ok as s :=
  along_of_checkAll (I := fun _ => True) (fun _ _ _ _ _ _ => trivial) (fun s a _ => hc s a) as s
    trivial h

/-! ## Observing a run -/

/-- What the actions of the run from `s` show, in order. -/
def shown (T : StepSystem σ α) {β : Type} (observe : σ → α → Option β) : List α → σ → List β
  | [], _ => []
  | a :: as, s =>
    match T.step a s with
    | none => []
    | some s' => (observe s a).toList ++ shown T observe as s'

section Shown

variable {β : Type} {observe : σ → α → Option β} {I : σ → Prop}

theorem shown_cons {a : α} {as : List α} {s s' : σ} (h : T.step a s = some s') :
    T.shown observe (a :: as) s = (observe s a).toList ++ T.shown observe as s' := by
  rw [shown, h]

theorem shown_stuck {a : α} {as : List α} {s : σ} (h : T.step a s = none) :
    T.shown observe (a :: as) s = [] := by
  rw [shown, h]

/-- What the actions show in the states of an invariant. -/
theorem forall_shown {P : β → Prop} (hI : ∀ s a s', I s → T.step a s = some s' → I s')
    (hP : ∀ s a b, I s → b ∈ observe s a → P b) (as : List α) :
    ∀ {s : σ}, I s → ∀ b ∈ T.shown observe as s, P b := by
  induction as with
  | nil => exact fun _ b hb => absurd hb List.not_mem_nil
  | cons a as ih =>
    intro s hs b hb
    cases hstep : T.step a s with
    | none => exact absurd hb (shown_stuck hstep ▸ List.not_mem_nil)
    | some s' =>
      rw [shown_cons hstep] at hb
      rcases List.mem_append.mp hb with hb | hb
      · exact hP s a b hs (Option.mem_toList.mp hb)
      · exact ih (hI s a s' hs hstep) b hb

/-- What is shown later, when what was shown before has left its mark `J` on the state. -/
theorem pairwise_shown {R : β → β → Prop} {J : β → σ → Prop}
    (hI : ∀ s a s', I s → T.step a s = some s' → I s')
    (hmark : ∀ s a s' b, I s → b ∈ observe s a → T.step a s = some s' → J b s')
    (hJ : ∀ s a s' b, J b s → T.step a s = some s' → J b s')
    (hR : ∀ s a b b', J b s → b' ∈ observe s a → R b b') (as : List α) :
    ∀ {s : σ}, I s → (T.shown observe as s).Pairwise R := by
  induction as with
  | nil => exact fun _ => List.Pairwise.nil
  | cons a as ih =>
    intro s hs
    cases hstep : T.step a s with
    | none => exact shown_stuck hstep ▸ List.Pairwise.nil
    | some s' =>
      rw [shown_cons hstep]
      have hrest := ih (hI s a s' hs hstep)
      cases hb : observe s a with
      | none => exact hrest
      | some b =>
        have hmarked := hmark s a s' b hs hb hstep
        exact List.pairwise_cons.mpr ⟨forall_shown (fun s a s' => hJ s a s' b)
          (fun s a b' => hR s a b b') as hmarked, hrest⟩

end Shown

/-- The system with a memory of what has happened, which the steps do not read. -/
def remembering {μ : Type} (T : StepSystem σ α) (start : μ) (note : σ → α → μ → μ) :
    StepSystem (σ × μ) α where
  init p := T.init p.1 ∧ p.2 = start
  step a p := (T.step a p.1).map fun s => (s, note p.1 a p.2)

theorem Reach.forget {μ : Type} {start : μ} {note : σ → α → μ → μ} {ok : σ × μ → α → Prop}
    {p : σ × μ} (h : (T.remembering start note).Reach ok p) : T.Reachable p.1 := by
  induction h with
  | init hp => exact .init hp.1
  | step _ _ hstep ih =>
    obtain ⟨s, hs, rfl⟩ := Option.map_eq_some_iff.mp hstep
    exact .step ih trivial hs

end StepSystem
