import Mathlib.Data.List.Basic
import Mathlib.Data.Option.Basic

/-!
# Patterns of levels

A pattern and a name are lists of levels. In a pattern, `plus` stands for any one level, and
`hash` as the last level for all levels that are left, at least one. A lookup asks an index
`g` of patterns for the patterns of a name: below a level first `hash`, then `plus`, then the
level itself, and what it comes to later replaces what it has. `pick` is this lookup and
`Found` the patterns it comes to; a name whose last level is one of `skip` loses the patterns
that go as far as that level. What `pick` returns belongs to the last of the patterns found,
in the order `Before`.
-/

namespace Wildcards

variable {L β : Type} (plus hash : L) (skip : L → Bool)

/-- The pattern on the left matches the name on the right. -/
def Matches : List L → List L → Prop
  | [], ts => ts = []
  | _ :: _, [] => False
  | a :: p, t :: ts => a = hash ∧ p = [] ∨ (a = plus ∨ a = t) ∧ Matches p ts

/-- The patterns that the lookup of a name comes to. -/
def Found : List L → List L → Prop
  | [], _ => False
  | _ :: _, [] => False
  | a :: p, [t] => skip t = false ∧ p = [] ∧ (a = hash ∨ a = plus ∨ a = t)
  | a :: p, t :: ts => a = hash ∧ p = [] ∨ (a = plus ∨ a = t) ∧ Found p ts

/-- What the lookup of a name returns. -/
def pick (g : List L → Option β) : List L → Option β
  | [] => none
  | [t] => if skip t then none else (g [t]).or ((g [plus]).or (g [hash]))
  | t :: ts =>
    (pick (fun p => g (t :: p)) ts).or ((pick (fun p => g (plus :: p)) ts).or (g [hash]))

variable {plus hash skip}

/-- The last level of a name is one that is skipped. -/
def Skipped (skip : L → Bool) (ts : List L) : Prop := ∃ t ∈ ts.getLast?, skip t = true

instance (ts : List L) : Decidable (Skipped skip ts) :=
  inferInstanceAs (Decidable (∃ t ∈ ts.getLast?, skip t = true))

theorem found_cons {a t : L} {p ts : List L} (hts : ts ≠ []) :
    Found plus hash skip (a :: p) (t :: ts) ↔
      a = hash ∧ p = [] ∨ (a = plus ∨ a = t) ∧ Found plus hash skip p ts := by
  rw [Found]
  exact hts

theorem pick_cons {g : List L → Option β} {t : L} {ts : List L} (hts : ts ≠ []) :
    pick plus hash skip g (t :: ts) =
      (pick plus hash skip (fun p => g (t :: p)) ts).or
        ((pick plus hash skip (fun p => g (plus :: p)) ts).or (g [hash])) := by
  rw [pick]
  exact hts

theorem matches_singleton {p : List L} {t : L} :
    Matches plus hash p [t] ↔ p = [hash] ∨ p = [plus] ∨ p = [t] := by
  cases p with
  | nil => exact iff_of_false (by simp [Matches]) (by simp)
  | cons a p =>
    have hp : Matches plus hash p [] ↔ p = [] := by
      cases p with
      | nil => simp [Matches]
      | cons b p => simp [Matches]
    rw [Matches, hp]
    simp only [List.cons.injEq]
    tauto

/-- A pattern has no more levels than a name that it matches. -/
theorem length_le_of_matches {p : List L} : ∀ {ts : List L},
    Matches plus hash p ts → p.length ≤ ts.length := by
  induction p with
  | nil => exact fun _ => Nat.zero_le _
  | cons a p ih =>
    intro ts h
    cases ts with
    | nil => exact absurd h (by simp [Matches])
    | cons t ts =>
      rw [Matches] at h
      rcases h with ⟨-, rfl⟩ | ⟨-, h⟩
      · simp
      · have := ih h
        simp only [List.length_cons]
        omega

/-- The lookup comes to the patterns that match, except those that go as far as a last level
that is skipped. -/
theorem found_iff (ts : List L) : ∀ p : List L,
    Found plus hash skip p ts ↔
      Matches plus hash p ts ∧ ts ≠ [] ∧ (p.length = ts.length → ¬ Skipped skip ts) := by
  induction ts with
  | nil =>
    intro p
    cases p with
    | nil => exact iff_of_false (by simp [Found]) (by simp)
    | cons a p => exact iff_of_false (by simp [Found]) (by simp)
  | cons t ts ih =>
    intro p
    cases p with
    | nil => exact iff_of_false (by simp [Found]) (by simp [Matches])
    | cons a p =>
      cases ts with
      | nil =>
        rw [Found, matches_singleton]
        have hskip : ¬ Skipped skip [t] ↔ skip t = false := by
          simp [Skipped]
        rw [hskip]
        simp only [List.cons.injEq, List.length_cons, List.length_nil]
        constructor
        · rintro ⟨hs, rfl, ha⟩
          exact ⟨by tauto, by simp, fun _ => hs⟩
        · rintro ⟨hp, -, hs⟩
          have hnil : p = [] := by tauto
          exact ⟨hs (by rw [hnil]; rfl), hnil, by tauto⟩
      | cons t' ts =>
        have hlast : Skipped skip (t :: t' :: ts) ↔ Skipped skip (t' :: ts) := by
          rw [Skipped, Skipped, List.getLast?_cons_cons]
        rw [found_cons (List.cons_ne_nil t' ts), Matches, ih, hlast]
        simp only [List.length_cons]
        constructor
        · rintro (⟨ha, rfl⟩ | ⟨ha, hm, -, hs⟩)
          · exact ⟨.inl ⟨ha, rfl⟩, by simp, fun h => absurd h (by simp)⟩
          · exact ⟨.inr ⟨ha, hm⟩, by simp, fun h => hs (by omega)⟩
        · rintro ⟨h | ⟨ha, hm⟩, -, hs⟩
          · exact .inl h
          · exact .inr ⟨ha, hm, by simp, fun h => hs (by omega)⟩

/-- A pattern of the index that the lookup comes to gives a result. -/
theorem pick_isSome_of_found (ts : List L) : ∀ {g : List L → Option β} {p : List L},
    Found plus hash skip p ts → (g p).isSome → (pick plus hash skip g ts).isSome := by
  induction ts with
  | nil =>
    intro g p hp _
    cases p with
    | nil => exact absurd hp (by simp [Found])
    | cons a p => exact absurd hp (by simp [Found])
  | cons t ts ih =>
    intro g p hp hg
    cases p with
    | nil => exact absurd hp (by simp [Found])
    | cons a p =>
      cases ts with
      | nil =>
        rw [Found] at hp
        rw [pick, if_neg (by simp [hp.1]), Option.isSome_or, Option.isSome_or]
        have hp' := hp.2.1
        rcases hp.2.2 with rfl | rfl | rfl
        all_goals
          rw [hp'] at hg
          simp [hg]
      | cons t' ts =>
        have hts := List.cons_ne_nil t' ts
        rw [pick_cons hts, Option.isSome_or, Option.isSome_or]
        rcases (found_cons hts).mp hp with ⟨rfl, rfl⟩ | ⟨rfl | rfl, hbelow⟩
        · simp [hg]
        · have := ih (g := fun p => g (a :: p)) hbelow hg
          simp [this]
        · have := ih (g := fun p => g (a :: p)) hbelow hg
          simp [this]

theorem ne_nil_of_found {p ts : List L} (h : Found plus hash skip p ts) : p ≠ [] := by
  intro hp
  rw [hp] at h
  exact absurd h (by simp [Found])

/-! ## The pattern that decides -/

section order

variable [DecidableEq L] (plus)

instance decidableMatches : ∀ p ts : List L, Decidable (Matches plus hash p ts)
  | [], ts => inferInstanceAs (Decidable (ts = []))
  | _ :: _, [] => isFalse id
  | a :: p, t :: ts =>
    have := decidableMatches p ts
    inferInstanceAs (Decidable (a = hash ∧ p = [] ∨ (a = plus ∨ a = t) ∧ Matches plus hash p ts))

instance decidableFound (p ts : List L) : Decidable (Found plus hash skip p ts) :=
  decidable_of_iff _ (found_iff ts p).symm

/-- The place of a pattern at a level of the name: a `hash` that takes the levels left is looked
up first, then `plus`, then the level itself. -/
def place (t : L) (ts : List L) (a : L) (p : List L) : ℕ :=
  if p = [] ∧ ts ≠ [] then 0 else if a = t then 2 else if a = plus then 1 else 0

/-- The lookup of the name comes to the first pattern for the last time before it comes to the
second for the last time. -/
def Before : List L → List L → List L → Prop
  | t :: ts, a :: p, b :: q =>
    place plus t ts a p < place plus t ts b q ∨ a = b ∧ Before ts p q
  | _, _, _ => False

variable {plus}

/-- Two patterns do not come before each other. -/
theorem Before.asymm (ts : List L) :
    ∀ {p q : List L}, Before plus ts p q → ¬ Before plus ts q p := by
  induction ts with
  | nil => exact fun h => absurd h (by simp [Before])
  | cons t ts ih =>
    intro p q h h'
    cases p with
    | nil => simp [Before] at h
    | cons a p =>
      cases q with
      | nil => simp [Before] at h
      | cons b q =>
        -- levels that are the same have different places only when one pattern ends there
        have hsame : ∀ {a : L} {p q : List L}, Before plus ts p q →
            place plus t ts a p = place plus t ts a q := by
          intro a p q hpq
          have hp : p ≠ [] := by
            intro hp
            rw [hp] at hpq
            cases ts with
            | nil => simp [Before] at hpq
            | cons t' ts => simp [Before] at hpq
          have hq : q ≠ [] := by
            intro hq
            rw [hq] at hpq
            cases ts with
            | nil => simp [Before] at hpq
            | cons t' ts => simp [Before] at hpq
          simp [place, hp, hq]
        rw [Before] at h h'
        rcases h with h | ⟨rfl, h⟩
        · rcases h' with h' | ⟨rfl, h'⟩
          · omega
          · have := hsame (a := b) h'
            omega
        · rcases h' with h' | ⟨-, h'⟩
          · have := hsame (a := a) h
            omega
          · exact ih h h'

/-- What the lookup returns belongs to a pattern that it comes to, and to the last one. -/
theorem pick_spec (ts : List L) : ∀ {g : List L → Option β} {q : β},
    pick plus hash skip g ts = some q →
      ∃ p, Found plus hash skip p ts ∧ g p = some q ∧
        ∀ p', Found plus hash skip p' ts → (g p').isSome → p' = p ∨ Before plus ts p' p := by
  induction ts with
  | nil => exact fun h => absurd h (by simp [pick])
  | cons t ts ih =>
    intro g q h
    cases ts with
    | nil =>
      rw [pick] at h
      by_cases hskip : skip t = true
      · rw [if_pos hskip] at h
        exact absurd h (by simp)
      rw [if_neg hskip] at h
      have hfound : ∀ p, Found plus hash skip p [t] ↔ p = [hash] ∨ p = [plus] ∨ p = [t] := by
        intro p
        rw [found_iff, matches_singleton]
        simp [Skipped, hskip]
      simp only [hfound]
      rcases Option.or_eq_some_iff.mp h with h | ⟨ht, h⟩
      · -- the level itself is in the index
        refine ⟨[t], .inr (.inr rfl), h, ?_⟩
        rintro p' (rfl | rfl | rfl) _
        · simp [Before, place]
          grind
        · simp [Before, place]
          grind
        · exact .inl rfl
      · rcases Option.or_eq_some_iff.mp h with h | ⟨hp, h⟩
        · refine ⟨[plus], .inr (.inl rfl), h, ?_⟩
          rintro p' (rfl | rfl | rfl) hsome
          · simp [Before, place]
            grind
          · exact .inl rfl
          · rw [ht] at hsome
            exact absurd hsome (by simp)
        · refine ⟨[hash], .inl rfl, h, ?_⟩
          rintro p' (rfl | rfl | rfl) hsome
          · exact .inl rfl
          · rw [hp] at hsome
            exact absurd hsome (by simp)
          · rw [ht] at hsome
            exact absurd hsome (by simp)
    | cons t' ts =>
      have hts := List.cons_ne_nil t' ts
      rw [pick_cons hts] at h
      -- a branch without a result has no pattern that is found
      have hnone : ∀ a, pick plus hash skip (fun p => g (a :: p)) (t' :: ts) = none →
          ∀ p, Found plus hash skip p (t' :: ts) → ¬ (g (a :: p)).isSome := by
        intro a ha p hp hsome
        have := pick_isSome_of_found (t' :: ts) (g := fun p => g (a :: p)) hp hsome
        rw [ha] at this
        exact absurd this (by simp)
      rcases Option.or_eq_some_iff.mp h with h | ⟨ht, h⟩
      · obtain ⟨p, hp, hg, hlast⟩ := ih h
        have hne := ne_nil_of_found hp
        refine ⟨t :: p, (found_cons hts).mpr (.inr ⟨.inr rfl, hp⟩), hg, ?_⟩
        intro p' hp' hsome
        cases p' with
        | nil => exact absurd rfl (ne_nil_of_found hp')
        | cons a p' =>
          rcases (found_cons hts).mp hp' with ⟨rfl, rfl⟩ | ⟨ha, hp'⟩
          · exact .inr (.inl (by simp [place, hne]))
          · have hne' := ne_nil_of_found hp'
            by_cases hat : a = t
            · rw [hat] at hsome ⊢
              rcases hlast p' hp' hsome with rfl | hbefore
              · exact .inl rfl
              · exact .inr (.inr ⟨rfl, hbefore⟩)
            · have hplus : a = plus := ha.resolve_right hat
              rw [hplus] at hat ⊢
              exact .inr (.inl (by simp [place, hne, hne', hat]))
      · rcases Option.or_eq_some_iff.mp h with h | ⟨hplus, h⟩
        · obtain ⟨p, hp, hg, hlast⟩ := ih h
          have hne := ne_nil_of_found hp
          refine ⟨plus :: p, (found_cons hts).mpr (.inr ⟨.inl rfl, hp⟩), hg, ?_⟩
          intro p' hp' hsome
          cases p' with
          | nil => exact absurd rfl (ne_nil_of_found hp')
          | cons a p' =>
            rcases (found_cons hts).mp hp' with ⟨rfl, rfl⟩ | ⟨ha | ha, hp'⟩
            · refine .inr (.inl ?_)
              unfold place
              by_cases hpt : plus = t
              · simp [hne, hpt]
              · simp [hne, hpt]
            · rw [ha] at hsome ⊢
              rcases hlast p' hp' hsome with rfl | hbefore
              · exact .inl rfl
              · exact .inr (.inr ⟨rfl, hbefore⟩)
            · rw [ha] at hsome
              exact absurd hsome (hnone t ht p' hp')
        · refine ⟨[hash], (found_cons hts).mpr (.inl ⟨rfl, rfl⟩), h, ?_⟩
          intro p' hp' hsome
          cases p' with
          | nil => exact absurd rfl (ne_nil_of_found hp')
          | cons a p' =>
            rcases (found_cons hts).mp hp' with ⟨rfl, rfl⟩ | ⟨ha | ha, hp'⟩
            · exact .inl rfl
            · rw [ha] at hsome
              exact absurd hsome (hnone plus hplus p' hp')
            · rw [ha] at hsome
              exact absurd hsome (hnone t ht p' hp')

/-- The pattern that decides what the lookup returns is the last one that it comes to. -/
theorem pick_eq_some_iff (ts : List L) {g : List L → Option β} {q : β} :
    pick plus hash skip g ts = some q ↔
      ∃ p, Found plus hash skip p ts ∧ g p = some q ∧
        ∀ p', Found plus hash skip p' ts → (g p').isSome → p' = p ∨ Before plus ts p' p := by
  constructor
  · exact pick_spec ts
  · rintro ⟨p, hp, hg, hlast⟩
    have hsome := pick_isSome_of_found ts (g := g) hp (by rw [hg]; rfl)
    obtain ⟨q', hq'⟩ := Option.isSome_iff_exists.mp hsome
    obtain ⟨p', hp', hg', hlast'⟩ := pick_spec ts hq'
    have heq : p = p' := by
      rcases hlast p' hp' (by rw [hg']; rfl) with h | h
      · exact h.symm
      · rcases hlast' p hp (by rw [hg]; rfl) with h' | h'
        · exact h'
        · exact absurd h' (Before.asymm ts h)
    rw [hq', ← hg', ← heq, hg]

end order

end Wildcards
