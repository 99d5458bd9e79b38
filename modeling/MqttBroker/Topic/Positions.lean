import MqttBroker.Topic.Matchers

/-!
# The two positions of `IsTopicMatch`

The loop keeps a position in the subscription and one in the topic, and reads the topic at the
first of the two. As long as the two are equal this makes no difference. A `+` that takes a
level of another length than one byte sets them apart: after a longer level the loop reads
inside of it, and after an empty one it reads ahead, until it may read past the end. This file
says exactly when that happens, first for any two strings and then, for a filter and a topic,
when the answer is wrong because of it.
-/

namespace MqttBroker
namespace TreeSubsMgr

/-! ## Reading past the end -/

/-- How far the topic is used up by the first bytes of the subscription: a `+` takes what is
left of a level, and a byte that the topic has at the same index takes one. -/
def readTo (topic subscription : GoString) : ℕ → ℕ
  | 0 => 0
  | i + 1 =>
    if subscription[i]? = topic[i]? then readTo topic subscription i + 1
    else skipLevel topic (readTo topic subscription i)

/-- The subscription is longer than the topic, no byte of it before the end of the topic stops
the comparison, and the topic is not used up by then. -/
def Overruns (topic subscription : GoString) : Prop :=
  topic.length < subscription.length ∧
    (∀ i < topic.length, subscription[i]? = topic[i]? ∨ subscription[i]? = some 43) ∧
    readTo topic subscription topic.length < topic.length

theorem le_skipLevel (topic : GoString) (j : ℕ) : j ≤ skipLevel topic j := by
  unfold skipLevel
  omega

theorem readTo_succ (topic subscription : GoString) (i : ℕ) :
    readTo topic subscription (i + 1) =
      if subscription[i]? = topic[i]? then readTo topic subscription i + 1
      else skipLevel topic (readTo topic subscription i) :=
  rfl

theorem readTo_mono (topic subscription : GoString) {i k : ℕ} (h : i ≤ k) :
    readTo topic subscription i ≤ readTo topic subscription k := by
  induction k with
  | zero =>
    have hi : i = 0 := by omega
    rw [hi]
  | succ k ih =>
    by_cases hik : i = k + 1
    · rw [hik]
    · have hle := ih (by omega)
      have hskip := le_skipLevel topic (readTo topic subscription k)
      rw [readTo_succ]
      by_cases heq : subscription[k]? = topic[k]?
      · rw [if_pos heq]
        omega
      · rw [if_neg heq]
        omega

/-- The loop after `i` rounds: it fails when the two strings are such that it reads on to the
end of the topic. -/
theorem matchFrom_isOk_iff {topic subscription : GoString} (tail : GoString) :
    ∀ i, subscription.drop i = tail → i ≤ topic.length →
      (∀ k < i, subscription[k]? = topic[k]? ∨ subscription[k]? = some 43) →
      ((∃ b, matchFrom topic tail i (readTo topic subscription i) = .ok b) ↔
        ¬ Overruns topic subscription) := by
  induction tail with
  | nil =>
    intro i hdrop hi _
    have hlen := List.drop_eq_nil_iff.mp hdrop
    refine iff_of_true ⟨_, by rw [matchFrom]⟩ fun h => ?_
    have := h.1
    omega
  | cons c tail ih =>
    intro i hdrop hi hread
    have hlt : i < subscription.length := by
      by_contra hge
      rw [List.drop_eq_nil_of_le (by omega)] at hdrop
      exact absurd hdrop (by simp)
    have hc : subscription[i]? = some c := by
      have := congrArg List.head? hdrop
      rwa [List.head?_drop, List.head?_cons] at this
    rw [matchFrom]
    by_cases hj : readTo topic subscription i < topic.length
    · rw [if_pos hj]
      by_cases hend : i = topic.length
      · -- the read past the end
        have hnone : topic[i]? = none := List.getElem?_eq_none (by omega)
        rw [hnone]
        subst hend
        exact iff_of_false (by simp) (not_not.mpr ⟨by omega, hread, hj⟩)
      · obtain ⟨b, hb⟩ : ∃ b, topic[i]? = some b :=
          ⟨_, List.getElem?_eq_getElem (by omega)⟩
        rw [hb]
        have hnext : ∀ h : subscription[i]? = topic[i]? ∨ subscription[i]? = some 43,
            ∀ k < i + 1, subscription[k]? = topic[k]? ∨ subscription[k]? = some 43 := by
          intro h k hk
          by_cases hki : k = i
          · rwa [hki]
          · exact hread k (by omega)
        by_cases hcb : c = b
        · have heq : subscription[i]? = topic[i]? := by rw [hc, hb, hcb]
          have hto := readTo_succ topic subscription i
          rw [if_pos heq] at hto
          simp only [if_pos hcb]
          rw [← hto]
          exact ih (i + 1) (drop_succ_of_drop hdrop) (by omega) (hnext (.inl heq))
        · have hne : subscription[i]? ≠ topic[i]? := by simp [hc, hb, hcb]
          simp only [if_neg hcb]
          by_cases h43 : c = 43
          · have hto : readTo topic subscription (i + 1) =
                skipLevel topic (readTo topic subscription i) := if_neg hne
            rw [if_pos h43, ← hto]
            exact ih (i + 1) (drop_succ_of_drop hdrop) (by omega)
              (hnext (.inr (by rw [hc, h43])))
          · rw [if_neg h43]
            refine iff_of_true ⟨_, rfl⟩ fun h => ?_
            rcases h.2.1 i (by omega) with h | h
            · exact hne h
            · rw [hc] at h
              exact h43 (Option.some.inj h)
    · -- the topic is used up, and what is left of the subscription does not change that
      rw [if_neg hj]
      refine iff_of_true ⟨_, rfl⟩ fun h => ?_
      have := readTo_mono topic subscription hi
      have := h.2.2
      omega

/-- `IsTopicMatch` stays within its strings exactly when the subscription does not overrun the
topic. -/
theorem isTopicMatch_returns_iff (topic subscription : GoString) :
    (∃ b, isTopicMatch topic subscription = .ok b) ↔ ¬ Overruns topic subscription :=
  matchFrom_isOk_iff subscription 0 List.drop_zero (Nat.zero_le _) fun _ hk => by omega

/-- An empty level under a `+`, and a subscription that goes on behind it. -/
theorem isTopicMatch_out_of_range :
    isTopicMatch (str "/") (str "+/+") = .error .indexOutOfRange :=
  rfl

/-! ## What a filter matches -/

/-- Level by level: a level is equal or under a `+`, a last `#` takes the levels that are left,
and after at least one level a last `+` or `#` may also have nothing to stand for. -/
def LevelsMatch : List GoString → List GoString → Prop
  | [], ts => ts = []
  | f :: fs, [] => (f = str "+" ∨ f = str "#") ∧ fs = []
  | f :: fs, t :: ts => f = str "#" ∧ fs = [] ∨ (f = str "+" ∨ f = t) ∧ LevelsMatch fs ts

instance decidableLevelsMatch : ∀ fs ts : List GoString, Decidable (LevelsMatch fs ts)
  | [], ts => inferInstanceAs (Decidable (ts = []))
  | f :: fs, [] => inferInstanceAs (Decidable ((f = str "+" ∨ f = str "#") ∧ fs = []))
  | f :: fs, t :: ts =>
    have := decidableLevelsMatch fs ts
    inferInstanceAs (Decidable
      (f = str "#" ∧ fs = [] ∨ (f = str "+" ∨ f = t) ∧ LevelsMatch fs ts))

/-- For a well-formed filter the two ways to say it agree. -/
theorem Filter.levelsMatch_iff (fs : List GoString) :
    ∀ {f t : GoString} {ts : List GoString}, Filter f fs →
      (LevelsMatch (f :: fs) (t :: ts) ↔ MatchesOrEnds (f :: fs) (t :: ts)) := by
  induction fs with
  | nil =>
    intro f t ts _
    rw [LevelsMatch, LevelsMatch]
    by_cases hhash : f = str "#"
    · rw [hhash]
      exact iff_of_true (.inl ⟨rfl, rfl⟩) matchesOrEnds_hash
    · rw [matchesOrEnds_last hhash]
      simp [hhash]
  | cons f' fs ih =>
    intro f t ts hf
    have hhash : f ≠ str "#" := fun h => hf.hash_last (h ▸ List.mem_cons_self)
    rw [LevelsMatch]
    cases ts with
    | nil =>
      rw [matchesOrEnds_end hhash (List.cons_ne_nil _ _), LevelsMatch]
      simp only [List.cons.injEq, hhash, false_and, false_or]
      tauto
    | cons t' ts =>
      rw [matchesOrEnds_cons hhash, ih hf.next]
      simp [hhash]

/-! ## Reading ahead -/

/-- The bytes on the left against those on the right, a `+` for any one byte: `none` when the
right side ends first, and otherwise whether this comes to a `#` before a byte that differs
and before its end. -/
def compareAhead : GoString → GoString → Option Bool
  | [], _ => some false
  | _ :: _, [] => none
  | c :: r, b :: u =>
    if c = 35 then some true
    else if c = 43 ∨ c = b then compareAhead r u
    else some false

/-- What the loop returns when it reads ahead. -/
def aheadResult (r : GoString) (u : GoString) : Except Panic Bool :=
  match compareAhead r u with
  | none => .error .indexOutOfRange
  | some b => .ok b

/-- A topic without wildcards. -/
structure Plain (topic : GoString) : Prop where
  plus_notMem : 43 ∉ topic
  hash_notMem : 35 ∉ topic

theorem Plain.getElem_ne {topic : GoString} (h : Plain topic) {i : ℕ} (hi : i < topic.length) :
    43 ≠ topic[i] ∧ 35 ≠ topic[i] :=
  ⟨fun h43 => h.plus_notMem (h43 ▸ List.getElem_mem hi),
    fun h35 => h.hash_notMem (h35 ▸ List.getElem_mem hi)⟩

/-- One byte of the subscription, read ahead of the position in the topic. -/
theorem matchFrom_ahead_cons {topic : GoString} (htopic : Plain topic) {i j : ℕ} (hj : j < i)
    (hi : i ≤ topic.length) (c : UInt8) (tail : GoString)
    (hskip : c = 43 → i < topic.length → skipLevel topic j ≤ i)
    (hnext : ∀ j' ≤ i, i < topic.length → (c ≠ 43 → topic[i]? = some c) →
      matchFrom topic tail (i + 1) j' = aheadResult tail (topic.drop (i + 1))) :
    matchFrom topic (c :: tail) i j = aheadResult (c :: tail) (topic.drop i) := by
  rw [matchFrom, if_pos (by omega)]
  by_cases hend : i = topic.length
  · rw [List.getElem?_eq_none (by omega), List.drop_eq_nil_of_le (by omega)]
    rfl
  · have hlt : i < topic.length := by omega
    have hb := List.getElem?_eq_getElem hlt
    obtain ⟨hb43, hb35⟩ := htopic.getElem_ne hlt
    rw [List.drop_eq_getElem_cons hlt, hb]
    unfold aheadResult at hnext ⊢
    unfold compareAhead
    by_cases hcb : c = topic[i]
    · have hc43 : c ≠ 43 := fun h => hb43 (h ▸ hcb)
      have hc35 : c ≠ 35 := fun h => hb35 (h ▸ hcb)
      simp only [if_pos hcb, if_neg hc35, if_pos (Or.inr hcb)]
      exact hnext (j + 1) hj hlt fun _ => by rw [hb, hcb]
    · simp only [if_neg hcb]
      by_cases hc43 : c = 43
      · have hc35 : c ≠ 35 := by
          rw [hc43]
          decide
        simp only [if_pos hc43, if_neg hc35, if_pos (Or.inl hc43)]
        exact hnext _ (hskip hc43 hlt) hlt fun h => absurd hc43 h
      · simp only [if_neg hc43]
        by_cases hc35 : c = 35
        · rw [if_pos hc35, hc35]
          rfl
        · rw [if_neg hc35, if_neg (not_or.mpr ⟨hc43, hcb⟩)]
          simp [hc35]

/-- A level without a `+`, read ahead. -/
theorem matchFrom_ahead_level {topic : GoString} (htopic : Plain topic) (tail : GoString)
    (f : GoString) :
    ∀ {i j : ℕ}, j < i → i ≤ topic.length → 43 ∉ f →
      (∀ {i j : ℕ}, j < i → i ≤ topic.length →
        matchFrom topic tail i j = aheadResult tail (topic.drop i)) →
      matchFrom topic (f ++ tail) i j = aheadResult (f ++ tail) (topic.drop i) := by
  induction f with
  | nil => exact fun hj hi _ htail => htail hj hi
  | cons c f ih =>
    intro i j hj hi h43 htail
    rw [List.mem_cons, not_or] at h43
    apply matchFrom_ahead_cons htopic hj hi c _ fun h => absurd h.symm h43.1
    intro j' hj' hlt _
    exact ih (by omega) hlt h43.2 htail

/-- A `+` moves the position in the topic at most to the next slash. -/
theorem skipLevel_le {topic : GoString} {i j : ℕ} (hji : j ≤ i) (h : topic[i]? = some slash) :
    skipLevel topic j ≤ i := by
  unfold skipLevel
  by_contra hgt
  have hlt : i - j < ((topic.drop j).takeWhile (· != slash)).length := by omega
  have hmem := List.getElem_mem hlt
  have hget := (List.takeWhile_prefix (· != slash)).getElem hlt
  have hslash : topic[i]? = some ((topic.drop j).takeWhile (· != slash))[i - j] := by
    have hi := (List.getElem?_eq_some_iff.mp h).1
    have heq : j + (i - j) = i := by omega
    simp only [hget, List.getElem_drop, heq, List.getElem?_eq_getElem hi]
  have hne := List.mem_takeWhile_imp hmem
  rw [h] at hslash
  rw [← Option.some.inj hslash] at hne
  exact absurd hne (by decide)

/-- Once the loop reads ahead of its position in the topic, it does so to the end: a `+` of the
filter moves the position at most to the slash before it. -/
theorem matchFrom_ahead {topic : GoString} (htopic : Plain topic) (fs : List GoString) :
    ∀ {f : GoString} {i j : ℕ}, Filter f fs → j < i → i ≤ topic.length →
      matchFrom topic (tailLevels fs) i j = aheadResult (tailLevels fs) (topic.drop i) := by
  induction fs with
  | nil =>
    intro f i j _ hj hi
    rw [tailLevels_nil]
    apply matchFrom_nil
    intro hdrop
    have := List.drop_eq_nil_iff.mp hdrop
    omega
  | cons f' fs ih =>
    intro f i j hf hj hi
    have hf' := hf.next
    rw [tailLevels_cons]
    apply matchFrom_ahead_cons htopic hj hi slash _ fun h => absurd h (by decide)
    intro j' hj' hlt hslash
    by_cases hp : f' = str "+"
    · -- the level that the `+` takes ends at the slash that was just read, if not before
      rw [hp]
      show matchFrom topic (43 :: tailLevels fs) (i + 1) j' =
        aheadResult (43 :: tailLevels fs) (topic.drop (i + 1))
      apply matchFrom_ahead_cons htopic (by omega) hlt 43 _
      · intro _ _
        have := skipLevel_le hj' (hslash (by decide))
        omega
      · intro j'' hj'' hlt' _
        exact ih hf' (by omega) hlt'
    · have h43 : 43 ∉ f' := fun h => hp (hf'.plus_eq f' List.mem_cons_self h)
      exact matchFrom_ahead_level htopic _ f' (by omega) hlt h43 (ih hf')

/-! ## The right answer -/

/-- A call returns, and returns whether `p` holds. -/
def Answers (r : Except Panic Bool) (p : Prop) : Prop := ∃ b, r = .ok b ∧ (b = true ↔ p)

theorem answers_ok (b : Bool) (p : Prop) : Answers (.ok b) p ↔ (b = true ↔ p) := by
  unfold Answers
  simp

theorem answers_ahead (r u : GoString) (p : Prop) :
    Answers (aheadResult r u) p ↔
      compareAhead r u = some true ∧ p ∨ compareAhead r u = some false ∧ ¬ p := by
  unfold aheadResult
  cases compareAhead r u with
  | none => simp [Answers]
  | some b =>
    rw [answers_ok]
    cases b with
    | true => simp
    | false => simp

/-- No level sets the positions apart, or only where the answer is right all the same. Level by
level as long as the two agree: a `+` that is not the last level of the filter stands against one
byte, or against the last level of the topic; otherwise, against a longer level, the rest must
not match, and against an empty one the comparison that reads ahead must come to a `#` when the
rest matches, and to a byte that differs or the end of the filter when it does not. At an empty
last level of the topic the filter does not have a `+` and then one more wildcard. -/
def KeepsStep : List GoString → List GoString → Prop
  | f :: f' :: fs, t :: t' :: ts =>
    if f ≠ str "+" ∨ t.length = 1 then f = str "+" ∨ f = t → KeepsStep (f' :: fs) (t' :: ts)
    else if t = [] then
      compareAhead (tailLevels (f' :: fs)) (t' ++ tailLevels ts) = some true ∧
          LevelsMatch (f' :: fs) (t' :: ts) ∨
        compareAhead (tailLevels (f' :: fs)) (t' ++ tailLevels ts) = some false ∧
          ¬ LevelsMatch (f' :: fs) (t' :: ts)
    else ¬ LevelsMatch (f' :: fs) (t' :: ts)
  | [f, f'], [t] => ¬ (f = str "+" ∧ t = [] ∧ (f' = str "+" ∨ f' = str "#"))
  | _, _ => True

instance decidableKeepsStep : ∀ fs ts : List GoString, Decidable (KeepsStep fs ts)
  | f :: f' :: fs, t :: t' :: ts =>
    have := decidableKeepsStep (f' :: fs) (t' :: ts)
    inferInstanceAs (Decidable (if f ≠ str "+" ∨ t.length = 1 then _ else _))
  | [_, _], [_] => inferInstanceAs (Decidable (¬ _))
  | _ :: _ :: _ :: _, [_] => isTrue trivial
  | [], _ => isTrue trivial
  | [_], _ => isTrue trivial
  | _ :: _ :: _, [] => isTrue trivial

theorem LevelsMatch.cons_iff {f f' t : GoString} {fs ts : List GoString} (hf : f ≠ str "#") :
    LevelsMatch (f :: f' :: fs) (t :: ts) ↔
      (f = str "+" ∨ f = t) ∧ LevelsMatch (f' :: fs) ts := by
  rw [LevelsMatch]
  simp [hf]

section

variable {topic f f' t t' : GoString} {fs ts : List GoString} {i : ℕ}

/-- The filter goes on behind the last level of the topic. -/
theorem matchFrom_topic_ends (hf : Filter f (f' :: fs)) (ht : At topic i t []) :
    Answers (matchFrom topic (f ++ tailLevels (f' :: fs)) i i) (LevelsMatch (f :: f' :: fs) [t]) ↔
      KeepsStep (f :: f' :: fs) [t] := by
  have hhash : f ≠ str "#" := fun h => hf.hash_last (h ▸ List.mem_cons_self)
  have hend : LevelsMatch (f' :: fs) [] ↔
      f' ++ tailLevels fs = str "+" ∨ f' ++ tailLevels fs = str "#" := by
    rw [hf.next.tail_eq_iff, LevelsMatch]
    simp only [List.cons.injEq]
    tauto
  rw [LevelsMatch.cons_iff hhash, hend]
  by_cases hplus : f = str "+"
  · by_cases hempty : t = []
    · -- the `+` has nothing to take, and the tail that is left starts with it
      have hr : topic.drop i = [] := by
        rw [ht.drop_eq, hempty]
        rfl
      rw [matchFrom_end hr ht.le_length, hplus, answers_ok, hempty, ← hend, LevelsMatch]
      cases fs with
      | nil => simp [KeepsStep, str]
      | cons f'' fs => simp [KeepsStep, str]
    · have hr : topic.drop i ≠ [] := by
        rw [ht.drop_eq]
        simp [hempty]
      rw [hplus, ht.matchFrom_plus hr, ht.matchFrom_last_slash, answers_ok]
      refine iff_of_true (by simp) ?_
      cases fs with
      | nil => simp [KeepsStep, hempty]
      | cons f'' fs => simp [KeepsStep]
  · obtain ⟨hslash, h43, h35⟩ := hf.literal hplus hhash
    rw [matchFrom_literal (f' :: fs) [] f i t ht.drop_eq ht.le_length hslash
      (ht.slash_notMem t List.mem_cons_self) h43 h35]
    have hkeeps : KeepsStep (f :: f' :: fs) [t] := by
      cases fs with
      | nil => simp [KeepsStep, hplus]
      | cons f'' fs => simp [KeepsStep]
    refine iff_of_true ?_ hkeeps
    by_cases hft : f = t
    · rw [if_pos hft, ht.matchFrom_last_slash, answers_ok]
      simp [hft]
    · rw [if_neg hft, answers_ok]
      simp [hplus, hft]

/-- A `+` that takes a level of more than one byte: the loop reads inside of that level. -/
theorem matchFrom_longer (ht : At topic i t (t' :: ts)) (hlen : 1 < t.length) :
    matchFrom topic (str "+" ++ tailLevels (f' :: fs)) i i = .ok false := by
  have hr : topic.drop i ≠ [] := by
    rw [ht.drop_eq]
    simp
  rw [ht.matchFrom_plus hr, tailLevels_cons, matchFrom]
  have hlt : i + t.length < topic.length := by
    by_contra hge
    have hdrop := ht.end_level.1
    rw [List.drop_eq_nil_of_le (by omega)] at hdrop
    exact absurd hdrop (by simp)
  rw [if_pos hlt]
  obtain ⟨a, b, t, rfl⟩ : ∃ a b t', t = a :: b :: t' := by
    cases t with
    | nil => exact absurd hlen (by simp)
    | cons a t =>
      cases t with
      | nil => exact absurd hlen (by simp)
      | cons b t => exact ⟨a, b, t, rfl⟩
  have hb : topic[i + 1]? = some b := by
    have hdrop := congrArg List.head? (drop_succ_of_drop ht.drop_eq)
    rw [List.head?_drop] at hdrop
    exact hdrop
  have hne : slash ≠ b := by
    intro h
    apply ht.slash_notMem _ List.mem_cons_self
    rw [h]
    simp
  rw [hb]
  simp only [if_neg hne]
  rfl

/-- A `+` that takes an empty level: the loop reads ahead. -/
theorem matchFrom_empty (hf : Filter f (f' :: fs)) (ht : At topic i [] (t' :: ts)) :
    matchFrom topic (str "+" ++ tailLevels (f' :: fs)) i i =
      aheadResult (tailLevels (f' :: fs)) (t' ++ tailLevels ts) := by
  have htopic : Plain topic := ⟨ht.plus_notMem, ht.hash_notMem⟩
  have hdrop : topic.drop i = slash :: (t' ++ tailLevels ts) := ht.drop_eq
  have hr : topic.drop i ≠ [] := by
    rw [hdrop]
    simp
  have hlt : i + 1 ≤ topic.length := by
    by_contra hge
    exact hr (List.drop_eq_nil_of_le (by omega))
  rw [ht.matchFrom_plus hr, ← drop_succ_of_drop hdrop]
  exact matchFrom_ahead htopic _ hf (Nat.lt_succ_self i) hlt

end

/-- The loop from the start of a level on. -/
theorem matchFrom_answers_iff {topic : GoString} (fs : List GoString) :
    ∀ {f t : GoString} {ts : List GoString} {i : ℕ}, Filter f fs → At topic i t ts →
      (Answers (matchFrom topic (f ++ tailLevels fs) i i) (LevelsMatch (f :: fs) (t :: ts)) ↔
        KeepsStep (f :: fs) (t :: ts)) := by
  induction fs with
  | nil =>
    intro f t ts i hf ht
    rw [tailLevels_nil, List.append_nil, hf.levelsMatch_iff]
    refine iff_of_true (matchFrom_last hf ht) ?_
    unfold KeepsStep
    trivial
  | cons f' fs ih =>
    intro f t ts i hf ht
    cases ts with
    | nil => exact matchFrom_topic_ends hf ht
    | cons t' ts =>
      have hhash : f ≠ str "#" := fun h => hf.hash_last (h ▸ List.mem_cons_self)
      rw [LevelsMatch.cons_iff hhash, KeepsStep]
      by_cases hplus : f = str "+"
      · by_cases hone : t.length = 1
        · have hr : topic.drop i ≠ [] := by
            rw [ht.drop_eq]
            simp
          have hlevel : str "+" = str "+" ∨ str "+" = t := .inl rfl
          rw [if_pos (.inr hone), hplus, ht.matchFrom_plus hr, ← hone, ht.matchFrom_slash,
            and_iff_right hlevel, imp_iff_right hlevel]
          exact ih hf.next ht.next
        · rw [if_neg (by simp [hplus, hone])]
          by_cases hempty : t = []
          · rw [if_pos hempty, hplus]
            subst hempty
            rw [matchFrom_empty hf ht, answers_ahead]
            simp
          · have hlen : 1 < t.length := by
              have := List.length_pos_iff.mpr hempty
              omega
            rw [if_neg hempty, hplus, matchFrom_longer ht hlen, answers_ok]
            simp
      · obtain ⟨hslash, h43, h35⟩ := hf.literal hplus hhash
        rw [if_pos (.inl hplus), matchFrom_literal (f' :: fs) (t' :: ts) f i t ht.drop_eq
          ht.le_length hslash (ht.slash_notMem t List.mem_cons_self) h43 h35]
        by_cases hft : f = t
        · have hlevel : f = str "+" ∨ f = t := .inr hft
          rw [if_pos hft, ht.matchFrom_slash, and_iff_right hlevel, imp_iff_right hlevel]
          exact ih hf.next ht.next
        · rw [if_neg hft, answers_ok]
          simp [hplus, hft]

/-- `IsTopicMatch` says whether the levels match exactly for the topics and filters that keep its
positions in step. -/
theorem isTopicMatch_answers_iff (topic filter : GoString) (hplus : 43 ∉ topic)
    (hhash : 35 ∉ topic) (hfilter : WellFormed filter) :
    (∃ b, isTopicMatch topic filter = .ok b ∧
        (b = true ↔ LevelsMatch (levels filter) (levels topic))) ↔
      KeepsStep (levels filter) (levels topic) := by
  obtain ⟨f, fs, hfs⟩ := List.exists_cons_of_ne_nil (levels_ne_nil filter)
  obtain ⟨t, ts, hts⟩ := List.exists_cons_of_ne_nil (levels_ne_nil topic)
  have hiff := matchFrom_answers_iff fs (hfilter.toFilter hfs) (at_start hplus hhash hts)
  rw [← eq_of_levels hfs] at hiff
  rw [hfs, hts]
  exact hiff

/-- A level of two bytes under a `+` at the end of the topic, and one of one byte before. -/
theorem isTopicMatch_answers_iff_plus :
    ∃ b, isTopicMatch (str "a/bc") (str "+/+") = .ok b ∧
      (b = true ↔ LevelsMatch (levels (str "+/+")) (levels (str "a/bc"))) := by
  apply (isTopicMatch_answers_iff (str "a/bc") (str "+/+") (by decide) (by decide) ?_).mpr
  · decide
  · unfold WellFormed
    decide

/-- A level of two bytes under a `+`, and a level of the filter after it. -/
theorem isTopicMatch_answers_wrongly :
    43 ∉ str "ab/c" ∧ 35 ∉ str "ab/c" ∧ WellFormed (str "+/c") ∧
      LevelsMatch (levels (str "+/c")) (levels (str "ab/c")) ∧
      isTopicMatch (str "ab/c") (str "+/c") = .ok false := by
  refine ⟨by decide, by decide, ?_, by decide, rfl⟩
  unfold WellFormed
  decide

end TreeSubsMgr
end MqttBroker
