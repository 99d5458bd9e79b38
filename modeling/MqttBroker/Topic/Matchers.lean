import MqttBroker.Topic.Lookup

/-!
# The two matchers

`IsTopicMatch` compares topic and subscription byte by byte. Where a `+` stands against a
level of one byte the two positions stay together, and then the comparison goes level by
level like the lookup, with one addition at the end of the topic: what is left of the
subscription may be a last level `+` or `#`.
-/

namespace MqttBroker
namespace TreeSubsMgr

/-- `+` only as a whole level, and `#` only as the whole last level. -/
def WellFormed (filter : GoString) : Prop :=
  (∀ l ∈ levels filter, 43 ∈ l → l = str "+") ∧ (∀ l ∈ levels filter, 35 ∈ l → l = str "#") ∧
    str "#" ∉ (levels filter).dropLast

/-- As far as the levels agree, a `+` that is not the last level of the filter stands against a
level of one byte, or against the last level of the topic. -/
def Aligned : List GoString → List GoString → Prop
  | f :: f' :: fs, t :: t' :: ts =>
    (f = str "+" → t.length = 1) ∧ (f = str "+" ∨ f = t → Aligned (f' :: fs) (t' :: ts))
  | _, _ => True

/-- The filter matches the topic, or does so without a last level `+` or `#`. -/
def MatchesOrEnds (fs ts : List GoString) : Prop :=
  Wildcards.Matches (str "+") (str "#") fs ts ∨
    ∃ fs', (fs = fs' ++ [str "+"] ∨ fs = fs' ++ [str "#"]) ∧ fs' ≠ [] ∧
      Wildcards.Matches (str "+") (str "#") fs' ts

/-- The levels after the first one, each with its slash. -/
def tailLevels (ls : List GoString) : GoString := ls.flatMap fun l => slash :: l

@[simp] theorem tailLevels_nil : tailLevels [] = [] := rfl

@[simp] theorem tailLevels_cons (l : GoString) (ls : List GoString) :
    tailLevels (l :: ls) = slash :: (l ++ tailLevels ls) := rfl

/-- A string is its levels with the slashes between them. -/
theorem eq_of_levels {topic : GoString} : ∀ {t : GoString} {ts : List GoString},
    levels topic = t :: ts → topic = t ++ tailLevels ts := by
  induction hn : topic.length using Nat.strong_induction_on generalizing topic with
  | _ n ih =>
    intro t ts h
    rcases nextField_cases topic with ⟨hslash, -⟩ | ⟨field, rest, htopic, hslash, -⟩
    · rw [levels_of_notMem hslash] at h
      rw [(List.cons.inj h).1, ← (List.cons.inj h).2, tailLevels_nil, List.append_nil]
    · have hlen : rest.length < n := by
        rw [← hn, htopic, List.length_append, List.length_cons]
        omega
      rw [htopic, levels_append_cons hslash] at h
      obtain ⟨t', ts', hrest⟩ := List.exists_cons_of_ne_nil (levels_ne_nil rest)
      have := ih _ hlen rfl hrest
      rw [htopic, (List.cons.inj h).1, ← (List.cons.inj h).2, hrest, tailLevels_cons, this]

/-- A level has no slash. -/
theorem slash_notMem_of_mem_levels {topic : GoString} :
    ∀ {l : GoString}, l ∈ levels topic → slash ∉ l := by
  induction hn : topic.length using Nat.strong_induction_on generalizing topic with
  | _ n ih =>
    intro l hl
    rcases nextField_cases topic with ⟨hslash, -⟩ | ⟨field, rest, htopic, hslash, -⟩
    · rw [levels_of_notMem hslash, List.mem_singleton] at hl
      rwa [hl]
    · have hlen : rest.length < n := by
        rw [← hn, htopic, List.length_append, List.length_cons]
        omega
      rw [htopic, levels_append_cons hslash, List.mem_cons] at hl
      rcases hl with rfl | hl
      · exact hslash
      · exact ih _ hlen rfl hl

/-! ## What it means to match, one level at a time -/

section levels

variable {f f' t t' : GoString} {fs ts : List GoString}

theorem matchesOrEnds_hash : MatchesOrEnds [str "#"] (t :: ts) := .inl (.inl ⟨rfl, rfl⟩)

theorem matchesOrEnds_last (hf : f ≠ str "#") :
    MatchesOrEnds [f] (t :: ts) ↔ (f = str "+" ∨ f = t) ∧ ts = [] := by
  unfold MatchesOrEnds
  have hsingle : ¬ ∃ fs', ([f] = fs' ++ [str "+"] ∨ [f] = fs' ++ [str "#"]) ∧ fs' ≠ [] ∧
      Wildcards.Matches (str "+") (str "#") fs' (t :: ts) := by
    rintro ⟨fs', h | h, hne, -⟩
    all_goals
      have := congrArg List.length h
      have hpos := List.length_pos_iff.mpr hne
      simp only [List.length_singleton, List.length_append] at this
      omega
  rw [or_iff_left hsingle, Wildcards.Matches]
  cases ts with
  | nil => simp [Wildcards.Matches, hf]
  | cons t' ts => simp [Wildcards.Matches, hf]

theorem matchesOrEnds_end (hf : f ≠ str "#") (hfs : fs ≠ []) :
    MatchesOrEnds (f :: fs) [t] ↔
      (f = str "+" ∨ f = t) ∧ (fs = [str "+"] ∨ fs = [str "#"]) := by
  have hnot : ¬ Wildcards.Matches (str "+") (str "#") (f :: fs) [t] := by
    rw [Wildcards.matches_singleton]
    simp [hfs]
  unfold MatchesOrEnds
  rw [or_iff_right hnot]
  constructor
  · rintro ⟨fs', h, hne, hm⟩
    rw [Wildcards.matches_singleton] at hm
    have hone : fs' = [str "+"] ∨ fs' = [t] := by
      rcases hm with rfl | hm
      · rcases h with h | h
        all_goals exact absurd (List.cons.inj h).1 hf
      · exact hm
    rcases hone with rfl | rfl
    all_goals
      simp only [List.singleton_append, List.cons.injEq] at h
      tauto
  · rintro ⟨hft, hfs'⟩
    refine ⟨[f], ?_, List.cons_ne_nil _ _, ?_⟩
    · rcases hfs' with rfl | rfl
      · exact .inl rfl
      · exact .inr rfl
    · rw [Wildcards.matches_singleton]
      simp only [List.cons.injEq, and_true]
      tauto

theorem matchesOrEnds_cons (hf : f ≠ str "#") :
    MatchesOrEnds (f :: f' :: fs) (t :: t' :: ts) ↔
      (f = str "+" ∨ f = t) ∧ MatchesOrEnds (f' :: fs) (t' :: ts) := by
  unfold MatchesOrEnds
  rw [Wildcards.Matches]
  constructor
  · rintro ((⟨h, -⟩ | ⟨hft, hm⟩) | ⟨fs', h, hne, hm⟩)
    · exact absurd h hf
    · exact ⟨hft, .inl hm⟩
    · cases fs' with
      | nil => exact absurd rfl hne
      | cons g fs' =>
        have hg : f = g := by
          rcases h with h | h
          all_goals exact (List.cons.inj h).1
        rw [Wildcards.Matches, ← hg] at hm
        rcases hm with ⟨h', -⟩ | ⟨hft, hm⟩
        · exact absurd h' hf
        · refine ⟨hft, .inr ⟨fs', ?_, ?_, hm⟩⟩
          · exact h.imp (fun h => (List.cons.inj h).2) fun h => (List.cons.inj h).2
          · rintro rfl
            exact absurd hm (by simp [Wildcards.Matches])
  · rintro ⟨hft, hm | ⟨fs', h, hne, hm⟩⟩
    · exact .inl (.inr ⟨hft, hm⟩)
    · refine .inr ⟨f :: fs', ?_, List.cons_ne_nil _ _, ?_⟩
      · rw [List.cons_append, List.cons_append]
        exact h.imp (fun h => by rw [h]) fun h => by rw [h]
      · rw [Wildcards.Matches]
        exact .inr ⟨hft, hm⟩

end levels

/-! ## The loop, one byte at a time -/

theorem drop_succ_of_drop {topic : GoString} {i : ℕ} {b : UInt8} {r : GoString}
    (h : topic.drop i = b :: r) : topic.drop (i + 1) = r := by
  rw [← List.drop_drop, h, List.drop_one, List.tail_cons]

/-- A round of the loop with both positions at the same byte. -/
theorem matchFrom_cons {topic : GoString} {i : ℕ} {b : UInt8} {r : GoString}
    (h : topic.drop i = b :: r) (c : UInt8) (tail : GoString) :
    matchFrom topic (c :: tail) i i =
      if c = b then matchFrom topic tail (i + 1) (i + 1)
      else if c = 43 then matchFrom topic tail (i + 1) (skipLevel topic i)
      else .ok (c == 35) := by
  have hlt : i < topic.length := by
    by_contra hge
    rw [List.drop_eq_nil_of_le (by omega)] at h
    exact absurd h (by simp)
  have hb : topic[i]? = some b := by
    have := congrArg List.head? h
    rwa [List.head?_drop, List.head?_cons] at this
  rw [matchFrom, if_pos hlt, hb]

/-- The loop has come to the end of the topic. -/
theorem matchFrom_end {topic : GoString} {i j : ℕ} (h : topic.drop j = []) (hj : j ≤ topic.length)
    (tail : GoString) :
    matchFrom topic tail i j =
      .ok (decide (tail = [] ∨ tail ∈ [str "+", str "#", str "/+", str "/#"])) := by
  have hlen := List.drop_eq_nil_iff.mp h
  have heq : j = topic.length := by omega
  cases tail with
  | nil =>
    rw [matchFrom, matchTail, if_neg (by simp [heq])]
    rfl
  | cons c tail =>
    rw [matchFrom, if_neg (by omega), matchTail, if_pos (.inl (by simp))]
    simp [heq]

/-- The loop has come to the end of the subscription first. -/
theorem matchFrom_nil {topic : GoString} {i j : ℕ} (h : topic.drop j ≠ []) :
    matchFrom topic [] i j = .ok false := by
  have hlt : j < topic.length := by
    by_contra hge
    exact h (List.drop_eq_nil_of_le (by omega))
  rw [matchFrom, matchTail, if_pos (.inr (by omega))]
  simp
  omega

/-! ## The loop, one level at a time -/

/-- What the loop says when a level ends: the next level of both, or the end of one. -/
theorem matchFrom_literal {topic : GoString} (fs ts : List GoString) (f : GoString) :
    ∀ (i : ℕ) (t : GoString), topic.drop i = t ++ tailLevels ts → i ≤ topic.length →
      slash ∉ f → slash ∉ t → 43 ∉ f → 35 ∉ f →
      matchFrom topic (f ++ tailLevels fs) i i =
        if f = t then matchFrom topic (tailLevels fs) (i + t.length) (i + t.length)
        else .ok false := by
  induction f with
  | nil =>
    intro i t h hi _ ht _ _
    cases t with
    | nil => simp
    | cons b t =>
      rw [if_neg (by simp), List.nil_append]
      cases fs with
      | nil => exact matchFrom_nil (by simp [h])
      | cons f' fs =>
        have hb : slash ≠ b := fun hb => ht (hb ▸ List.mem_cons_self)
        rw [tailLevels_cons, matchFrom_cons h, if_neg hb]
        rfl
  | cons c f ih =>
    intro i t h hi hf ht hplus hhash
    have hc : c ≠ slash ∧ c ≠ 43 ∧ c ≠ 35 := by
      refine ⟨fun hc => hf ?_, fun hc => hplus ?_, fun hc => hhash ?_⟩
      all_goals
        rw [hc]
        exact List.mem_cons_self
    cases t with
    | nil =>
      rw [if_neg (by simp)]
      cases ts with
      | nil =>
        rw [matchFrom_end h hi]
        simp [str, hc]
      | cons t' ts =>
        rw [List.nil_append, tailLevels_cons] at h
        rw [List.cons_append, matchFrom_cons h, if_neg hc.1, if_neg hc.2.1]
        simp [hc.2.2]
    | cons b t =>
      rw [List.cons_append] at h
      rw [List.cons_append, matchFrom_cons h]
      by_cases hcb : c = b
      · have hdrop := drop_succ_of_drop h
        have hlen : i + 1 ≤ topic.length := by
          by_contra hge
          rw [List.drop_eq_nil_of_le (by omega)] at h
          exact absurd h (by simp)
        rw [if_pos hcb, ih (i + 1) t hdrop hlen (fun h => hf (List.mem_cons_of_mem _ h))
          (fun h => ht (List.mem_cons_of_mem _ h)) (fun h => hplus (List.mem_cons_of_mem _ h))
          (fun h => hhash (List.mem_cons_of_mem _ h))]
        have hnext : i + 1 + t.length = i + (b :: t).length := by
          rw [List.length_cons]
          omega
        rw [hnext, hcb]
        simp
      · rw [if_neg hcb, if_neg hc.2.1, if_neg (by simp [hcb])]
        simp [hc.2.2]

/-- A `+` takes the level of the topic up to its slash or its end. -/
theorem skipLevel_eq {topic : GoString} {i : ℕ} {t : GoString} {ts : List GoString}
    (h : topic.drop i = t ++ tailLevels ts) (ht : slash ∉ t) :
    skipLevel topic i = i + t.length := by
  have hself : t.takeWhile (· != slash) = t := by
    rw [List.takeWhile_eq_self_iff]
    intro b hb
    have : b ≠ slash := fun hbs => ht (hbs ▸ hb)
    simpa using this
  have htail : (tailLevels ts).takeWhile (· != slash) = [] := by
    cases ts with
    | nil => rfl
    | cons t' ts => simp
  rw [skipLevel, h, List.takeWhile_append, hself, if_pos rfl, htail, List.append_nil]

/-- A topic without wildcards, with the levels from one position on. -/
structure At (topic : GoString) (i : ℕ) (t : GoString) (ts : List GoString) : Prop where
  drop_eq : topic.drop i = t ++ tailLevels ts
  le_length : i ≤ topic.length
  slash_notMem : ∀ l ∈ t :: ts, slash ∉ l
  plus_notMem : 43 ∉ topic
  hash_notMem : 35 ∉ topic

namespace At

variable {topic t t' b : GoString} {i : ℕ} {ts : List GoString}

theorem not_wildcard (h : At topic i t ts) {b : UInt8} {r : GoString}
    (hr : t ++ tailLevels ts = b :: r) : 43 ≠ b ∧ 35 ≠ b := by
  have hb : b ∈ topic := by
    have : b ∈ topic.drop i := by
      rw [h.drop_eq, hr]
      exact List.mem_cons_self
    exact List.mem_of_mem_drop this
  refine ⟨fun h43 => h.plus_notMem ?_, fun h35 => h.hash_notMem ?_⟩
  · rwa [h43]
  · rwa [h35]

/-- The end of a level. -/
theorem end_level (h : At topic i t ts) :
    topic.drop (i + t.length) = tailLevels ts ∧ i + t.length ≤ topic.length := by
  constructor
  · rw [← List.drop_drop, h.drop_eq, List.drop_left]
  · have := congrArg List.length h.drop_eq
    rw [List.length_drop, List.length_append] at this
    have := h.le_length
    omega

/-- The next level starts after the slash. -/
theorem next (h : At topic i t (t' :: ts)) : At topic (i + t.length + 1) t' ts where
  drop_eq := drop_succ_of_drop (h.end_level.1.trans (tailLevels_cons t' ts))
  le_length := by
    by_contra hge
    have := h.end_level.1
    rw [List.drop_eq_nil_of_le (by omega)] at this
    exact absurd this (by simp)
  slash_notMem l hl := h.slash_notMem l (List.mem_cons_of_mem _ hl)
  plus_notMem := h.plus_notMem
  hash_notMem := h.hash_notMem

/-- A slash of the filter at the end of the topic: a last level `+` or `#` is accepted. -/
theorem matchFrom_last_slash (h : At topic i t []) (i' : ℕ) (f' : GoString) (fs : List GoString) :
    matchFrom topic (tailLevels (f' :: fs)) i' (i + t.length) =
      .ok (decide (f' ++ tailLevels fs = str "+" ∨ f' ++ tailLevels fs = str "#")) := by
  have h43 : slash ≠ 43 := by decide
  have h35 : slash ≠ 35 := by decide
  rw [matchFrom_end h.end_level.1 h.end_level.2, tailLevels_cons]
  simp [str, h43, h35]

/-- A slash of both: the loop goes on with the next level. -/
theorem matchFrom_slash (h : At topic i t (t' :: ts)) (f' : GoString) (fs : List GoString) :
    matchFrom topic (tailLevels (f' :: fs)) (i + t.length) (i + t.length) =
      matchFrom topic (f' ++ tailLevels fs) (i + t.length + 1) (i + t.length + 1) := by
  rw [tailLevels_cons, matchFrom_cons (h.end_level.1.trans (tailLevels_cons t' ts)), if_pos rfl]

/-- A `#` matches what is left. -/
theorem matchFrom_hash (h : At topic i t ts) : matchFrom topic (str "#") i i = .ok true := by
  cases hr : topic.drop i with
  | nil =>
    rw [matchFrom_end hr h.le_length]
    simp
  | cons b r =>
    have hb := h.not_wildcard (h.drop_eq.symm.trans hr)
    show matchFrom topic (35 :: []) i i = .ok true
    rw [matchFrom_cons hr, if_neg hb.2, if_neg (by decide)]
    rfl

/-- A `+` brings the loop to the end of the level. -/
theorem matchFrom_plus (h : At topic i t ts) (hr : topic.drop i ≠ []) (tail : GoString) :
    matchFrom topic (str "+" ++ tail) i i = matchFrom topic tail (i + 1) (i + t.length) := by
  obtain ⟨b, r, hbr⟩ := List.exists_cons_of_ne_nil hr
  have hb := h.not_wildcard (h.drop_eq.symm.trans hbr)
  show matchFrom topic (43 :: tail) i i = _
  rw [matchFrom_cons hbr, if_neg hb.1, if_pos rfl,
    skipLevel_eq h.drop_eq (h.slash_notMem t List.mem_cons_self)]

end At

/-- A filter from one level on. -/
structure Filter (f : GoString) (fs : List GoString) : Prop where
  slash_notMem : ∀ l ∈ f :: fs, slash ∉ l
  plus_eq : ∀ l ∈ f :: fs, 43 ∈ l → l = str "+"
  hash_eq : ∀ l ∈ f :: fs, 35 ∈ l → l = str "#"
  hash_last : str "#" ∉ (f :: fs).dropLast

theorem Filter.next {f f' : GoString} {fs : List GoString} (h : Filter f (f' :: fs)) :
    Filter f' fs where
  slash_notMem l hl := h.slash_notMem l (List.mem_cons_of_mem _ hl)
  plus_eq l hl := h.plus_eq l (List.mem_cons_of_mem _ hl)
  hash_eq l hl := h.hash_eq l (List.mem_cons_of_mem _ hl)
  hash_last hl := h.hash_last (List.mem_cons_of_mem _ hl)

/-- What is left of a filter after a slash is one wildcard exactly when its levels are. -/
theorem Filter.tail_eq_iff {f : GoString} {fs : List GoString} (h : Filter f fs) :
    (f ++ tailLevels fs = str "+" ∨ f ++ tailLevels fs = str "#") ↔
      (f :: fs = [str "+"] ∨ f :: fs = [str "#"]) := by
  cases fs with
  | nil => simp
  | cons f' fs =>
    have hslash : slash ∈ f ++ tailLevels (f' :: fs) := by simp
    constructor
    · rintro (h' | h')
      all_goals
        rw [h'] at hslash
        exact absurd hslash (by decide)
    · rintro (h' | h')
      all_goals exact absurd h' (by simp)

/-- A level of the filter that is no wildcard has none in it. -/
theorem Filter.literal {f : GoString} {fs : List GoString} (h : Filter f fs)
    (hplus : f ≠ str "+") (hhash : f ≠ str "#") : slash ∉ f ∧ 43 ∉ f ∧ 35 ∉ f :=
  ⟨h.slash_notMem f List.mem_cons_self, fun h43 => hplus (h.plus_eq f List.mem_cons_self h43),
    fun h35 => hhash (h.hash_eq f List.mem_cons_self h35)⟩

/-- The last level of the filter. -/
theorem matchFrom_last {topic f t : GoString} {ts : List GoString} {i : ℕ} (hf : Filter f [])
    (ht : At topic i t ts) :
    ∃ b, matchFrom topic f i i = .ok b ∧ (b = true ↔ MatchesOrEnds [f] (t :: ts)) := by
  -- the loop has used up the filter at the end of the level
  have hend : ∀ i', ∃ b, matchFrom topic [] i' (i + t.length) = .ok b ∧ (b = true ↔ ts = []) := by
    intro i'
    cases ts with
    | nil => exact ⟨true, matchFrom_end ht.end_level.1 ht.end_level.2 [], by simp⟩
    | cons t' ts =>
      exact ⟨false, matchFrom_nil (by rw [ht.end_level.1]; simp), by simp⟩
  by_cases hhash : f = str "#"
  · rw [hhash]
    exact ⟨true, ht.matchFrom_hash, iff_of_true rfl matchesOrEnds_hash⟩
  rw [matchesOrEnds_last hhash]
  by_cases hplus : f = str "+"
  · by_cases hr : topic.drop i = []
    · have hts : ts = [] := by
        have := ht.drop_eq.symm.trans hr
        cases ts with
        | nil => rfl
        | cons t' ts => simp at this
      refine ⟨true, ?_, iff_of_true rfl ⟨.inl hplus, hts⟩⟩
      rw [matchFrom_end hr ht.le_length, hplus]
      simp
    · obtain ⟨b, hb, hiff⟩ := hend (i + 1)
      refine ⟨b, ?_, hiff.trans (by simp [hplus])⟩
      rw [hplus, ← List.append_nil (str "+"), ht.matchFrom_plus hr, hb]
  · obtain ⟨hslash, h43, h35⟩ := hf.literal hplus hhash
    have hlit := matchFrom_literal [] ts f i t ht.drop_eq ht.le_length hslash
      (ht.slash_notMem t List.mem_cons_self) h43 h35
    rw [tailLevels_nil, List.append_nil] at hlit
    rw [hlit]
    by_cases hft : f = t
    · obtain ⟨b, hb, hiff⟩ := hend (i + t.length)
      exact ⟨b, by rw [if_pos hft, hb], hiff.trans (by simp [hft])⟩
    · exact ⟨false, if_neg hft, by simp [hplus, hft]⟩

/-- The loop from the start of a level on. -/
theorem matchFrom_levels {topic : GoString} (fs : List GoString) :
    ∀ {f t : GoString} {ts : List GoString} {i : ℕ}, Filter f fs → At topic i t ts →
      Aligned (f :: fs) (t :: ts) →
      (Wildcards.Skipped (fun t : GoString => t = []) (t :: ts) → fs.length < ts.length) →
      ∃ b, matchFrom topic (f ++ tailLevels fs) i i = .ok b ∧
        (b = true ↔ MatchesOrEnds (f :: fs) (t :: ts)) := by
  induction fs with
  | nil =>
    intro f t ts i hf ht _ _
    rw [tailLevels_nil, List.append_nil]
    exact matchFrom_last hf ht
  | cons f' fs ih =>
    intro f t ts i hf ht haligned hskip
    have hhash : f ≠ str "#" := fun h => hf.hash_last (h ▸ List.mem_cons_self)
    -- the loop comes to the slash after this level, or says that the level does not match
    have hlevel : (f = str "+" ∨ f = t) ∧
          (∃ i', (ts ≠ [] → i' = i + t.length) ∧
            matchFrom topic (f ++ tailLevels (f' :: fs)) i i =
              matchFrom topic (tailLevels (f' :: fs)) i' (i + t.length)) ∨
        ¬ (f = str "+" ∨ f = t) ∧
          matchFrom topic (f ++ tailLevels (f' :: fs)) i i = .ok false := by
      by_cases hplus : f = str "+"
      · have hr : topic.drop i ≠ [] := by
          intro hr
          have := ht.drop_eq.symm.trans hr
          cases ts with
          | nil =>
            have ht0 : t = [] := by simpa using this
            have hlen := hskip ⟨t, rfl, by simp [ht0]⟩
            simp at hlen
          | cons t' ts => simp at this
        refine .inl ⟨.inl hplus, i + 1, fun hts => ?_, ?_⟩
        · obtain ⟨t', ts', rfl⟩ := List.exists_cons_of_ne_nil hts
          rw [Aligned] at haligned
          rw [haligned.1 hplus]
        · rw [hplus, ht.matchFrom_plus hr]
      · obtain ⟨hslash, h43, h35⟩ := hf.literal hplus hhash
        rw [matchFrom_literal (f' :: fs) ts f i t ht.drop_eq ht.le_length hslash
          (ht.slash_notMem t List.mem_cons_self) h43 h35]
        by_cases hft : f = t
        · exact .inl ⟨.inr hft, i + t.length, fun _ => rfl, if_pos hft⟩
        · exact .inr ⟨by simp [hplus, hft], if_neg hft⟩
    cases ts with
    | nil =>
      rw [matchesOrEnds_end hhash (List.cons_ne_nil _ _)]
      rcases hlevel with ⟨hft, i', -, h⟩ | ⟨hft, h⟩
      · refine ⟨_, h.trans (ht.matchFrom_last_slash i' f' fs), ?_⟩
        rw [decide_eq_true_iff, hf.next.tail_eq_iff]
        exact (and_iff_right hft).symm
      · exact ⟨false, h, by simp [hft]⟩
    | cons t' ts =>
      rw [matchesOrEnds_cons hhash]
      rcases hlevel with ⟨hft, i', hi', h⟩ | ⟨hft, h⟩
      · rw [hi' (List.cons_ne_nil _ _), ht.matchFrom_slash] at h
        rw [Aligned] at haligned
        have hskip' : Wildcards.Skipped (fun t : GoString => t = []) (t' :: ts) →
            fs.length < ts.length := by
          intro hlast
          have := hskip (by rwa [Wildcards.Skipped, List.getLast?_cons_cons])
          simpa using this
        obtain ⟨b, hb, hiff⟩ := ih hf.next ht.next (haligned.2 hft) hskip'
        exact ⟨b, h.trans hb, hiff.trans (and_iff_right hft).symm⟩
      · exact ⟨false, h, by simp [hft]⟩

/-! ## The matchers compared -/

theorem slash_notMem_of_levels {s l : GoString} {ls : List GoString} (h : levels s = l :: ls) :
    ∀ k ∈ l :: ls, slash ∉ k := by
  intro k hk
  rw [← h] at hk
  exact slash_notMem_of_mem_levels hk

theorem WellFormed.toFilter {filter f : GoString} {fs : List GoString} (h : WellFormed filter)
    (hfs : levels filter = f :: fs) : Filter f fs := by
  unfold WellFormed at h
  rw [hfs] at h
  exact ⟨slash_notMem_of_levels hfs, h.1, h.2.1, h.2.2⟩

theorem at_start {topic t : GoString} {ts : List GoString} (hplus : 43 ∉ topic)
    (hhash : 35 ∉ topic) (hts : levels topic = t :: ts) : At topic 0 t ts where
  drop_eq := eq_of_levels hts
  le_length := Nat.zero_le _
  slash_notMem := slash_notMem_of_levels hts
  plus_notMem := hplus
  hash_notMem := hhash

/-- The topic and the filter as levels from the start on. -/
theorem isTopicMatch_levels {topic filter : GoString} (hplus : 43 ∉ topic) (hhash : 35 ∉ topic)
    (hfilter : WellFormed filter) (haligned : Aligned (levels filter) (levels topic))
    (hlast : (levels topic).getLast? = some [] →
      (levels filter).length < (levels topic).length) :
    ∃ b, isTopicMatch topic filter = .ok b ∧
      (b = true ↔ MatchesOrEnds (levels filter) (levels topic)) := by
  obtain ⟨f, fs, hfs⟩ := List.exists_cons_of_ne_nil (levels_ne_nil filter)
  obtain ⟨t, ts, hts⟩ := List.exists_cons_of_ne_nil (levels_ne_nil topic)
  have hf := hfilter.toFilter hfs
  have ht := at_start hplus hhash hts
  rw [hfs] at haligned hlast
  rw [hts] at haligned hlast
  have hskip : Wildcards.Skipped (fun t : GoString => t = []) (t :: ts) →
      fs.length < ts.length := by
    rintro ⟨l, hl, hnil⟩
    have hl' : (t :: ts).getLast? = some [] := by
      rw [Option.mem_def.mp hl, of_decide_eq_true hnil]
    have := hlast hl'
    simpa using this
  rw [isTopicMatch, hfs, hts]
  have := matchFrom_levels fs hf ht haligned hskip
  rwa [← eq_of_levels hfs] at this

theorem levels_append_slash (f : GoString) {l : GoString} (hl : slash ∉ l) :
    levels (f ++ slash :: l) = levels f ++ [l] := by
  rw [levels, levels, List.splitOn_append_cons_self, List.splitOn_eq_singleton hl]

/-- A filter with a last level is a filter followed by a slash and that level. -/
theorem levels_eq_append_iff {filter l : GoString} (hl : slash ∉ l) {fs : List GoString}
    (hne : fs ≠ []) :
    levels filter = fs ++ [l] ↔ ∃ f, filter = f ++ slash :: l ∧ levels f = fs := by
  constructor
  · intro h
    obtain ⟨g, gs, rfl⟩ := List.exists_cons_of_ne_nil hne
    have hfilter : filter = (g ++ tailLevels gs) ++ slash :: l := by
      rw [eq_of_levels h]
      simp [tailLevels]
    refine ⟨g ++ tailLevels gs, hfilter, ?_⟩
    rw [hfilter, levels_append_slash _ hl] at h
    exact List.append_cancel_right h
  · rintro ⟨f, rfl, rfl⟩
    exact levels_append_slash f hl

variable {κ : Type} [DecidableEq κ]

/-- A lookup in a tree with one subscription. -/
theorem mem_getSessions_add (topic filter : GoString) (qos : UInt8) (session : κ) :
    session ∈ getSessions topic (newNode.add filter qos session) ↔ Reaches filter topic := by
  rw [(indexes_newNode.add filter qos session).mem_iff]
  constructor
  · rintro ⟨f, hf, hsome⟩
    by_cases hff : f = filter
    · rwa [← hff]
    · rw [if_neg (fun h => hff h.1)] at hsome
      exact absurd hsome (by simp)
  · exact fun h => ⟨filter, h, by simp⟩

/-- `IsTopicMatch` says that a filter matches when a lookup in a tree with that subscription
returns it, and also when the filter without a last level `+` or `#` is returned. This leaves
out two kinds of topics: those with an empty last level, unless the filter is shorter, since
the lookup does not ask for that level; and those where a `+` stands against a level that is
not one byte long, since the positions of the comparison come apart. -/
theorem isTopicMatch_iff (topic filter : GoString) (hplus : 43 ∉ topic) (hhash : 35 ∉ topic)
    (hfilter : WellFormed filter) (haligned : Aligned (levels filter) (levels topic))
    (hlast : (levels topic).getLast? = some [] →
      (levels filter).length < (levels topic).length)
    (ops : List (Op κ)) {tree : TreeSubsMgr κ} (hbuild : build ops = .ok tree) (session : κ)
    (qos : UInt8)
    (hlive : ∀ f s, live ops f s = if f = filter ∧ s = session then some qos else none) :
    ∃ b, isTopicMatch topic filter = .ok b ∧
      (b = true ↔ session ∈ getSessions topic tree ∨
        ∃ f, (filter = f ++ str "/+" ∨ filter = f ++ str "/#") ∧
          session ∈ getSessions topic (newNode.add f qos session)) := by
  obtain ⟨b, hb, hiff⟩ := isTopicMatch_levels hplus hhash hfilter haligned hlast
  refine ⟨b, hb, hiff.trans ?_⟩
  have hskip : Wildcards.Skipped (fun t : GoString => t = []) (levels topic) →
      (levels filter).length < (levels topic).length := by
    rintro ⟨l, hl, hnil⟩
    rw [of_decide_eq_true hnil] at hl
    exact hlast hl
  -- filters up to the length of this one are looked up as they match
  have hreach : ∀ f, (levels f).length ≤ (levels filter).length →
      (Reaches f topic ↔ Matches f topic) := by
    intro f hlen
    rw [Reaches, Wildcards.found_iff]
    refine and_iff_left ⟨levels_ne_nil topic, fun heq hlast' => ?_⟩
    have := hskip hlast'
    omega
  have htree : session ∈ getSessions topic tree ↔ Reaches filter topic := by
    rw [(build_indexes ops hbuild).mem_iff]
    simp [hlive]
  have hends : ∀ l : GoString, slash ∉ l →
      ((∃ fs, levels filter = fs ++ [l] ∧ fs ≠ [] ∧
          Wildcards.Matches (str "+") (str "#") fs (levels topic)) ↔
        ∃ f, filter = f ++ slash :: l ∧ Reaches f topic) := by
    intro l hl
    have hlen : ∀ f, filter = f ++ slash :: l → (levels f).length ≤ (levels filter).length := by
      intro f hf
      rw [hf, levels_append_slash f hl, List.length_append]
      omega
    constructor
    · rintro ⟨fs, hfs, hne, hm⟩
      obtain ⟨f, hf, rfl⟩ := (levels_eq_append_iff hl hne).mp hfs
      exact ⟨f, hf, (hreach f (hlen f hf)).mpr hm⟩
    · rintro ⟨f, hf, hr⟩
      refine ⟨levels f, ?_, levels_ne_nil f, (hreach f (hlen f hf)).mp hr⟩
      rw [hf, levels_append_slash f hl]
  have hplus' := hends (str "+") (by decide)
  have hhash' := hends (str "#") (by decide)
  have hslash : ∀ f, f ++ str "/+" = f ++ slash :: str "+" ∧
      f ++ str "/#" = f ++ slash :: str "#" :=
    fun f => ⟨rfl, rfl⟩
  simp only [mem_getSessions_add, htree, hreach filter le_rfl, MatchesOrEnds, (hslash _).1,
    (hslash _).2, or_and_right, exists_or, hplus', hhash', Matches]

theorem isTopicMatch_iff_plus :
    ∃ b, isTopicMatch (str "a/b") (str "a/+") = .ok b ∧
      (b = true ↔ 7 ∈ getSessions (str "a/b") (newNode.add (str "a/+") 1 7) ∨
        ∃ f, (str "a/+" = f ++ str "/+" ∨ str "a/+" = f ++ str "/#") ∧
          7 ∈ getSessions (str "a/b") (newNode.add f 1 7)) := by
  refine isTopicMatch_iff (str "a/b") (str "a/+") (by decide) (by decide) ?_ ?_ (by decide)
    [.add [str "a/+"] [1] 7] rfl 7 1 ?_
  · unfold WellFormed
    decide
  · exact ⟨by decide, fun _ => trivial⟩
  · exact live_add (str "a/+") 1 7

/-- A topic that is shorter than the filter: `IsTopicMatch` accepts the last level `+` that
the lookup does not find. -/
theorem isTopicMatch_not_getSessions :
    WellFormed (str "a/+") ∧ 43 ∉ str "a" ∧ 35 ∉ str "a" ∧
      isTopicMatch (str "a") (str "a/+") = .ok true ∧
      7 ∉ getSessions (str "a") (newNode.add (str "a/+") 1 7) := by
  refine ⟨?_, by decide, by decide, rfl, by decide⟩
  unfold WellFormed
  decide

end TreeSubsMgr
end MqttBroker
