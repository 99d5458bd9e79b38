import MqttBroker.Topic.Lookup

/-!
# The lookup is the index of the live subscriptions

Main results about `GetSessions` after any sequence of calls on a new tree: it returns only
what is live and matches; it returns all of that, except what a topic with a slash at its end
hides; it depends on the live subscriptions only; and where several filters of a session match,
the one that the lookup comes to last decides the QoS.
-/

namespace MqttBroker
namespace TreeSubsMgr

variable {κ : Type} [DecidableEq κ]

instance (filter topic : GoString) : Decidable (Matches filter topic) :=
  inferInstanceAs (Decidable (Wildcards.Matches ..))

instance (filter topic : GoString) : Decidable (Reaches filter topic) :=
  inferInstanceAs (Decidable (Wildcards.Found ..))

theorem Reaches.matches {filter topic : GoString} (h : Reaches filter topic) :
    Matches filter topic :=
  ((Wildcards.found_iff _ _).mp h).1

/-! ## Soundness -/

/-- A session that a lookup returns has a live subscription that matches the topic, with the
QoS that is returned. -/
theorem getSessions_sound (ops : List (Op κ)) {tree : TreeSubsMgr κ} (hbuild : build ops = .ok tree)
    (topic : GoString) (session : κ) (qos : UInt8)
    (h : (getSessions topic tree).lookup session = some qos) :
    ∃ filter, live ops filter session = some qos ∧ Matches filter topic := by
  obtain ⟨filter, hreach, hlive, -⟩ := ((build_indexes ops hbuild).lookup_eq_some_iff ..).mp h
  exact ⟨filter, hlive, hreach.matches⟩

theorem getSessions_sound_overlap :
    ∃ filter, live [.add [str "a/+", str "#"] [1, 0] 7, .removeSession 8] filter 7 = some 1 ∧
      Matches filter (str "a/b") :=
  getSessions_sound _ rfl (str "a/b") 7 1 (by decide)

/-! ## Completeness -/

/-- A lookup returns every session with a live subscription that matches the topic exactly when
the topic does not end with a slash or each such session has one that is shorter than it. -/
theorem getSessions_complete_iff (ops : List (Op κ)) {tree : TreeSubsMgr κ}
    (hbuild : build ops = .ok tree) (topic : GoString) (htopic : topic ≠ []) :
    (∀ filter session, (live ops filter session).isSome → Matches filter topic →
        session ∈ getSessions topic tree) ↔
      (topic.getLast? ≠ some slash ∨
        ∀ filter session, (live ops filter session).isSome → Matches filter topic →
          ∃ f, (live ops f session).isSome ∧ Matches f topic ∧
            (levels f).length < (levels topic).length) := by
  have hmem := (build_indexes ops hbuild).mem_iff topic
  constructor
  · intro h
    by_cases hslash : topic.getLast? = some slash
    · refine .inr fun filter session hlive hm => ?_
      obtain ⟨f, hreach, hf⟩ := (hmem session).mp (h filter session hlive hm)
      have hr := (reaches_iff htopic).mp hreach
      exact ⟨f, hf, hr.1, hr.2 hslash⟩
    · exact .inl hslash
  · intro h filter session hlive hm
    rw [hmem]
    rcases h with h | h
    · exact ⟨filter, (reaches_iff htopic).mpr ⟨hm, fun hslash => absurd hslash h⟩, hlive⟩
    · obtain ⟨f, hf, hmf, hlen⟩ := h filter session hlive hm
      exact ⟨f, (reaches_iff htopic).mpr ⟨hmf, fun _ => hlen⟩, hf⟩

theorem getSessions_complete_iff_hash :
    ∃ tree, build [.add [str "a/#", str "a/"] [1, 0] 7] = .ok tree ∧
      (7 ∈ getSessions (str "a/b") tree) := by
  refine ⟨_, rfl, ?_⟩
  exact (getSessions_complete_iff [.add [str "a/#", str "a/"] [1, 0] 7] rfl (str "a/b")
    (by decide)).mpr (.inl (by decide)) (str "a/#") 7 (by decide) (by decide)

/-- A subscription to the topic itself is not found when the topic ends with a slash. -/
theorem getSessions_misses_slash :
    ∃ tree, build [.add [str "a/"] [0] 7] = .ok tree ∧
      live [.add [str "a/"] [0] 7] (str "a/") 7 = some 0 ∧ Matches (str "a/") (str "a/") ∧
      7 ∉ getSessions (str "a/") tree :=
  ⟨_, rfl, by decide, by decide, by decide⟩

/-! ## Dependence on the live subscriptions only -/

/-- Trees that file the same subscriptions return the same sessions with the same QoS. -/
theorem Indexes.getSessions_congr {tree tree' : TreeSubsMgr κ}
    {m m' : GoString → κ → Option UInt8} (h : Indexes tree m) (h' : Indexes tree' m')
    {session : κ} (hm : ∀ filter, m filter session = m' filter session) (topic : GoString) :
    (getSessions topic tree).lookup session = (getSessions topic tree').lookup session := by
  refine Option.ext fun qos => ?_
  rw [h.lookup_eq_some_iff, h'.lookup_eq_some_iff]
  simp only [hm]

/-- The result of `GetSessions` after a sequence of calls on a new tree. -/
def getSessionsAfter (ops : List (Op κ)) (topic : GoString) : Except Panic (GoMap κ UInt8) :=
  (build ops).map (getSessions topic)

/-- Sequences of which one fails, or none: their lookups are lookups in trees, or fail alike. -/
theorem getSessionsAfter_cases {ops ops' : List (Op κ)}
    (hfits : (∀ op ∈ ops, op.Fits) ↔ ∀ op ∈ ops', op.Fits) (topic : GoString) :
    (∃ tree tree', Indexes tree (live ops) ∧ Indexes tree' (live ops') ∧
      getSessionsAfter ops topic = .ok (getSessions topic tree) ∧
      getSessionsAfter ops' topic = .ok (getSessions topic tree')) ∨
    ∃ e, getSessionsAfter ops topic = .error e ∧ getSessionsAfter ops' topic = .error e := by
  by_cases hok : ∀ op ∈ ops, op.Fits
  · obtain ⟨tree, htree⟩ := (foldlM_apply_eq ops newNode).1 hok
    obtain ⟨tree', htree'⟩ := (foldlM_apply_eq ops' newNode).1 (hfits.mp hok)
    refine .inl ⟨tree, tree', build_indexes ops htree, build_indexes ops' htree', ?_, ?_⟩
    · rw [getSessionsAfter, build, htree]
      rfl
    · rw [getSessionsAfter, build, htree']
      rfl
  · refine .inr ⟨.indexOutOfRange, ?_, ?_⟩
    · rw [getSessionsAfter, build, (foldlM_apply_eq ops newNode).2 hok]
      rfl
    · rw [getSessionsAfter, build, (foldlM_apply_eq ops' newNode).2 fun h => hok (hfits.mpr h)]
      rfl

/-- The live subscriptions after more calls. -/
theorem live_append_eq (ops rest : List (Op κ)) :
    live (ops ++ rest) = rest.foldl (fun m op => op.update m) (live ops) := by
  induction rest using List.reverseRecOn with
  | nil => rw [List.append_nil, List.foldl_nil]
  | append_singleton rest op ih =>
    rw [← List.append_assoc, live_append, ih, List.foldl_append]
    rfl

/-- Calls that lead to the same live subscriptions lead to the same lookups. -/
theorem getSessionsAfter_congr {ops ops' : List (Op κ)}
    (hfits : (∀ op ∈ ops, op.Fits) ↔ ∀ op ∈ ops', op.Fits) (hlive : live ops = live ops')
    (topic : GoString) : getSessionsAfter ops topic = getSessionsAfter ops' topic := by
  rcases getSessionsAfter_cases hfits topic with ⟨tree, tree', h, h', hr, hr'⟩ | ⟨e, hr, hr'⟩
  · rw [hr, hr']
    refine congrArg Except.ok (Finmap.ext_lookup fun session => ?_)
    exact h.getSessions_congr h' (fun filter => by rw [hlive]) topic
  · rw [hr, hr']

/-- The tree is an index of the live subscriptions: two sequences of calls that leave the same
ones live lead to the same lookups. So calls that touch different subscriptions commute, an
`Add` of a subscription that is not live and its `Remove` together have no effect, and
`RemoveSession` has none on the other sessions. -/
theorem getSessions_of_live :
    (∀ (ops ops' : List (Op κ)) (tree tree' : TreeSubsMgr κ),
      build ops = .ok tree → build ops' = .ok tree' → live ops = live ops' →
        ∀ topic, getSessions topic tree = getSessions topic tree') ∧
    (∀ (ops rest : List (Op κ)) (op op' : Op κ),
      (∀ filter session, op.touch filter session = none ∨ op'.touch filter session = none) →
        ∀ topic, getSessionsAfter (ops ++ op :: op' :: rest) topic =
          getSessionsAfter (ops ++ op' :: op :: rest) topic) ∧
    (∀ (ops rest : List (Op κ)) (filter : GoString) (qos : UInt8) (session : κ),
      live ops filter session = none →
        ∀ topic, getSessionsAfter
            (ops ++ .add [filter] [qos] session :: .remove filter session :: rest) topic =
          getSessionsAfter (ops ++ rest) topic) ∧
    ∀ (ops : List (Op κ)) (session s : κ), s ≠ session →
      ∀ topic, (getSessionsAfter (ops ++ [.removeSession session]) topic).map
          (fun rm => rm.lookup s) =
        (getSessionsAfter ops topic).map fun rm => rm.lookup s := by
  refine ⟨?_, ?_, ?_, ?_⟩
  · intro ops ops' tree tree' hbuild hbuild' hlive topic
    refine Finmap.ext_lookup fun session => ?_
    exact (build_indexes ops hbuild).getSessions_congr (build_indexes ops' hbuild')
      (fun filter => by rw [hlive]) topic
  · intro ops rest op op' hdiff topic
    refine getSessionsAfter_congr ?_ ?_ topic
    · simp only [List.forall_mem_append, List.forall_mem_cons]
      tauto
    · rw [live_append_eq, live_append_eq, List.foldl_cons, List.foldl_cons, List.foldl_cons,
        List.foldl_cons]
      congr 1
      funext filter session
      unfold Op.update
      rcases hdiff filter session with h | h
      · rw [h]
        rfl
      · rw [h]
        rfl
  · intro ops rest filter qos session hnone topic
    refine getSessionsAfter_congr ?_ ?_ topic
    · simp only [List.forall_mem_append, List.forall_mem_cons]
      simp [Op.Fits]
    · rw [live_append_eq, live_append_eq, List.foldl_cons, List.foldl_cons]
      congr 1
      funext f s
      by_cases hpair : filter = f ∧ session = s
      · rw [← hpair.1, ← hpair.2, hnone]
        simp [Op.update, Op.touch]
      · simp only [Op.update, Op.touch, if_neg hpair, Option.getD_none]
        by_cases hs : session = s
        · have hf : filter ≠ f := fun hf => hpair ⟨hf, hs⟩
          simp [hs, hf]
        · simp [hs]
  · intro ops session s hs topic
    have hfits : (∀ op ∈ ops ++ [.removeSession session], op.Fits) ↔ ∀ op ∈ ops, op.Fits := by
      rw [List.forall_mem_append]
      exact and_iff_left (by simp [Op.Fits])
    have hlive : ∀ filter, live (ops ++ [.removeSession session]) filter s = live ops filter s := by
      intro filter
      rw [live_append, Op.update, Op.touch, if_neg (Ne.symm hs), Option.getD_none]
    rcases getSessionsAfter_cases hfits topic with ⟨tree, tree', h, h', hr, hr'⟩ | ⟨e, hr, hr'⟩
    · rw [hr, hr']
      exact congrArg Except.ok (h.getSessions_congr h' hlive topic)
    · rw [hr, hr']

/-- `Remove` leaves an empty node for "b", and no lookup sees it. -/
theorem getSessions_of_live_leftover :
    ∃ tree tree' : TreeSubsMgr ℕ,
      build [.add [str "a"] [0] 7, .add [str "b"] [1] 7, .remove (str "b") 7] = .ok tree ∧
      build [.add [str "a"] [0] 7] = .ok tree' ∧
        ∀ topic, getSessions topic tree = getSessions topic tree' := by
  refine ⟨_, _, rfl, rfl, ?_⟩
  refine getSessions_of_live.1 [.add [str "a"] [0] 7, .add [str "b"] [1] 7, .remove (str "b") 7]
    [.add [str "a"] [0] 7] _ _ rfl rfl ?_
  funext filter session
  by_cases h : str "b" = filter ∧ 7 = session
  · obtain ⟨rfl, rfl⟩ := h
    decide
  · by_cases hs : 7 = session
    · have hf : str "b" ≠ filter := fun hf => h ⟨hf, hs⟩
      simp [live, Op.touch, hf, hs]
    · simp [live, Op.touch, hs]

/-- An `Add` that changes the QoS of a live subscription and its `Remove` end it. -/
theorem getSessions_add_remove_visible :
    (getSessionsAfter [.add [str "a"] [0] 7] (str "a")).map (fun rm => rm.lookup 7) =
        .ok (some 0) ∧
      (getSessionsAfter [.add [str "a"] [0] 7, .add [str "a"] [1] 7, .remove (str "a") 7]
        (str "a")).map (fun rm => rm.lookup 7) = .ok none :=
  ⟨rfl, rfl⟩

/-! ## Overlapping filters -/

/-- Of the live filters of a session that the lookup comes to, the last one decides the QoS:
at the first level where two of them differ, a last `#` comes first, then `+`, then the level
itself. -/
theorem getSessions_lookup_eq_some_iff (ops : List (Op κ)) {tree : TreeSubsMgr κ}
    (hbuild : build ops = .ok tree) (topic : GoString) (session : κ) (qos : UInt8) :
    (getSessions topic tree).lookup session = some qos ↔
      ∃ filter, Reaches filter topic ∧ live ops filter session = some qos ∧
        ∀ f, Reaches f topic → (live ops f session).isSome →
          f = filter ∨ Wildcards.Before (str "+") (levels topic) (levels f) (levels filter) :=
  (build_indexes ops hbuild).lookup_eq_some_iff topic session qos

theorem getSessions_lookup_eq_some_iff_literal :
    ∃ tree, build [.add [str "#", str "a"] [2, 0] 7] = .ok tree ∧
      ∃ filter, Reaches filter (str "a") ∧
        live [.add [str "#", str "a"] [2, 0] 7] filter 7 = some 0 ∧
        ∀ f, Reaches f (str "a") → (live [.add [str "#", str "a"] [2, 0] 7] f 7).isSome →
          f = filter ∨
            Wildcards.Before (str "+") (levels (str "a")) (levels f) (levels filter) := by
  refine ⟨_, rfl, ?_⟩
  exact (getSessions_lookup_eq_some_iff [.add [str "#", str "a"] [2, 0] 7] rfl (str "a") 7 0).mp
    (by decide)

/-- The QoS that is returned is not the highest that was granted. -/
theorem getSessions_not_maximum :
    ∃ tree, build [.add [str "#", str "a"] [2, 0] 7] = .ok tree ∧
      live [.add [str "#", str "a"] [2, 0] 7] (str "#") 7 = some 2 ∧
      Reaches (str "#") (str "a") ∧ (getSessions (str "a") tree).lookup 7 = some 0 :=
  ⟨_, rfl, by decide, by decide, by decide⟩

end TreeSubsMgr
end MqttBroker
