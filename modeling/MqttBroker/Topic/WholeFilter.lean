import MqttBroker.Topic.LookupTheorems

/-!
# Removing a whole filter

Without a session, `Remove` is to take a filter out of the tree, together with the filters that
extend it. The leaf of the recursion deletes the last level from the children of the node that
it has come to, not from those of the node before: what goes is the filter that has its last
level twice, with its extensions, and the filter itself stays.

The trees here are those of any sequence of calls, with or without a session.
-/

namespace MqttBroker
namespace TreeSubsMgr

variable {κ : Type} [DecidableEq κ]

/-! ## Calls without a session -/

/-- A call that changes the tree, `Remove(filter, nil)` included. -/
inductive Call (κ : Type)
  | op (o : Op κ)
  | removeAll (filter : GoString)

def Call.apply (tree : TreeSubsMgr κ) : Call κ → Except Panic (TreeSubsMgr κ)
  | .op o => o.apply tree
  | .removeAll filter => .ok (tree.del filter none)

/-- The tree after a sequence of calls on a new one. -/
def buildCalls (calls : List (Call κ)) : Except Panic (TreeSubsMgr κ) :=
  calls.foldlM Call.apply newNode

/-- The live subscriptions of a tree: the QoS that is filed for a filter and a session. -/
def filed (tree : TreeSubsMgr κ) (filter : GoString) (session : κ) : Option UInt8 :=
  tree.grants session (levels filter)

/-- The levels with the last one twice. -/
def lastTwice (fields : List GoString) : List GoString := fields ++ fields.getLast?.toList

theorem lastTwice_cons {field : GoString} {fields : List GoString} (h : fields ≠ []) :
    lastTwice (field :: fields) = field :: lastTwice fields := by
  obtain ⟨field', fields, rfl⟩ := List.exists_cons_of_ne_nil h
  rw [lastTwice, lastTwice, List.getLast?_cons_cons, List.cons_append]

/-- `remove` without a session takes what is filed below the leaf, under the leaf's own name,
and leaves all else. -/
theorem grants_removeAll (s : κ) (fields : List GoString) :
    ∀ (tree : TreeSubsMgr κ) (path : List GoString), fields ≠ [] →
      (tree.remove none fields).grants s path =
        if lastTwice fields <+: path then none else tree.grants s path := by
  induction fields with
  | nil => exact fun _ _ h => absurd rfl h
  | cons field fields ih =>
    intro tree path _
    obtain ⟨sessions, subs⟩ := tree
    rw [remove]
    cases path with
    | nil =>
      rw [if_neg (by simp [lastTwice])]
      cases subs field with
      | none => rfl
      | some sub => rfl
    | cons field' path =>
      cases hsub : subs field with
      | none =>
        -- there is no such node, so nothing is granted below it
        by_cases hprefix : lastTwice (field :: fields) <+: field' :: path
        · have hfield : field = field' := (List.cons_prefix_cons.mp hprefix).1
          rw [if_pos hprefix, grants, ← hfield, hsub]
        · rw [if_neg hprefix]
      | some sub =>
        rw [grants, grants]
        by_cases hfield : field' = field
        · rw [hfield, Function.update_self, hsub]
          cases fields with
          | nil =>
            obtain ⟨sessions', subs'⟩ := sub
            simp only [List.isEmpty_nil, if_true, sessionsMap, subsMap]
            cases path with
            | nil =>
              rw [if_neg (by simp [lastTwice])]
              rfl
            | cons field₂ path =>
              rw [grants, grants]
              by_cases hfield₂ : field₂ = field
              · rw [hfield₂, Function.update_self, if_pos (by simp [lastTwice])]
              · rw [Function.update_of_ne hfield₂,
                  if_neg (by simp [lastTwice, Ne.symm hfield₂])]
          | cons field₂ fields =>
            simp only [List.isEmpty_cons, Bool.false_eq_true, if_false]
            rw [ih sub path (List.cons_ne_nil _ _), lastTwice_cons (List.cons_ne_nil _ _)]
            simp only [List.cons_prefix_cons, true_and]
        · rw [Function.update_of_ne hfield, if_neg]
          exact fun h => hfield (List.cons_prefix_cons.mp h).1.symm

theorem filed_add (tree : TreeSubsMgr κ) (filter filter' : GoString) (qos : UInt8)
    (session s : κ) : (tree.add filter qos session).filed filter' s =
      if filter' = filter ∧ s = session then some qos else tree.filed filter' s := by
  rw [filed, add, grants_insert _ _ _ _ _ _ (levels_ne_nil filter)]
  simp only [levels_injective.eq_iff]
  rfl

/-- `Add` of the filters of a map, each with its QoS: the session's subscriptions are updated
with the map. -/
theorem filed_addAll {session : κ} (l : List (Σ _ : GoString, UInt8)) (hl : l.NodupKeys) :
    ∀ {tree tree' : TreeSubsMgr κ},
      addAll session (l.map Sigma.fst) (l.map Sigma.snd) tree = .ok tree' →
      ∀ filter s, tree'.filed filter s =
        if s = session then (l.dlookup filter).or (tree.filed filter s)
        else tree.filed filter s := by
  induction l with
  | nil =>
    intro tree tree' h filter s
    rw [← Except.ok.inj h]
    split
    · rfl
    · rfl
  | cons e l ih =>
    intro tree tree' h filter s
    obtain ⟨sub, qos⟩ := e
    obtain ⟨hnew, hl⟩ := List.nodupKeys_cons.mp hl
    have hrest : addAll session (l.map Sigma.fst) (l.map Sigma.snd) (tree.add sub qos session) =
        .ok tree' := h
    rw [ih hl hrest, filed_add]
    by_cases hs : s = session
    · rw [if_pos hs, if_pos hs]
      by_cases hfilter : filter = sub
      · rw [if_pos ⟨hfilter, hs⟩, hfilter, List.dlookup_cons_eq, List.dlookup_eq_none.mpr hnew]
        rfl
      · rw [if_neg fun h => hfilter h.1, List.dlookup_cons_ne l ⟨sub, qos⟩ hfilter]
    · rw [if_neg hs, if_neg hs, if_neg fun h => hs h.2]

/-- What a call files is filed under the levels of filters. -/
theorem Indexes.filed {tree : TreeSubsMgr κ} {m : GoString → κ → Option UInt8}
    (h : Indexes tree m) : Indexes tree tree.filed where
  grants_levels _ _ := rfl
  eq_levels := h.eq_levels

theorem Indexes.removeAll {tree : TreeSubsMgr κ} (h : Indexes tree tree.filed)
    (filter : GoString) :
    Indexes (tree.del filter none) (tree.del filter none).filed where
  grants_levels _ _ := rfl
  eq_levels s path hsome := by
    rw [del, grants_removeAll _ _ _ _ (levels_ne_nil filter)] at hsome
    by_cases hprefix : lastTwice (levels filter) <+: path
    · rw [if_pos hprefix] at hsome
      exact absurd hsome (by simp)
    · rw [if_neg hprefix] at hsome
      exact h.eq_levels s path hsome

/-- Every tree that calls build files its live subscriptions and nothing else. -/
theorem buildCalls_indexes (calls : List (Call κ)) :
    ∀ {tree : TreeSubsMgr κ}, buildCalls calls = .ok tree → Indexes tree tree.filed := by
  induction calls using List.reverseRecOn with
  | nil =>
    intro tree h
    rw [← Except.ok.inj h]
    exact indexes_newNode.filed
  | append_singleton calls call ih =>
    intro tree' h
    rw [buildCalls, List.foldlM_append] at h
    cases htree : buildCalls calls with
    | error e =>
      rw [buildCalls] at htree
      rw [htree] at h
      exact absurd h (by simp [bind, Except.bind])
    | ok tree =>
      have hindexes := ih htree
      rw [buildCalls] at htree
      rw [htree] at h
      have hstep : call.apply tree = .ok tree' := (bind_pure _).symm.trans h
      cases call with
      | op o => exact (hindexes.apply hstep).filed
      | removeAll filter =>
        rw [← Except.ok.inj hstep]
        exact hindexes.removeAll filter

/-! ## The removal that is meant -/

/-- The second filter is the first one, with or without further levels. -/
def Extends (filter extension : GoString) : Prop := levels filter <+: levels extension

instance (filter extension : GoString) : Decidable (Extends filter extension) :=
  inferInstanceAs (Decidable (_ <+: _))

/-- What `Remove` without a session is for: the node of the filter goes, with all below it. -/
def cut : List GoString → TreeSubsMgr κ → TreeSubsMgr κ
  | [], tree => tree
  | field :: fields, node sessions subs =>
    if fields.isEmpty then node sessions (Function.update subs field none)
    else node sessions (Function.update subs field ((subs field).map (cut fields)))

theorem grants_cut (s : κ) (fields : List GoString) :
    ∀ (tree : TreeSubsMgr κ) (path : List GoString), fields ≠ [] →
      (tree.cut fields).grants s path = if fields <+: path then none else tree.grants s path := by
  induction fields with
  | nil => exact fun _ _ h => absurd rfl h
  | cons field fields ih =>
    intro tree path _
    obtain ⟨sessions, subs⟩ := tree
    have hroot : cut (field :: fields) (node sessions subs) = node sessions
        (Function.update subs field
          (if fields.isEmpty then none else (subs field).map (cut fields))) := by
      rw [cut]
      split
      · rfl
      · rfl
    rw [hroot]
    cases path with
    | nil =>
      have hprefix : ¬ field :: fields <+: [] := by simp
      rw [if_neg hprefix]
      rfl
    | cons field' path =>
      by_cases hfield : field' = field
      · rw [grants, grants, hfield, Function.update_self]
        cases fields with
        | nil => rw [if_pos List.isEmpty_nil, if_pos (by simp)]
        | cons field₂ fields =>
          have hprefix : (field :: field₂ :: fields <+: field :: path) ↔
              field₂ :: fields <+: path := List.prefix_cons_inj field
          simp only [List.isEmpty_cons, Bool.false_eq_true, if_false, hprefix]
          cases subs field with
          | none => rw [Option.map_none, ite_self]
          | some sub => exact ih sub path (List.cons_ne_nil _ _)
      · rw [if_neg fun h => hfield (List.cons_prefix_cons.mp h).1.symm, grants, grants,
          Function.update_of_ne hfield]

/-- The live subscriptions whose filters do not begin with the given levels. -/
def without (tree : TreeSubsMgr κ) (fields : List GoString) (filter : GoString) (session : κ) :
    Option UInt8 :=
  if fields <+: levels filter then none else tree.filed filter session

theorem without_eq_some {tree : TreeSubsMgr κ} {fields : List GoString} {filter : GoString}
    {session : κ} {qos : UInt8} :
    tree.without fields filter session = some qos ↔
      ¬ fields <+: levels filter ∧ tree.filed filter session = some qos := by
  unfold without
  split
  · next h => simp [h]
  · next h => simp [h]

/-- A tree that grants what another does, but nothing below some levels. -/
theorem Indexes.without {tree tree' : TreeSubsMgr κ} {fields : List GoString}
    (h : Indexes tree tree.filed)
    (hgrants : ∀ s path, tree'.grants s path =
      if fields <+: path then none else tree.grants s path) :
    Indexes tree' (tree.without fields) where
  grants_levels filter session := hgrants session (levels filter)
  eq_levels s path hsome := by
    rw [hgrants] at hsome
    by_cases hprefix : fields <+: path
    · rw [if_pos hprefix] at hsome
      exact absurd hsome (by simp)
    · rw [if_neg hprefix] at hsome
      exact h.eq_levels s path hsome

theorem Indexes.del_none {tree : TreeSubsMgr κ} (h : Indexes tree tree.filed)
    (filter : GoString) :
    Indexes (tree.del filter none) (tree.without (lastTwice (levels filter))) :=
  h.without fun s path => grants_removeAll s _ tree path (levels_ne_nil filter)

theorem Indexes.cut {tree : TreeSubsMgr κ} (h : Indexes tree tree.filed) (filter : GoString) :
    Indexes (tree.cut (levels filter)) (tree.without (levels filter)) :=
  h.without fun s path => grants_cut s _ tree path (levels_ne_nil filter)

/-! ## What is left in the tree -/

/-- What goes is below the filter, so all else stays. -/
theorem prefix_lastTwice (fields : List GoString) : fields <+: lastTwice fields :=
  List.prefix_append _ _

theorem filed_del_none (tree : TreeSubsMgr κ) (filter f : GoString) (session : κ) :
    (tree.del filter none).filed f session = tree.without (lastTwice (levels filter)) f session :=
  grants_removeAll session _ tree _ (levels_ne_nil filter)

/-- A subscription to another filter than those that extend the one removed is unchanged. -/
theorem filed_del_none_of_not_extends (tree : TreeSubsMgr κ) {filter f : GoString}
    (h : ¬ Extends filter f) (session : κ) :
    (tree.del filter none).filed f session = tree.filed f session := by
  rw [filed_del_none, TreeSubsMgr.without, if_neg]
  exact fun htwice => h ((prefix_lastTwice _).trans htwice)

/-- Everything that was to go is gone exactly when all of it was filed below the leaf, under the
leaf's own name. -/
theorem filed_del_none_iff (tree : TreeSubsMgr κ) (filter : GoString) :
    (∀ f session, (tree.del filter none).filed f session =
        if Extends filter f then none else tree.filed f session) ↔
      ∀ f session, Extends filter f → (tree.filed f session).isSome →
        lastTwice (levels filter) <+: levels f := by
  constructor
  · intro h f session hext hsome
    by_contra htwice
    have hf := h f session
    rw [filed_del_none, TreeSubsMgr.without, if_neg htwice, if_pos hext] at hf
    rw [hf] at hsome
    exact absurd hsome (by simp)
  · intro h f session
    by_cases hext : Extends filter f
    · rw [if_pos hext, filed_del_none, TreeSubsMgr.without]
      by_cases htwice : lastTwice (levels filter) <+: levels f
      · rw [if_pos htwice]
      · rw [if_neg htwice]
        exact Option.not_isSome_iff_eq_none.mp fun hsome => htwice (h f session hext hsome)
    · rw [if_neg hext, filed_del_none_of_not_extends tree hext]

/-! ## What a lookup shows -/

/-- The filter that decides what a lookup has for a session: the last live one of the session
that the lookup comes to. -/
structure Decides (m : GoString → κ → Option UInt8) (topic : GoString) (session : κ)
    (filter : GoString) : Prop where
  reaches : Reaches filter topic
  isSome : (m filter session).isSome
  last : ∀ f, Reaches f topic → (m f session).isSome →
    f = filter ∨ Wildcards.Before (str "+") (levels topic) (levels f) (levels filter)

theorem Indexes.lookup_eq_some_iff_decides {tree : TreeSubsMgr κ}
    {m : GoString → κ → Option UInt8} (h : Indexes tree m) (topic : GoString) (session : κ)
    (qos : UInt8) :
    (getSessions topic tree).lookup session = some qos ↔
      ∃ filter, Decides m topic session filter ∧ m filter session = some qos := by
  rw [h.lookup_eq_some_iff]
  constructor
  · rintro ⟨filter, hreach, hqos, hlast⟩
    exact ⟨filter, ⟨hreach, by rw [hqos]; rfl, hlast⟩, hqos⟩
  · rintro ⟨filter, hdec, hqos⟩
    exact ⟨filter, hdec.reaches, hqos, hdec.last⟩

/-- What was to go but did not is not seen: wherever such a filter decides, the filter that
would decide without it grants the session the same QoS. -/
def Hidden (tree : TreeSubsMgr κ) (filter : GoString) : Prop :=
  ∀ topic session f, Extends filter f →
    Decides (tree.without (lastTwice (levels filter))) topic session f →
      ∃ g, Decides (tree.without (levels filter)) topic session g ∧
        tree.filed g session = tree.filed f session

/-- A filter that decides among all that stay decides among those that should, if it is one. -/
theorem Decides.of_not_extends {tree : TreeSubsMgr κ} {filter topic f : GoString} {session : κ}
    (h : Decides (tree.without (lastTwice (levels filter))) topic session f)
    (hext : ¬ Extends filter f) :
    Decides (tree.without (levels filter)) topic session f where
  reaches := h.reaches
  isSome := by
    obtain ⟨qos, hqos⟩ := Option.isSome_iff_exists.mp h.isSome
    rw [without_eq_some.mpr ⟨hext, (without_eq_some.mp hqos).2⟩]
    rfl
  last g hreach hsome := by
    obtain ⟨qos, hqos⟩ := Option.isSome_iff_exists.mp hsome
    have hg := without_eq_some.mp hqos
    refine h.last g hreach ?_
    rw [without_eq_some.mpr ⟨fun htwice => hg.1 ((prefix_lastTwice _).trans htwice), hg.2⟩]
    rfl

/-- The lookups show the tree without the filter and its extensions exactly when those that stay
are hidden. -/
theorem getSessions_del_none_iff {tree : TreeSubsMgr κ} (h : Indexes tree tree.filed)
    (filter : GoString) :
    (∀ topic, getSessions topic (tree.del filter none) =
        getSessions topic (tree.cut (levels filter))) ↔ Hidden tree filter := by
  have hdel := h.del_none filter
  have hcut := h.cut filter
  constructor
  · intro heq topic session f _ hdec
    obtain ⟨qos, hqos⟩ := Option.isSome_iff_exists.mp hdec.isSome
    have hlookup := (hdel.lookup_eq_some_iff_decides topic session qos).mpr ⟨f, hdec, hqos⟩
    rw [heq] at hlookup
    obtain ⟨g, hg, hgqos⟩ := (hcut.lookup_eq_some_iff_decides topic session qos).mp hlookup
    refine ⟨g, hg, ?_⟩
    rw [(without_eq_some.mp hgqos).2, (without_eq_some.mp hqos).2]
  · intro hhidden topic
    refine Finmap.ext_lookup fun session => ?_
    -- what the lookup has is what it should have
    have himp : ∀ qos, (getSessions topic (tree.del filter none)).lookup session = some qos →
        (getSessions topic (tree.cut (levels filter))).lookup session = some qos := by
      intro qos hlookup
      rw [hcut.lookup_eq_some_iff_decides]
      obtain ⟨f, hdec, hqos⟩ :=
        (hdel.lookup_eq_some_iff_decides topic session qos).mp hlookup
      have hfiled := (without_eq_some.mp hqos).2
      by_cases hext : Extends filter f
      · obtain ⟨g, hg, hsame⟩ := hhidden topic session f hext hdec
        obtain ⟨qos', hqos'⟩ := Option.isSome_iff_exists.mp hg.isSome
        have hg' := (without_eq_some.mp hqos').2
        refine ⟨g, hg, ?_⟩
        rw [hqos', ← hg', hsame, hfiled]
      · exact ⟨f, hdec.of_not_extends hext, without_eq_some.mpr ⟨hext, hfiled⟩⟩
    cases hlookup : (getSessions topic (tree.del filter none)).lookup session with
    | some qos => exact (himp qos hlookup).symm
    | none =>
      -- a filter that should stay does stay
      rw [eq_comm, Finmap.lookup_eq_none]
      intro hmem
      obtain ⟨f, hreach, hsome⟩ := (hcut.mem_iff topic session).mp hmem
      obtain ⟨qos, hqos⟩ := Option.isSome_iff_exists.mp hsome
      have hf := without_eq_some.mp hqos
      have hmem' := (hdel.mem_iff topic session).mpr ⟨f, hreach, by
        rw [without_eq_some.mpr ⟨fun htwice => hf.1 ((prefix_lastTwice _).trans htwice), hf.2⟩]
        rfl⟩
      exact Finmap.lookup_eq_none.mp hlookup hmem'

/-- `Remove(filter, nil)` takes out of the tree what it is to take exactly when every live
subscription to the filter or to an extension of it is to a filter that goes on with the last
level once more; and what `GetSessions` returns afterwards is what it is to return exactly when
the subscriptions that stay are hidden. -/
theorem removeAll_iff (calls : List (Call κ)) {tree : TreeSubsMgr κ}
    (hbuild : buildCalls calls = .ok tree) (filter : GoString) :
    ((∀ f session, (tree.del filter none).filed f session =
        if Extends filter f then none else tree.filed f session) ↔
      ∀ f session, Extends filter f → (tree.filed f session).isSome →
        lastTwice (levels filter) <+: levels f) ∧
    ((∀ topic, getSessions topic (tree.del filter none) =
        getSessions topic (tree.cut (levels filter))) ↔ Hidden tree filter) :=
  ⟨filed_del_none_iff tree filter,
    getSessions_del_none_iff (buildCalls_indexes calls hbuild) filter⟩

/-- Of "a", "a/a" and "b", the removal of "a" leaves "a". -/
theorem removeAll_iff_repeated :
    ∃ tree : TreeSubsMgr ℕ,
      buildCalls [.op (.add [str "a", str "a/a", str "b"] [1, 2, 0] 7)] = .ok tree ∧
      ¬ ∀ f session, (tree.del (str "a") none).filed f session =
        if Extends (str "a") f then none else tree.filed f session := by
  refine ⟨_, rfl, fun h => ?_⟩
  have hgone := (removeAll_iff [.op (.add [str "a", str "a/a", str "b"] [1, 2, 0] 7)] rfl
    (str "a")).1.mp h (str "a") 7 (by decide) (by decide)
  exact absurd hgone (by decide)

/-- After `Remove("a", nil)` the session that has "a" is still returned for the topic "a". -/
theorem removeAll_leaves_filter :
    ∃ tree : TreeSubsMgr ℕ,
      buildCalls [.op (.add [str "a"] [1] 7), .removeAll (str "a")] = .ok tree ∧
      tree.filed (str "a") 7 = some 1 ∧ (getSessions (str "a") tree).lookup 7 = some 1 :=
  ⟨_, rfl, by decide, by decide⟩

end TreeSubsMgr
end MqttBroker
