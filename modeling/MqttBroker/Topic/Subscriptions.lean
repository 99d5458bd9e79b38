import MqttBroker.Topic.Tree

/-!
# The subscriptions that are live

A subscription is a filter and a session, and it is live with the QoS of the last `Add` that
named it, unless a `Remove` or `RemoveSession` came later. The tree built by the same calls
files it at the node that the levels of the filter lead to, and nothing else is filed.
-/

namespace MqttBroker
namespace TreeSubsMgr

variable {κ : Type} [DecidableEq κ]

/-! ## The tree as a map -/

/-- The QoS that the node at the end of a path has for a session. -/
def grants (session : κ) : TreeSubsMgr κ → List GoString → Option UInt8
  | tree, [] => tree.sessionsMap.lookup session
  | node _ subs, field :: fields =>
    match subs field with
    | none => none
    | some sub => sub.grants session fields

theorem grants_newNode (session : κ) (path : List GoString) :
    (newNode : TreeSubsMgr κ).grants session path = none := by
  cases path with
  | nil => exact Finmap.lookup_empty session
  | cons field fields => rfl

/-- A node that is there is a node that `insert` would make. -/
theorem grants_getD_newNode (session : κ) (sub : Option (TreeSubsMgr κ)) (path : List GoString) :
    (sub.getD newNode).grants session path =
      (match sub with | none => none | some sub => sub.grants session path) := by
  cases sub with
  | none => exact grants_newNode session path
  | some sub => rfl

/-- `insert` files the session at the end of its path and leaves all else. -/
theorem grants_insert (qos : UInt8) (session s : κ) (fields : List GoString) :
    ∀ (tree : TreeSubsMgr κ) (path : List GoString), fields ≠ [] →
      (tree.insert qos session fields).grants s path =
        if path = fields ∧ s = session then some qos else tree.grants s path := by
  induction fields with
  | nil => exact fun _ _ h => absurd rfl h
  | cons field fields ih =>
    intro tree path _
    obtain ⟨sessions, subs⟩ := tree
    rw [insert]
    cases path with
    | nil => simp [grants, sessionsMap]
    | cons field' path =>
      rw [grants, grants]
      by_cases hfield : field' = field
      · rw [hfield, Function.update_self]
        rw [← grants_getD_newNode]
        cases fields with
        | nil =>
          simp only [List.isEmpty_nil, if_true]
          obtain ⟨sessions', subs'⟩ := (subs field).getD newNode
          cases path with
          | nil =>
            simp only [grants, sessionsMap, true_and]
            exact GoMap.lookup_insert_eq ..
          | cons => simp [grants, subsMap]
        | cons field₂ fields =>
          simp only [List.isEmpty_cons, Bool.false_eq_true, if_false]
          rw [ih _ path (List.cons_ne_nil _ _)]
          simp
      · rw [Function.update_of_ne hfield]
        rw [if_neg (fun h => hfield (List.cons.inj h.1).1)]

/-- `remove` with a session takes it from the end of the path and leaves all else. -/
theorem grants_remove (session s : κ) (fields : List GoString) :
    ∀ (tree : TreeSubsMgr κ) (path : List GoString), fields ≠ [] →
      (tree.remove (some session) fields).grants s path =
        if path = fields ∧ s = session then none else tree.grants s path := by
  induction fields with
  | nil => exact fun _ _ h => absurd rfl h
  | cons field fields ih =>
    intro tree path _
    obtain ⟨sessions, subs⟩ := tree
    rw [remove]
    cases hsub : subs field with
    | none =>
      -- there is no such node, so nothing is granted at it
      by_cases hpath : path = field :: fields
      · rw [hpath, grants, hsub]
        simp
      · rw [if_neg fun h => hpath h.1]
    | some sub =>
      cases path with
      | nil => simp [grants, sessionsMap]
      | cons field' path =>
        rw [grants, grants]
        by_cases hfield : field' = field
        · rw [hfield, Function.update_self, hsub]
          cases fields with
          | nil =>
            simp only [List.isEmpty_nil, if_true]
            obtain ⟨sessions', subs'⟩ := sub
            cases path with
            | nil =>
              simp only [grants, sessionsMap, true_and]
              exact GoMap.lookup_erase_eq ..
            | cons => simp [grants, subsMap]
          | cons field₂ fields =>
            simp only [List.isEmpty_cons, Bool.false_eq_true, if_false]
            rw [ih sub path (List.cons_ne_nil _ _)]
            simp
        · rw [Function.update_of_ne hfield]
          rw [if_neg (fun h => hfield (List.cons.inj h.1).1)]

/-- `RemoveSession` takes the session from every node and leaves the others. -/
theorem grants_removeSession (session s : κ) (path : List GoString) :
    ∀ tree : TreeSubsMgr κ, (tree.removeSession session).grants s path =
      if s = session then none else tree.grants s path := by
  induction path with
  | nil =>
    intro tree
    obtain ⟨sessions, subs⟩ := tree
    rw [removeSession, grants, grants, sessionsMap, sessionsMap]
    exact GoMap.lookup_erase_eq ..
  | cons field path ih =>
    intro tree
    obtain ⟨sessions, subs⟩ := tree
    rw [removeSession, grants, grants]
    cases subs field with
    | none => simp [removeSessionOf]
    | some sub =>
      rw [removeSessionOf]
      exact ih sub

/-! ## The calls -/

/-- A call that changes the tree. -/
inductive Op (κ : Type)
  | add (subs : List GoString) (qoss : List UInt8) (session : κ)
  | remove (filter : GoString) (session : κ)
  | removeSession (session : κ)

def Op.apply (tree : TreeSubsMgr κ) : Op κ → Except Panic (TreeSubsMgr κ)
  | .add subs qoss session => addAll session subs qoss tree
  | .remove filter session => .ok (tree.del filter (some session))
  | .removeSession session => .ok (tree.removeSession session)

/-- The tree after a sequence of calls on a new one. -/
def build (ops : List (Op κ)) : Except Panic (TreeSubsMgr κ) := ops.foldlM Op.apply newNode

/-- Every filter of an `Add` has a QoS. -/
def Op.Fits : Op κ → Prop
  | .add subs qoss _ => subs.length ≤ qoss.length
  | _ => True

/-- What a call says about a subscription: nothing, that it is granted, or that it is gone. -/
def Op.touch (filter : GoString) (session : κ) : Op κ → Option (Option UInt8)
  | .add subs qoss s =>
    if s = session then
      ((subs.zip qoss).reverse.find? fun p => p.1 = filter).map fun p => some p.2
    else none
  | .remove f s => if f = filter ∧ s = session then some none else none
  | .removeSession s => if s = session then some none else none

/-- The QoS with which a subscription is live: what the last call that touched it said. -/
def live (ops : List (Op κ)) (filter : GoString) (session : κ) : Option UInt8 :=
  (ops.reverse.findSome? (Op.touch filter session)).join

/-! ## The tree files what is live -/

theorem levels_ne_nil (filter : GoString) : levels filter ≠ [] := List.splitOn_ne_nil _ _

theorem levels_injective : Function.Injective levels := by
  intro f f' h
  have := congrArg (fun ls => [slash].intercalate ls) h
  simpa only [levels, List.intercalate_splitOn] using this

/-- What is filed under the levels of a filter is what a map has for it, and nothing else is
filed. -/
structure Indexes (tree : TreeSubsMgr κ) (m : GoString → κ → Option UInt8) : Prop where
  grants_levels : ∀ filter session, tree.grants session (levels filter) = m filter session
  eq_levels : ∀ session path, (tree.grants session path).isSome → ∃ filter, path = levels filter

theorem indexes_newNode : Indexes (newNode : TreeSubsMgr κ) fun _ _ => none where
  grants_levels _ _ := grants_newNode _ _
  eq_levels _ _ h := by
    rw [grants_newNode] at h
    exact absurd h (by simp)

/-- `add` changes what is filed for its own filter and session only. -/
theorem Indexes.add {tree : TreeSubsMgr κ} {m : GoString → κ → Option UInt8} (h : Indexes tree m)
    (sub : GoString) (qos : UInt8) (session : κ) :
    Indexes (tree.add sub qos session) fun filter s =>
      if filter = sub ∧ s = session then some qos else m filter s where
  grants_levels filter s := by
    rw [TreeSubsMgr.add, grants_insert _ _ _ _ _ _ (levels_ne_nil sub), h.grants_levels]
    simp only [levels_injective.eq_iff]
  eq_levels s path hsome := by
    rw [TreeSubsMgr.add, grants_insert _ _ _ _ _ _ (levels_ne_nil sub)] at hsome
    by_cases hpath : path = levels sub ∧ s = session
    · exact ⟨sub, hpath.1⟩
    · rw [if_neg hpath] at hsome
      exact h.eq_levels s path hsome

/-- The subscription after a call that says something about it or not. -/
def Op.update (op : Op κ) (m : GoString → κ → Option UInt8) (filter : GoString) (session : κ) :
    Option UInt8 :=
  (op.touch filter session).getD (m filter session)

theorem Indexes.addAll {session : κ} (subs : List GoString) :
    ∀ {qoss : List UInt8} {tree tree' : TreeSubsMgr κ} {m : GoString → κ → Option UInt8},
      Indexes tree m → addAll session subs qoss tree = .ok tree' →
        Indexes tree' ((Op.add subs qoss session).update m) := by
  induction subs with
  | nil =>
    intro qoss tree tree' m h htree
    rw [TreeSubsMgr.addAll] at htree
    have hm : (Op.add [] qoss session).update m = m := by
      funext filter s
      simp [Op.update, Op.touch]
    rw [← Except.ok.inj htree, hm]
    exact h
  | cons sub subs ih =>
    intro qoss tree tree' m h htree
    cases qoss with
    | nil =>
      rw [TreeSubsMgr.addAll] at htree
      exact absurd htree (by simp)
    | cons qos qoss =>
      rw [TreeSubsMgr.addAll] at htree
      have hm : (Op.add (sub :: subs) (qos :: qoss) session).update m =
          (Op.add subs qoss session).update fun filter s =>
            if filter = sub ∧ s = session then some qos else m filter s := by
        funext filter s
        simp only [Op.update, Op.touch]
        by_cases hs : session = s
        · rw [if_pos hs, if_pos hs, List.zip_cons_cons, List.reverse_cons, List.find?_append]
          cases (subs.zip qoss).reverse.find? fun p => p.1 = filter with
          | some p => rfl
          | none =>
            by_cases hf : sub = filter
            · simp [hf, hs]
            · simp [hf, Ne.symm hf]
        · rw [if_neg hs, if_neg hs]
          simp [Ne.symm hs]
      rw [hm]
      exact ih (h.add sub qos session) htree

/-- A call leaves the tree filing what the call leaves live. -/
theorem Indexes.apply {op : Op κ} {tree tree' : TreeSubsMgr κ}
    {m : GoString → κ → Option UInt8} (h : Indexes tree m) (htree : op.apply tree = .ok tree') :
    Indexes tree' (op.update m) := by
  cases op with
  | add subs qoss session => exact h.addAll subs htree
  | remove f session =>
    have hgrants : ∀ s path, tree'.grants s path =
        if path = levels f ∧ s = session then none else tree.grants s path := by
      intro s path
      rw [← Except.ok.inj htree, del, grants_remove _ _ _ _ _ (levels_ne_nil f)]
    constructor
    · intro filter s
      rw [hgrants, h.grants_levels]
      simp only [levels_injective.eq_iff, Op.update, Op.touch, eq_comm (a := filter),
        eq_comm (a := s)]
      by_cases hc : f = filter ∧ session = s
      · rw [if_pos hc, if_pos hc, Option.getD_some]
      · rw [if_neg hc, if_neg hc, Option.getD_none]
    · intro s path hsome
      rw [hgrants] at hsome
      by_cases hc : path = levels f ∧ s = session
      · exact ⟨f, hc.1⟩
      · rw [if_neg hc] at hsome
        exact h.eq_levels s path hsome
  | removeSession session =>
    have hgrants : ∀ s path, tree'.grants s path =
        if s = session then none else tree.grants s path := by
      intro s path
      rw [← Except.ok.inj htree, grants_removeSession]
    constructor
    · intro filter s
      rw [hgrants, h.grants_levels]
      simp only [Op.update, Op.touch, eq_comm (a := s)]
      by_cases hc : session = s
      · rw [if_pos hc, if_pos hc, Option.getD_some]
      · rw [if_neg hc, if_neg hc, Option.getD_none]
    · intro s path hsome
      rw [hgrants] at hsome
      by_cases hc : s = session
      · rw [if_pos hc] at hsome
        exact absurd hsome (by simp)
      · rw [if_neg hc] at hsome
        exact h.eq_levels s path hsome

theorem live_append (ops : List (Op κ)) (op : Op κ) :
    live (ops ++ [op]) = op.update (live ops) := by
  funext filter session
  unfold live Op.update
  rw [List.reverse_append, List.reverse_singleton, List.singleton_append, List.findSome?_cons]
  cases op.touch filter session with
  | none => rfl
  | some said => rfl

/-- A call fails on every tree or on none. -/
theorem Op.apply_isOk {op : Op κ} (h : op.Fits) (tree : TreeSubsMgr κ) :
    ∃ tree', op.apply tree = .ok tree' := by
  cases op with
  | add subs qoss session => exact addAll_isOk session subs qoss tree h
  | remove filter session => exact ⟨_, rfl⟩
  | removeSession session => exact ⟨_, rfl⟩

theorem Op.apply_eq_error {op : Op κ} (h : ¬ op.Fits) (tree : TreeSubsMgr κ) :
    op.apply tree = .error .indexOutOfRange := by
  cases op with
  | add subs qoss session => exact addAll_eq_error session subs qoss tree (not_le.mp h)
  | remove filter session => exact absurd trivial h
  | removeSession session => exact absurd trivial h

/-- A sequence of calls fails when one of them does. -/
theorem foldlM_apply_eq (ops : List (Op κ)) : ∀ tree : TreeSubsMgr κ,
    ((∀ op ∈ ops, op.Fits) → ∃ tree', ops.foldlM Op.apply tree = .ok tree') ∧
      ((¬ ∀ op ∈ ops, op.Fits) → ops.foldlM Op.apply tree = .error .indexOutOfRange) := by
  induction ops with
  | nil => exact fun tree => ⟨fun _ => ⟨tree, rfl⟩, fun h => absurd (by simp) h⟩
  | cons op ops ih =>
    intro tree
    rw [List.foldlM_cons]
    by_cases hop : op.Fits
    · obtain ⟨tree', htree⟩ := Op.apply_isOk hop tree
      rw [htree]
      simp only [List.forall_mem_cons, hop, true_and]
      exact ih tree'
    · rw [Op.apply_eq_error hop tree]
      exact ⟨fun h => absurd (h op List.mem_cons_self) hop, fun _ => rfl⟩

/-- The tree that a sequence of calls builds files the subscriptions that are live after it. -/
theorem build_indexes (ops : List (Op κ)) :
    ∀ {tree : TreeSubsMgr κ}, build ops = .ok tree → Indexes tree (live ops) := by
  induction ops using List.reverseRecOn with
  | nil =>
    intro tree h
    rw [← Except.ok.inj h]
    exact indexes_newNode
  | append_singleton ops op ih =>
    intro tree' h
    rw [build, List.foldlM_append] at h
    rw [live_append]
    cases htree : build ops with
    | error e =>
      rw [build] at htree
      rw [htree] at h
      exact absurd h (by simp [bind, Except.bind])
    | ok tree =>
      have hbuild := htree
      rw [build] at htree
      rw [htree] at h
      have hstep : [op].foldlM Op.apply tree = .ok tree' := h
      rw [List.foldlM_cons] at hstep
      exact (ih hbuild).apply ((bind_pure _).symm.trans hstep)

/-- One subscription. -/
theorem live_add (filter : GoString) (qos : UInt8) (session : κ) (f : GoString) (s : κ) :
    live [.add [filter] [qos] session] f s =
      if f = filter ∧ s = session then some qos else none := by
  unfold live
  by_cases hs : s = session
  · by_cases hf : f = filter
    · simp [Op.touch, hs, hf]
    · simp [Op.touch, hs, hf, Ne.symm hf]
  · simp [Op.touch, hs, Ne.symm hs]

/-! ## Sessions that are filed nowhere -/

theorem Absent.grants {session : κ} (path : List GoString) :
    ∀ {tree : TreeSubsMgr κ}, Absent session tree → tree.grants session path = none := by
  induction path with
  | nil =>
    rintro ⟨sessions, subs⟩ h
    rw [Absent] at h
    exact Finmap.lookup_eq_none.mpr h.1
  | cons field path ih =>
    rintro ⟨sessions, subs⟩ h
    rw [Absent] at h
    have hsub := h.2 field
    rw [TreeSubsMgr.grants]
    cases hs : subs field with
    | none => rfl
    | some sub =>
      rw [hs, AbsentOf] at hsub
      exact ih hsub

mutual

/-- A session is in no node when no path has a QoS for it. -/
theorem absent_of_grants {session : κ} : ∀ {tree : TreeSubsMgr κ},
    (∀ path, tree.grants session path = none) → Absent session tree
  | node sessions subs, h => by
    rw [Absent]
    refine ⟨Finmap.lookup_eq_none.mp (h []), fun field => absentOf_of_grants fun path => ?_⟩
    have hfield := h (field :: path)
    rw [grants] at hfield
    cases hsub : subs field with
    | none => rfl
    | some sub =>
      rw [hsub] at hfield
      exact hfield

theorem absentOf_of_grants {session : κ} : ∀ {sub : Option (TreeSubsMgr κ)},
    (∀ path, (match sub with | none => none | some sub => sub.grants session path) = none) →
      AbsentOf session sub
  | none, _ => by
    rw [AbsentOf]
    trivial
  | some tree, h => by
    rw [AbsentOf]
    exact absent_of_grants h

end

theorem absent_iff_grants {session : κ} {tree : TreeSubsMgr κ} :
    Absent session tree ↔ ∀ path, tree.grants session path = none :=
  ⟨fun h path => h.grants path, absent_of_grants⟩

/-- `RemoveSession` takes a session out of every node. -/
theorem absent_removeSession (session : κ) (tree : TreeSubsMgr κ) :
    Absent session (tree.removeSession session) := by
  rw [absent_iff_grants]
  intro path
  rw [grants_removeSession, if_pos rfl]

theorem Absent.removeSession {s : κ} {tree : TreeSubsMgr κ} (h : Absent s tree) (session : κ) :
    Absent s (tree.removeSession session) := by
  rw [absent_iff_grants] at h ⊢
  intro path
  rw [grants_removeSession, h path, ite_self]

theorem Absent.foldl_del {s session : κ} (subs : List GoString) :
    ∀ {tree : TreeSubsMgr κ}, Absent s tree →
      Absent s (subs.foldl (fun tree sub => tree.del sub (some session)) tree) := by
  induction subs with
  | nil => exact fun h => h
  | cons sub subs ih =>
    intro tree h
    rw [List.foldl_cons]
    apply ih
    rw [absent_iff_grants] at h ⊢
    intro path
    rw [del, grants_remove _ _ _ _ _ (levels_ne_nil sub), h path, ite_self]

/-- An `Add` of another session. -/
theorem Absent.addAll {s session : κ} (hne : s ≠ session) (subs : List GoString) :
    ∀ {qoss : List UInt8} {tree tree' : TreeSubsMgr κ}, Absent s tree →
      addAll session subs qoss tree = .ok tree' → Absent s tree' := by
  induction subs with
  | nil =>
    intro qoss tree tree' h htree
    rw [TreeSubsMgr.addAll] at htree
    exact Except.ok.inj htree ▸ h
  | cons sub subs ih =>
    intro qoss tree tree' h htree
    cases qoss with
    | nil =>
      rw [TreeSubsMgr.addAll] at htree
      exact absurd htree (by simp)
    | cons qos qoss =>
      rw [TreeSubsMgr.addAll] at htree
      refine ih ?_ htree
      rw [absent_iff_grants] at h ⊢
      intro path
      rw [add, grants_insert _ _ _ _ _ _ (levels_ne_nil sub), h path,
        if_neg fun hpath => hne hpath.2]

end TreeSubsMgr
end MqttBroker
