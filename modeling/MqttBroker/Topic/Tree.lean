import MqttBroker.Lib.GoMap
import MqttBroker.Basic

/-!
# The subscription tree

`treeSubsMgr` files a subscription under the levels of its filter: each node has a child
for every level below it and the sessions, with their granted QoS, of the filter that ends
there. Sessions are `interface{}` values in the source and a type parameter here.

`subsMap` is a function because only lookups, updates and visits of all children are made.
The tree mutex makes every method one step; `Add`, `Remove` and `GetSessions` always
return a nil error, so no error is modelled.
-/

namespace MqttBroker

/-- `treeSubsMgr`. -/
inductive TreeSubsMgr (κ : Type) where
  | node (sessionsMap : GoMap κ UInt8) (subsMap : GoString → Option (TreeSubsMgr κ))

namespace TreeSubsMgr

variable {κ : Type}

def sessionsMap : TreeSubsMgr κ → GoMap κ UInt8
  | node sessionsMap _ => sessionsMap

def subsMap : TreeSubsMgr κ → GoString → Option (TreeSubsMgr κ)
  | node _ subsMap => subsMap

def newNode : TreeSubsMgr κ := node ∅ fun _ => none

/-- The byte `/`. -/
abbrev slash : UInt8 := 47

/-- `strings.Split(filter, "/")`. -/
def levels (filter : GoString) : List GoString := filter.splitOn slash

/-! ## Adding and removing -/

/-- `insert`; the fields are those from `cur` on, and `Split` returns at least one. -/
def insert [DecidableEq κ] (qos : UInt8) (session : κ) :
    List GoString → TreeSubsMgr κ → TreeSubsMgr κ
  | [], tree => tree
  | field :: fields, node sessions subs =>
    let sub := (subs field).getD newNode
    let sub :=
      if fields.isEmpty then node (sub.sessionsMap.insert session qos) sub.subsMap
      else insert qos session fields sub
    node sessions (Function.update subs field (some sub))

def add [DecidableEq κ] (filter : GoString) (qos : UInt8) (session : κ) (tree : TreeSubsMgr κ) :
    TreeSubsMgr κ :=
  tree.insert qos session (levels filter)

/-- `Add`: filters and QoS values belong together by position, and a missing QoS is an
index out of range. -/
def addAll [DecidableEq κ] (session : κ) :
    List GoString → List UInt8 → TreeSubsMgr κ → Except Panic (TreeSubsMgr κ)
  | [], _, tree => .ok tree
  | _ :: _, [], _ => .error .indexOutOfRange
  | sub :: subs, qos :: qoss, tree => addAll session subs qoss (tree.add sub qos session)

/-- `remove`. Without a session the leaf deletes the last field from its own children. -/
def remove [DecidableEq κ] (session : Option κ) : List GoString → TreeSubsMgr κ → TreeSubsMgr κ
  | [], tree => tree
  | field :: fields, node sessions subs =>
    match subs field with
    | none => node sessions subs
    | some sub =>
      let sub :=
        if fields.isEmpty then
          match session with
          | none => node sub.sessionsMap (Function.update sub.subsMap field none)
          | some session => node (sub.sessionsMap.erase session) sub.subsMap
        else remove session fields sub
      node sessions (Function.update subs field (some sub))

/-- `Remove`. -/
def del [DecidableEq κ] (filter : GoString) (session : Option κ) (tree : TreeSubsMgr κ) :
    TreeSubsMgr κ :=
  tree.remove session (levels filter)

mutual

/-- `RemoveSession`. -/
def removeSession [DecidableEq κ] (session : κ) : TreeSubsMgr κ → TreeSubsMgr κ
  | node sessions subs =>
    node (sessions.erase session) fun field => removeSessionOf session (subs field)

def removeSessionOf [DecidableEq κ] (session : κ) : Option (TreeSubsMgr κ) → Option (TreeSubsMgr κ)
  | none => none
  | some tree => some (removeSession session tree)

end

/-! ## Lookup -/

/-- The first level of a topic, and what follows the slash after it. -/
def nextField (fields : GoString) : GoString × Option GoString :=
  match fields.span (· != slash) with
  | (field, []) => (field, none)
  | (field, _ :: rest) => (field, some rest)

mutual

/-- `_getSessions`: the session maps its callback is called with, in order. -/
def visited : TreeSubsMgr κ → GoString → List (GoMap κ UInt8)
  | node _ subs, fields =>
    if fields.length = 0 then []
    else
      ((subs (str "#")).map sessionsMap).toList ++
        visitedBelow (subs (str "+")) (nextField fields).2 ++
        visitedBelow (subs (nextField fields).1) (nextField fields).2

def visitedBelow : Option (TreeSubsMgr κ) → Option GoString → List (GoMap κ UInt8)
  | none, _ => []
  | some sub, none => [sub.sessionsMap]
  | some sub, some fields => visited sub fields

end

/-- `GetSessions`: a map visited later overwrites what is there. -/
def getSessions [DecidableEq κ] (topic : GoString) (tree : TreeSubsMgr κ) : GoMap κ UInt8 :=
  (tree.visited topic).foldl (fun rm sm => sm ∪ rm) ∅

/-! ## `IsTopicMatch` -/

/-- The inner loop for `+`: the next slash of the topic from `j` on, or its end. -/
def skipLevel (topic : GoString) (j : ℕ) : ℕ :=
  j + ((topic.drop j).takeWhile (· != slash)).length

/-- What follows the loop, with `tail` the subscription from `i` on. -/
def matchTail (topic tail : GoString) (j : ℕ) : Bool :=
  if tail ≠ [] ∨ j ≠ topic.length then
    decide (j = topic.length) && tail ∈ [str "+", str "#", str "/+", str "/#"]
  else true

/-- The loop, with `tail` the subscription from `i` on. The comparison reads the topic at
`i`, not at `j`. -/
def matchFrom (topic : GoString) : GoString → ℕ → ℕ → Except Panic Bool
  | [], _, j => .ok (matchTail topic [] j)
  | c :: tail, i, j =>
    if j < topic.length then
      match topic[i]? with
      | none => .error .indexOutOfRange
      | some b =>
        if c = b then matchFrom topic tail (i + 1) (j + 1)
        else if c = 43 then matchFrom topic tail (i + 1) (skipLevel topic j)
        else .ok (c == 35)
    else .ok (matchTail topic (c :: tail) j)

/-- `IsTopicMatch`. -/
def isTopicMatch (topic subscription : GoString) : Except Panic Bool :=
  matchFrom topic subscription 0 0

/-! ## Facts about the operations -/

/-- With a QoS for each filter, `Add` does not fail. -/
theorem addAll_isOk [DecidableEq κ] (session : κ) (subs : List GoString) :
    ∀ (qoss : List UInt8) (tree : TreeSubsMgr κ), subs.length ≤ qoss.length →
      ∃ tree', addAll session subs qoss tree = .ok tree' := by
  induction subs with
  | nil => exact fun _ tree _ => ⟨tree, by rw [addAll]⟩
  | cons sub subs ih =>
    intro qoss tree h
    cases qoss with
    | nil => exact absurd h (by simp)
    | cons qos qoss =>
      rw [addAll]
      exact ih qoss _ (by simpa using h)

/-- `Add` fails when a filter has no QoS. -/
theorem addAll_eq_error [DecidableEq κ] (session : κ) (subs : List GoString) :
    ∀ (qoss : List UInt8) (tree : TreeSubsMgr κ), qoss.length < subs.length →
      addAll session subs qoss tree = .error .indexOutOfRange := by
  induction subs with
  | nil => exact fun _ _ h => absurd h (by simp)
  | cons sub subs ih =>
    intro qoss tree h
    cases qoss with
    | nil => rw [addAll]
    | cons qos qoss =>
      rw [addAll]
      exact ih qoss _ (by simpa using h)

/-- A topic matches itself. -/
theorem isTopicMatch_self (topic : GoString) : isTopicMatch topic topic = .ok true := by
  have hfrom : ∀ (tail : GoString) (i : ℕ), topic.drop i = tail → i ≤ topic.length →
      matchFrom topic tail i i = .ok true := by
    intro tail
    induction tail with
    | nil =>
      intro i h hi
      have hlen := List.drop_eq_nil_iff.mp h
      rw [matchFrom, matchTail, if_neg (by simp; omega)]
    | cons c tail ih =>
      intro i h hi
      have hlt : i < topic.length := by
        by_contra hge
        rw [List.drop_eq_nil_of_le (by omega)] at h
        exact absurd h (by simp)
      have hc : topic[i]? = some c := by
        have := congrArg List.head? h
        rwa [List.head?_drop, List.head?_cons] at this
      have htail : topic.drop (i + 1) = tail := by
        rw [← List.drop_drop, h, List.drop_one, List.tail_cons]
      rw [matchFrom, if_pos hlt, hc]
      simp only [if_true]
      exact ih (i + 1) htail hlt
  exact hfrom topic 0 (List.drop_zero) (Nat.zero_le _)

/-! ## Sessions without a subscription -/

mutual

/-- No node of the tree lists the session. -/
def Absent [DecidableEq κ] (session : κ) : TreeSubsMgr κ → Prop
  | node sessions subs => session ∉ sessions ∧ ∀ field, AbsentOf session (subs field)

def AbsentOf [DecidableEq κ] (session : κ) : Option (TreeSubsMgr κ) → Prop
  | none => True
  | some tree => Absent session tree

end

theorem absent_newNode [DecidableEq κ] (session : κ) : Absent session newNode := by
  rw [newNode, Absent]
  exact ⟨Finmap.notMem_empty, fun _ => by rw [AbsentOf]; trivial⟩

/-- Removing a session's subscription to a filter is without effect when it has none. -/
theorem remove_of_absent [DecidableEq κ] {session : κ} (fields : List GoString) :
    ∀ {tree : TreeSubsMgr κ}, Absent session tree → tree.remove (some session) fields = tree := by
  induction fields with
  | nil => exact fun _ => by rw [remove]
  | cons field fields ih =>
    intro tree h
    obtain ⟨sessions, subs⟩ := tree
    rw [Absent] at h
    have hsub := h.2 field
    rw [remove]
    cases hs : subs field with
    | none => rfl
    | some sub =>
      rw [hs, AbsentOf] at hsub
      have hself : Function.update subs field (some sub) = subs := by
        rw [← hs]
        exact Function.update_eq_self ..
      have hleaf : node (sub.sessionsMap.erase session) sub.subsMap = sub := by
        obtain ⟨sessions', subs'⟩ := sub
        rw [Absent] at hsub
        rw [sessionsMap, subsMap, GoMap.erase_of_notMem hsub.1]
      simp only [hleaf, ih hsub, ite_self, hself]

mutual

theorem removeSession_of_absent [DecidableEq κ] {session : κ} :
    ∀ {tree : TreeSubsMgr κ}, Absent session tree → tree.removeSession session = tree
  | node sessions subs, h => by
    rw [Absent] at h
    rw [removeSession, GoMap.erase_of_notMem h.1]
    exact congrArg _ (funext fun field => removeSessionOf_of_absent (h.2 field))

theorem removeSessionOf_of_absent [DecidableEq κ] {session : κ} :
    ∀ {sub : Option (TreeSubsMgr κ)}, AbsentOf session sub → removeSessionOf session sub = sub
  | none, _ => by rw [removeSessionOf]
  | some tree, h => by
    rw [AbsentOf] at h
    rw [removeSessionOf, removeSession_of_absent h]

end

theorem foldl_del_of_absent [DecidableEq κ] {session : κ} (topics : List GoString)
    {tree : TreeSubsMgr κ} (h : Absent session tree) :
    topics.foldl (fun tree s => tree.del s (some session)) tree = tree := by
  induction topics with
  | nil => rfl
  | cons topic topics ih =>
    rw [List.foldl_cons, del, remove_of_absent _ h]
    exact ih

end TreeSubsMgr
end MqttBroker
