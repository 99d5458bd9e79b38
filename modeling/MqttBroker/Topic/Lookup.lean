import Mathlib.Data.List.TakeWhile
import MqttBroker.Lib.Wildcards
import MqttBroker.Topic.Subscriptions

/-!
# What a lookup returns

`_getSessions` reads a topic byte by byte while filters are split beforehand, but both cut at
the same slashes, with one difference: a topic that ends with a slash has an empty last level
that the lookup never asks for. Up to that, `GetSessions` is the lookup `Wildcards.pick` in
the subscriptions that are live.
-/

namespace MqttBroker
namespace TreeSubsMgr

variable {κ : Type}

/-! ## The levels of a topic -/

/-- Either there is no slash left, or the topic is cut at the first one. -/
theorem nextField_cases (topic : GoString) :
    (slash ∉ topic ∧ nextField topic = (topic, none)) ∨
      ∃ field rest, topic = field ++ slash :: rest ∧ slash ∉ field ∧
        nextField topic = (field, some rest) := by
  have htopic := List.takeWhile_append_dropWhile (p := (· != slash)) (l := topic)
  have hfield : slash ∉ topic.takeWhile (· != slash) := by
    intro h
    exact absurd (List.mem_takeWhile_imp h) (by simp)
  unfold nextField
  rw [List.span_eq_takeWhile_dropWhile]
  cases hrest : topic.dropWhile (· != slash) with
  | nil =>
    rw [hrest, List.append_nil] at htopic
    rw [htopic] at hfield
    exact .inl ⟨hfield, by rw [htopic]⟩
  | cons b rest =>
    have hb : b = slash := by
      have := List.head_dropWhile_not (p := (· != slash)) (l := topic) (by simp [hrest])
      simpa [hrest] using this
    rw [hrest, hb] at htopic
    exact .inr ⟨_, rest, htopic.symm, hfield, rfl⟩

theorem levels_of_notMem {topic : GoString} (h : slash ∉ topic) : levels topic = [topic] :=
  List.splitOn_eq_singleton h

theorem levels_append_cons {field : GoString} (h : slash ∉ field) (rest : GoString) :
    levels (field ++ slash :: rest) = field :: levels rest :=
  List.splitOn_append_cons_self_of_not_mem h rest

/-- The last level of a topic is empty when the topic is empty or ends with a slash. -/
theorem getLast?_levels (topic : GoString) :
    (levels topic).getLast? = some [] ↔ topic = [] ∨ topic.getLast? = some slash := by
  induction hn : topic.length using Nat.strong_induction_on generalizing topic with
  | _ n ih =>
    rcases nextField_cases topic with ⟨hslash, h⟩ | ⟨field, rest, htopic, hslash, h⟩
    · rw [levels_of_notMem hslash, List.getLast?_singleton, Option.some_inj]
      have hlast : topic.getLast? ≠ some slash := fun hl => hslash (List.mem_of_getLast? hl)
      simp [hlast]
    · have hlen : rest.length < n := by
        rw [← hn, htopic, List.length_append, List.length_cons]
        omega
      rw [htopic, levels_append_cons hslash]
      have hne : levels rest ≠ [] := levels_ne_nil rest
      rw [List.getLast?_cons_of_ne_nil hne, ih _ hlen rest rfl]
      cases rest with
      | nil => simp
      | cons b rest => simp [List.getLast?_append]

/-! ## The maps that are visited -/

variable [DecidableEq κ]

/-- The QoS that the last of the visited maps with the session has for it. -/
def latest (session : κ) : List (GoMap κ UInt8) → Option UInt8
  | [] => none
  | sm :: sms => (latest session sms).or (sm.lookup session)

theorem latest_append (session : κ) (sms sms' : List (GoMap κ UInt8)) :
    latest session (sms ++ sms') = (latest session sms').or (latest session sms) := by
  induction sms with
  | nil => rw [List.nil_append, latest, Option.or_none]
  | cons sm sms ih => rw [List.cons_append, latest, latest, ih, Option.or_assoc]

/-- A map visited later overwrites what is there. -/
theorem lookup_getSessions (session : κ) (topic : GoString) (tree : TreeSubsMgr κ) :
    (getSessions topic tree).lookup session = latest session (tree.visited topic) := by
  have hfold : ∀ (sms : List (GoMap κ UInt8)) (rm : GoMap κ UInt8),
      (sms.foldl (fun rm sm => sm ∪ rm) rm).lookup session =
        (latest session sms).or (rm.lookup session) := by
    intro sms
    induction sms with
    | nil => exact fun rm => rfl
    | cons sm sms ih =>
      intro rm
      rw [List.foldl_cons, ih, latest, Option.or_assoc]
      congr 1
      by_cases hsm : session ∈ sm
      · rw [Finmap.lookup_union_left hsm]
        obtain ⟨qos, hqos⟩ := Finmap.mem_iff.mp hsm
        rw [hqos, Option.some_or]
      · rw [Finmap.lookup_union_right hsm, Finmap.lookup_eq_none.mpr hsm, Option.none_or]
  rw [getSessions, hfold, Finmap.lookup_empty, Option.or_none]

/-- The lookup of a level that is not there, as a lookup of paths. -/
theorem grants_cons (session : κ) (tree : TreeSubsMgr κ) (field : GoString)
    (path : List GoString) :
    tree.grants session (field :: path) =
      (tree.subsMap field).bind fun sub => sub.grants session path := by
  obtain ⟨sessions, subs⟩ := tree
  rw [grants, subsMap]
  cases subs field with
  | none => rfl
  | some sub => rfl

/-- The levels `+` and `#` of filters, and the empty level that a topic cannot end with. -/
abbrev pickLevels (g : List GoString → Option UInt8) (topic : GoString) : Option UInt8 :=
  Wildcards.pick (str "+") (str "#") (fun t => t = []) g (levels topic)

/-- An index without patterns has nothing for any name. -/
theorem pick_none (ts : List GoString) :
    Wildcards.pick (str "+") (str "#") (fun t => t = []) (fun _ => (none : Option UInt8)) ts =
      none := by
  cases h : Wildcards.pick (str "+") (str "#") (fun t => t = [])
      (fun _ => (none : Option UInt8)) ts with
  | none => rfl
  | some q =>
    obtain ⟨p, _, hp, _⟩ := Wildcards.pick_spec ts h
    exact absurd hp (by simp)

/-- What the visited maps have for a session is what the lookup of levels finds at the nodes. -/
theorem latest_visited (session : κ) (topic : GoString) : ∀ tree : TreeSubsMgr κ,
    latest session (tree.visited topic) = pickLevels (tree.grants session) topic := by
  induction hn : topic.length using Nat.strong_induction_on generalizing topic with
  | _ n ih =>
    rintro ⟨sessions, subs⟩
    rw [visited]
    by_cases hempty : topic.length = 0
    · rw [if_pos hempty, List.eq_nil_of_length_eq_zero hempty]
      rfl
    rw [if_neg hempty, latest_append, latest_append]
    have hhash : latest session ((subs (str "#")).map sessionsMap).toList =
        (node sessions subs).grants session [str "#"] := by
      rw [grants_cons, subsMap]
      cases subs (str "#") with
      | none => rfl
      | some sub => rfl
    rw [hhash]
    rcases nextField_cases topic with ⟨hslash, h⟩ | ⟨field, rest, htopic, hslash, h⟩
    · -- the last level: the session maps of the nodes themselves
      have hlast : ∀ field, latest session (visitedBelow (subs field) none) =
          (node sessions subs).grants session [field] := by
        intro field
        rw [grants_cons, subsMap]
        cases subs field with
        | none => rfl
        | some sub => rfl
      have hne : topic ≠ [] := fun h => hempty (by rw [h]; rfl)
      rw [h, hlast, hlast, pickLevels, levels_of_notMem hslash, Wildcards.pick,
        if_neg (by simpa using hne)]
    · have hlen : rest.length < n := by
        rw [← hn, htopic, List.length_append, List.length_cons]
        omega
      have hbelow : ∀ field, latest session (visitedBelow (subs field) (some rest)) =
          pickLevels (fun p => (node sessions subs).grants session (field :: p)) rest := by
        intro field
        simp only [grants_cons, subsMap]
        cases subs field with
        | none => exact (pick_none _).symm
        | some sub => exact ih _ hlen rest rfl sub
      rw [h, hbelow, hbelow, htopic, pickLevels, pickLevels, pickLevels, levels_append_cons hslash,
        Wildcards.pick_cons (levels_ne_nil rest)]

/-- A session that is in no node is not looked up for any topic. -/
theorem Absent.notMem_getSessions {session : κ} {tree : TreeSubsMgr κ}
    (h : Absent session tree) (topic : GoString) : session ∉ getSessions topic tree := by
  have hgrants : tree.grants session = fun _ => none := funext fun path => h.grants path
  rw [← Finmap.lookup_eq_none, lookup_getSessions, latest_visited, hgrants]
  exact pick_none _

/-! ## The filters of a topic -/

/-- The filter matches the topic level by level: `+` any one level, a last `#` the levels that
are left, and other levels themselves. -/
def Matches (filter topic : GoString) : Prop :=
  Wildcards.Matches (str "+") (str "#") (levels filter) (levels topic)

/-- The lookup of the topic comes to the node of the filter. -/
def Reaches (filter topic : GoString) : Prop :=
  Wildcards.Found (str "+") (str "#") (fun t => t = []) (levels filter) (levels topic)

/-- The lookup comes to the filters that match, but a topic that ends with a slash is seen by
those only that are shorter than it. -/
theorem reaches_iff {filter topic : GoString} (htopic : topic ≠ []) :
    Reaches filter topic ↔ Matches filter topic ∧
      (topic.getLast? = some slash → (levels filter).length < (levels topic).length) := by
  have hskipped : Wildcards.Skipped (fun t : GoString => t = []) (levels topic) ↔
      topic.getLast? = some slash := by
    have hlast := getLast?_levels topic
    rw [or_iff_right htopic] at hlast
    rw [← hlast]
    simp [Wildcards.Skipped]
  rw [Reaches, Matches, Wildcards.found_iff, hskipped]
  constructor
  · rintro ⟨hm, -, hlen⟩
    have := Wildcards.length_le_of_matches hm
    refine ⟨hm, fun hslash => ?_⟩
    by_contra hlt
    exact hlen (by omega) hslash
  · rintro ⟨hm, hlen⟩
    refine ⟨hm, levels_ne_nil topic, fun heq hslash => ?_⟩
    have := hlen hslash
    omega

/-- The QoS that a lookup in an index of subscriptions returns belongs to the last filter that
the lookup comes to. -/
theorem Indexes.lookup_eq_some_iff {tree : TreeSubsMgr κ} {m : GoString → κ → Option UInt8}
    (h : Indexes tree m) (topic : GoString) (session : κ) (qos : UInt8) :
    (getSessions topic tree).lookup session = some qos ↔
      ∃ filter, Reaches filter topic ∧ m filter session = some qos ∧
        ∀ f, Reaches f topic → (m f session).isSome →
          f = filter ∨ Wildcards.Before (str "+") (levels topic) (levels f) (levels filter) := by
  rw [lookup_getSessions, latest_visited, pickLevels, Wildcards.pick_eq_some_iff]
  constructor
  · rintro ⟨p, hp, hqos, hlast⟩
    obtain ⟨filter, rfl⟩ := h.eq_levels session p (by rw [hqos]; rfl)
    rw [h.grants_levels] at hqos
    refine ⟨filter, hp, hqos, fun f hf hsome => ?_⟩
    rw [← h.grants_levels] at hsome
    exact (hlast (levels f) hf hsome).imp_left fun heq => levels_injective heq
  · rintro ⟨filter, hfilter, hqos, hlast⟩
    rw [← h.grants_levels] at hqos
    refine ⟨levels filter, hfilter, hqos, fun p hp hsome => ?_⟩
    obtain ⟨f, rfl⟩ := h.eq_levels session p hsome
    rw [h.grants_levels] at hsome
    exact (hlast f hp hsome).imp_left fun heq => by rw [heq]

/-- The lookup returns the sessions with a subscription that it comes to. -/
theorem Indexes.mem_iff {tree : TreeSubsMgr κ} {m : GoString → κ → Option UInt8}
    (h : Indexes tree m) (topic : GoString) (session : κ) :
    session ∈ getSessions topic tree ↔
      ∃ filter, Reaches filter topic ∧ (m filter session).isSome := by
  rw [← Finmap.lookup_isSome, lookup_getSessions, latest_visited, pickLevels]
  constructor
  · intro hsome
    obtain ⟨qos, hqos⟩ := Option.isSome_iff_exists.mp hsome
    obtain ⟨p, hp, hpqos, -⟩ := Wildcards.pick_spec _ hqos
    obtain ⟨filter, rfl⟩ := h.eq_levels session p (by rw [hpqos]; rfl)
    rw [h.grants_levels] at hpqos
    exact ⟨filter, hp, by rw [hpqos]; rfl⟩
  · rintro ⟨filter, hfilter, hsome⟩
    rw [← h.grants_levels] at hsome
    exact Wildcards.pick_isSome_of_found _ hfilter hsome

end TreeSubsMgr
end MqttBroker
