import Mathlib.Data.Finmap
import Mathlib.Data.List.Sort

/-!
# Maps that are ranged over in an unspecified order

`GoMap K V` is Mathlib's finite map with a constant value type. A `range` statement over
such a map visits its entries once each in an order the language leaves open; a
`RangeOrder` is one choice of that order, and a fact proved for every `RangeOrder` holds
whatever order a run happens to take.
-/

/-- A finite map. -/
abbrev GoMap (K V : Type) := Finmap fun _ : K => V

namespace GoMap

variable {K V : Type} [DecidableEq K]

theorem lookup_insert_eq (k k' : K) (v : V) (m : GoMap K V) :
    (m.insert k v).lookup k' = if k' = k then some v else m.lookup k' := by
  by_cases hk : k' = k
  · rw [if_pos hk, hk, Finmap.lookup_insert]
  · rw [if_neg hk, Finmap.lookup_insert_of_ne _ hk]

theorem lookup_erase_eq (k k' : K) (m : GoMap K V) :
    (m.erase k).lookup k' = if k' = k then none else m.lookup k' := by
  by_cases hk : k' = k
  · rw [if_pos hk, hk, Finmap.lookup_erase]
  · rw [if_neg hk, Finmap.lookup_erase_ne hk]

/-- What an erased map has was there, under another key. -/
theorem of_lookup_erase {m : GoMap K V} {k k' : K} {v : V}
    (h : (m.erase k).lookup k' = some v) : k' ≠ k ∧ m.lookup k' = some v := by
  rw [lookup_erase_eq] at h
  split at h
  · exact absurd h (by simp)
  · next hk => exact ⟨hk, h⟩

/-- Erasing a key that is not there changes nothing. -/
theorem erase_of_notMem {m : GoMap K V} {k : K} (h : k ∉ m) : m.erase k = m := by
  refine Finmap.ext_lookup fun k' => ?_
  rw [lookup_erase_eq]
  by_cases hk : k' = k
  · rw [if_pos hk, hk, Finmap.lookup_eq_none.mpr h]
  · rw [if_neg hk]

theorem insert_erase (k : K) (v : V) (m : GoMap K V) : (m.erase k).insert k v = m.insert k v := by
  refine Finmap.ext_lookup fun k' => ?_
  rw [lookup_insert_eq, lookup_insert_eq, lookup_erase_eq]
  split
  · rfl
  · rfl

omit [DecidableEq K] in
/-- Every key has one entry. -/
theorem card_entries (m : GoMap K V) : m.entries.card = m.keys.card :=
  (Multiset.card_map Sigma.fst m.entries).symm

theorem card_insert_iff (k : K) (v : V) (m : GoMap K V) :
    ((m.insert k v).entries.card : ℤ) = m.entries.card + 1 ↔ k ∉ m := by
  have hkeys : (m.insert k v).keys = insert k m.keys := by
    ext k'
    rw [Finset.mem_insert, Finmap.mem_keys, Finmap.mem_keys, Finmap.mem_insert]
  rw [card_entries, card_entries, hkeys, ← Finmap.mem_keys]
  by_cases hk : k ∈ m.keys
  · rw [Finset.insert_eq_of_mem hk]
    exact iff_of_false (by omega) (not_not_intro hk)
  · rw [Finset.card_insert_of_notMem hk]
    exact iff_of_true (by omega) hk

theorem card_erase_iff (k : K) (m : GoMap K V) :
    ((m.erase k).entries.card : ℤ) = m.entries.card - 1 ↔ k ∈ m := by
  rw [card_entries, card_entries, Finmap.keys_erase, ← Finmap.mem_keys]
  by_cases hk : k ∈ m.keys
  · have hcard := Finset.card_erase_add_one hk
    exact iff_of_true (by omega) hk
  · rw [Finset.erase_eq_of_notMem hk]
    exact iff_of_false (by omega) hk

/-- Assigning the entries of a listing, one after another. -/
theorem lookup_foldl_insert (l : List (Σ _ : K, V)) : ∀ (m : GoMap K V) (k : K), l.NodupKeys →
    (l.foldl (fun m e => m.insert e.1 e.2) m).lookup k = (l.dlookup k).or (m.lookup k) := by
  induction l with
  | nil => exact fun _ _ _ => rfl
  | cons e l ih =>
    intro m k hnodup
    obtain ⟨k', v⟩ := e
    obtain ⟨hnew, hnodup⟩ := List.nodupKeys_cons.mp hnodup
    rw [List.foldl_cons, ih _ _ hnodup, lookup_insert_eq]
    by_cases hk : k = k'
    · rw [if_pos hk, hk, List.dlookup_cons_eq, List.dlookup_eq_none.mpr hnew]
      rfl
    · rw [if_neg hk, List.dlookup_cons_ne l ⟨k', v⟩ hk]

end GoMap

/-- One choice of the order in which the entries of a map are visited. -/
structure RangeOrder (K V : Type) where
  toList : GoMap K V → List (Σ _ : K, V)
  perm : ∀ m, (toList m : Multiset (Σ _ : K, V)) = m.entries

namespace RangeOrder

variable {K V : Type}

noncomputable instance : Inhabited (RangeOrder K V) :=
  ⟨⟨fun m => m.entries.toList, fun m => m.entries.coe_toList⟩⟩

/-- What is visited is what the map holds. -/
theorem mem_toList [DecidableEq K] (o : RangeOrder K V) (m : GoMap K V) (k : K) (v : V) :
    ⟨k, v⟩ ∈ o.toList m ↔ m.lookup k = some v := by
  rw [← Multiset.mem_coe, o.perm, ← Finmap.mem_lookup_iff, Option.mem_def]

/-- No key is visited twice. -/
theorem nodup_keys (o : RangeOrder K V) (m : GoMap K V) :
    ((o.toList m).map Sigma.fst).Nodup := by
  have h : (m.entries.map Sigma.fst).Nodup := m.nodupKeys.nodup_keys
  rw [← o.perm] at h
  simpa using h

/-- The entry of a key is visited once, if there is one. -/
theorem filter_key_toList [DecidableEq K] (o : RangeOrder K V) (m : GoMap K V) (k : K) :
    (o.toList m).filter (fun e => e.1 = k) = (m.lookup k).toList.map fun v => ⟨k, v⟩ := by
  cases hlookup : m.lookup k with
  | none =>
    refine List.filter_eq_nil_iff.mpr fun e he hk => ?_
    have hsome := (o.mem_toList m e.1 e.2).mp he
    rw [of_decide_eq_true hk, hlookup] at hsome
    exact absurd hsome (by simp)
  | some v =>
    have hnodup : (o.toList m).Nodup := List.Nodup.of_map _ (o.nodup_keys m)
    refine List.Perm.eq_singleton ?_
    refine (List.perm_ext_iff_of_nodup (hnodup.filter _) (List.nodup_singleton _)).mpr fun e => ?_
    obtain ⟨k', v'⟩ := e
    rw [List.mem_filter, o.mem_toList, List.mem_singleton]
    constructor
    · rintro ⟨hsome, hk⟩
      obtain rfl : k' = k := of_decide_eq_true hk
      rw [Option.some.inj (hsome.symm.trans hlookup)]
    · intro he
      obtain ⟨rfl, rfl⟩ : k' = k ∧ v' = v := by simpa using he
      exact ⟨hlookup, decide_eq_true rfl⟩

/-- A listing of the entries looks up what the map does. -/
theorem dlookup_toList [DecidableEq K] (o : RangeOrder K V) (m : GoMap K V) (k : K) :
    (o.toList m).dlookup k = m.lookup k := by
  have hnodup : (o.toList m).NodupKeys := o.nodup_keys m
  refine Option.ext fun v => ?_
  rw [← Option.mem_def, List.mem_dlookup_iff hnodup, o.mem_toList]

/-- A listing that is assigned to an empty map gives the map back. -/
theorem foldl_insert_toList [DecidableEq K] (o : RangeOrder K V) (m : GoMap K V) :
    (o.toList m).foldl (fun m e => m.insert e.1 e.2) (∅ : GoMap K V) = m := by
  refine Finmap.ext_lookup fun k => ?_
  rw [GoMap.lookup_foldl_insert _ _ k (o.nodup_keys m), o.dlookup_toList, Finmap.lookup_empty,
    Option.or_none]

/-! ## The order by ascending key -/

/-- Two listings of the same entries, both with strictly ascending keys, are equal. -/
theorem eq_of_perm_of_ascending [LinearOrder K] {l l' : List (Σ _ : K, V)} (h : l.Perm l')
    (hl : l.Pairwise fun a b => a.1 < b.1) (hl' : l'.Pairwise fun a b => a.1 < b.1) :
    l = l' :=
  h.eq_of_pairwise (fun _ _ _ _ hab hba => absurd hab (lt_asymm hba)) hl hl'

theorem pairwise_lt_insertionSort [LinearOrder K] (l : List (Σ _ : K, V)) (h : l.NodupKeys) :
    (l.insertionSort fun a b => a.1 ≤ b.1).Pairwise fun a b => a.1 < b.1 := by
  have hle : (l.insertionSort fun a b => a.1 ≤ b.1).Pairwise fun a b => a.1 ≤ b.1 := by
    have : Std.Total fun a b : (Σ _ : K, V) => a.1 ≤ b.1 := ⟨fun a b => le_total a.1 b.1⟩
    have : IsTrans (Σ _ : K, V) fun a b => a.1 ≤ b.1 := ⟨fun _ _ _ => le_trans⟩
    exact List.pairwise_insertionSort _ l
  have hne : (l.insertionSort fun a b => a.1 ≤ b.1).Pairwise fun a b => a.1 ≠ b.1 := by
    have hk := List.nodupKeys_iff_pairwise.mp
      ((List.perm_nodupKeys (l.perm_insertionSort fun a b => a.1 ≤ b.1)).mpr h)
    exact hk
  exact hle.imp₂ (fun _ _ h h' => lt_of_le_of_ne h h') hne

/-- The entries in ascending order of their keys. -/
def ascending [LinearOrder K] : RangeOrder K V where
  toList m := m.liftOn (fun l => l.entries.insertionSort fun a b => a.1 ≤ b.1) fun l l' h =>
    eq_of_perm_of_ascending
      (((List.perm_insertionSort _ _).trans h).trans (List.perm_insertionSort _ _).symm)
      (pairwise_lt_insertionSort _ l.nodupKeys) (pairwise_lt_insertionSort _ l'.nodupKeys)
  perm m := by
    induction m using Finmap.induction_on with
    | H s => exact Multiset.coe_eq_coe.mpr (List.perm_insertionSort _ _)

end RangeOrder
