import Mathlib.Data.Finmap
import Mathlib.Data.List.Sort

/-!
# Go maps and the order of a range loop

A Go map is a finite partial function; a `for k, v := range m` loop visits its
entries once each, in an order the language leaves open. `GoMap` is the map and
`GoMap.Order` is one admissible order, so that a loop over a map becomes a fold
over `Order.list` and a statement about the loop quantifies over the order.
`GoMap.sorted` is the one order that can be computed: by key, as an encoder that
sorts its keys visits the map.
-/

namespace GoLib

/-- A map with keys in `K` and values in `V`, equal when its lookups are. -/
abbrev GoMap (K V : Type) := Finmap fun _ : K => V

namespace GoMap

variable {K V : Type}

/-- One order in which a range loop may visit `m`: its entries, listed. -/
structure Order (m : GoMap K V) where
  list : List (Σ _ : K, V)
  entries_eq : (list : Multiset (Σ _ : K, V)) = m.entries

def Order.nil : Order (∅ : GoMap K V) := ⟨[], rfl⟩

instance (m : GoMap K V) : Nonempty m.Order := by
  obtain ⟨l, hl⟩ := Quot.exists_rep m.entries
  exact ⟨⟨l, hl⟩⟩

/-! ### Lookups after an update -/

section

variable [DecidableEq K]

theorem lookup_insert_ite (m : GoMap K V) (k k' : K) (v : V) :
    (m.insert k v).lookup k' = if k' = k then some v else m.lookup k' := by
  split_ifs with h
  · rw [h, Finmap.lookup_insert]
  · exact Finmap.lookup_insert_of_ne m h

theorem insert_of_lookup {m : GoMap K V} {k : K} {v : V} (h : m.lookup k = some v) :
    m.insert k v = m := by
  refine Finmap.ext_lookup fun k' => ?_
  rw [lookup_insert_ite]
  split_ifs with hk
  · rw [hk, h]
  · rfl

theorem lookup_erase_ite (m : GoMap K V) (k k' : K) :
    (m.erase k).lookup k' = if k' = k then none else m.lookup k' := by
  split_ifs with h
  · rw [h, Finmap.lookup_erase]
  · exact Finmap.lookup_erase_ne h

theorem erase_of_lookup {m : GoMap K V} {k : K} (h : m.lookup k = none) : m.erase k = m := by
  refine Finmap.ext_lookup fun k' => ?_
  rw [lookup_erase_ite]
  split_ifs with hk
  · rw [hk, h]
  · rfl

theorem lookup_union (m m' : GoMap K V) (k : K) :
    (m ∪ m').lookup k = (m.lookup k).or (m'.lookup k) := by
  by_cases h : k ∈ m
  · obtain ⟨v, hv⟩ := Finmap.mem_iff.mp h
    rw [Finmap.lookup_union_left h, hv, Option.some_or]
  · rw [Finmap.lookup_union_right h, Finmap.lookup_eq_none.mpr h, Option.none_or]

/-- The keys of a list deleted from the map, in order. -/
def eraseAll (m : GoMap K V) (ks : List K) : GoMap K V := ks.foldl (fun m k => m.erase k) m

theorem lookup_eraseAll (m : GoMap K V) (ks : List K) (k : K) :
    (m.eraseAll ks).lookup k = if k ∈ ks then none else m.lookup k := by
  induction ks generalizing m with
  | nil => simp only [eraseAll, List.foldl_nil, List.not_mem_nil, ite_false]
  | cons a ks ih =>
    have h := ih (m.erase a)
    simp only [eraseAll, List.foldl_cons] at h ⊢
    rw [h, lookup_erase_ite]
    by_cases h1 : k = a <;> by_cases h2 : k ∈ ks <;> simp [h1, h2]

theorem notMem_erase_iff (m : GoMap K V) (k k' : K) : k' ∉ m.erase k ↔ k = k' ∨ k' ∉ m := by
  rw [Finmap.mem_erase, not_and_or, not_not, eq_comm]

theorem notMem_eraseAll_iff (m : GoMap K V) (ks : List K) (k : K) :
    k ∉ m.eraseAll ks ↔ k ∈ ks ∨ k ∉ m := by
  rw [← Finmap.lookup_eq_none, ← Finmap.lookup_eq_none, lookup_eraseAll]
  by_cases h : k ∈ ks <;> simp [h]

/-- The map brought in line with `f` on the keys of a list. -/
def overwrite (m : GoMap K V) (ks : List K) (f : K → Option V) : GoMap K V :=
  ks.foldl (fun m k =>
    match f k with
    | some v => m.insert k v
    | none => m.erase k) m

theorem lookup_overwrite (m : GoMap K V) (ks : List K) (f : K → Option V) (k : K) :
    (m.overwrite ks f).lookup k = if k ∈ ks then f k else m.lookup k := by
  induction ks generalizing m with
  | nil => simp only [overwrite, List.foldl_nil, List.not_mem_nil, ite_false]
  | cons a ks ih =>
    have h := ih (match f a with
      | some v => m.insert a v
      | none => m.erase a)
    simp only [overwrite, List.foldl_cons] at h ⊢
    rw [h]
    by_cases h2 : k ∈ ks
    · simp only [h2, ite_true, List.mem_cons, or_true]
    · by_cases h1 : k = a
      · subst h1
        cases hf : f k <;> simp [Finmap.lookup_insert, Finmap.lookup_erase]
      · cases hf : f a <;>
          simp [h1, h2, Finmap.lookup_insert_of_ne, Finmap.lookup_erase_ne]

theorem lookup_foldl_update {U : Type} (f : K → U → Option V → V) {l : List (Σ _ : K, U)}
    (hl : (l.map Sigma.fst).Nodup) (m : GoMap K V) :
    (∀ e ∈ l, (l.foldl (fun m e => m.insert e.1 (f e.1 e.2 (m.lookup e.1))) m).lookup e.1 =
      some (f e.1 e.2 (m.lookup e.1))) ∧
    ∀ k, k ∉ l.map Sigma.fst →
      (l.foldl (fun m e => m.insert e.1 (f e.1 e.2 (m.lookup e.1))) m).lookup k = m.lookup k := by
  induction l generalizing m with
  | nil => exact ⟨fun e he => absurd he List.not_mem_nil, fun _ _ => rfl⟩
  | cons a l ih =>
    rw [List.map_cons, List.nodup_cons] at hl
    obtain ⟨hother, hsame⟩ := ih hl.2 (m.insert a.1 (f a.1 a.2 (m.lookup a.1)))
    constructor
    · intro e he
      rw [List.foldl_cons]
      rcases List.mem_cons.mp he with rfl | he
      · rw [hsame e.1 hl.1, Finmap.lookup_insert]
      · have hne : e.1 ≠ a.1 := fun heq => hl.1 (heq ▸ List.mem_map_of_mem he)
        rw [hother e he, Finmap.lookup_insert_of_ne _ hne]
    · intro k hk
      rw [List.map_cons, List.mem_cons, not_or] at hk
      rw [List.foldl_cons, hsame k hk.2, Finmap.lookup_insert_of_ne _ hk.1]

end

/-! ### Counting entries by value -/

section

variable [DecidableEq K]

/-- The number of entries whose value satisfies `p`. -/
def countVal (m : GoMap K V) (p : V → Bool) : ℕ := m.entries.countP fun e => p e.2

theorem countVal_insert_of_notMem {m : GoMap K V} {k : K} (h : k ∉ m) (v : V) (p : V → Bool) :
    countVal (m.insert k v) p = m.countVal p + if p v then 1 else 0 := by
  rw [countVal, Finmap.entries_insert_of_notMem h, Multiset.countP_cons]
  rfl

theorem countVal_erase {m : GoMap K V} {k : K} {v : V} (h : m.lookup k = some v) (p : V → Bool) :
    m.countVal p = countVal (m.erase k) p + if p v then 1 else 0 := by
  have hback : m = (m.erase k).insert k v := by
    refine Finmap.ext_lookup fun k' => ?_
    rw [lookup_insert_ite, lookup_erase_ite]
    split_ifs with hk
    · rw [hk, h]
    · rfl
  have hnot : k ∉ m.erase k := Finmap.notMem_erase_self
  conv_lhs => rw [hback]
  exact countVal_insert_of_notMem hnot v p

end

/-- The map with every value rewritten. -/
def mapVal {W : Type} (f : K → V → W) (m : GoMap K V) : GoMap K W where
  entries := m.entries.map fun e => ⟨e.1, f e.1 e.2⟩
  nodupKeys := by
    rw [← Multiset.nodup_keys, Multiset.keys, Multiset.map_map]
    exact Multiset.nodup_keys.mpr m.nodupKeys

theorem lookup_mapVal [DecidableEq K] {W : Type} (f : K → V → W) (m : GoMap K V) (k : K) :
    (m.mapVal f).lookup k = (m.lookup k).map (f k) := by
  ext w
  rw [Option.map_eq_some_iff, Finmap.lookup_eq_some_iff, mapVal, Multiset.mem_map]
  constructor
  · rintro ⟨⟨k', v⟩, hv, heq⟩
    cases heq
    exact ⟨v, Finmap.lookup_eq_some_iff.mpr hv, rfl⟩
  · rintro ⟨v, hv, rfl⟩
    exact ⟨⟨k, v⟩, Finmap.lookup_eq_some_iff.mp hv, rfl⟩

theorem mapVal_insert [DecidableEq K] {W : Type} (f : K → V → W) (m : GoMap K V) (k : K) (v : V) :
    mapVal f (m.insert k v) = (mapVal f m).insert k (f k v) := by
  refine Finmap.ext_lookup fun k' => ?_
  rw [lookup_mapVal, lookup_insert_ite, lookup_insert_ite, lookup_mapVal]
  split_ifs with h
  · rw [h, Option.map_some]
  · rfl

theorem mapVal_erase [DecidableEq K] {W : Type} (f : K → V → W) (m : GoMap K V) (k : K) :
    mapVal f (m.erase k) = (mapVal f m).erase k := by
  refine Finmap.ext_lookup fun k' => ?_
  rw [lookup_mapVal, lookup_erase_ite, lookup_erase_ite, lookup_mapVal]
  split_ifs <;> rfl

namespace Order

variable {m : GoMap K V}

theorem nodupKeys (o : m.Order) : o.list.NodupKeys := by
  rw [← Multiset.coe_nodupKeys, o.entries_eq]
  exact m.nodupKeys

theorem nodup_keys (o : m.Order) : (o.list.map Sigma.fst).Nodup := o.nodupKeys

/-- The order of a map whose values are rewritten. -/
def mapVal {W : Type} (o : m.Order) (f : K → V → W) : Order (GoMap.mapVal f m) where
  list := o.list.map fun e => ⟨e.1, f e.1 e.2⟩
  entries_eq := by
    rw [← Multiset.map_coe, o.entries_eq]
    rfl

theorem perm (o o' : m.Order) : o.list.Perm o'.list := by
  rw [← Multiset.coe_eq_coe, o.entries_eq, o'.entries_eq]

variable [DecidableEq K]

/-- What a range loop sees is what a lookup returns. -/
theorem mem_list_iff (o : m.Order) (k : K) (v : V) :
    ⟨k, v⟩ ∈ o.list ↔ m.lookup k = some v := by
  obtain ⟨l, hl⟩ := o
  induction m using Finmap.induction_on with
  | _ a =>
    have hp : l.Perm a.entries := by
      rw [← Multiset.coe_eq_coe, hl, AList.toFinmap_entries]
    rw [Finmap.lookup_toFinmap, hp.mem_iff]
    exact (List.mem_dlookup_iff a.nodupKeys).symm

theorem mem_keys_iff (o : m.Order) (k : K) : k ∈ o.list.map Sigma.fst ↔ k ∈ m := by
  rw [Finmap.mem_iff, List.mem_map]
  constructor
  · rintro ⟨⟨k', v⟩, hmem, rfl⟩
    exact ⟨v, (o.mem_list_iff k' v).mp hmem⟩
  · rintro ⟨v, hv⟩
    exact ⟨⟨k, v⟩, (o.mem_list_iff k v).mpr hv, rfl⟩

theorem filter_key (o : m.Order) (k : K) :
    (o.list.filter fun e => e.1 = k) = (m.lookup k).toList.map fun v => ⟨k, v⟩ := by
  have hmem : ∀ e ∈ o.list.filter fun e => e.1 = k, m.lookup k = some e.2 ∧ e.1 = k := by
    intro e he
    obtain ⟨he, hk⟩ := List.mem_filter.mp he
    have hk := of_decide_eq_true hk
    exact ⟨hk ▸ (o.mem_list_iff e.1 e.2).mp he, hk⟩
  have hnodup : (o.list.filter fun e => e.1 = k).Nodup :=
    (List.Nodup.of_map _ o.nodup_keys).filter _
  cases hl : m.lookup k with
  | none =>
    refine List.eq_nil_iff_forall_not_mem.mpr fun e he => ?_
    have := (hmem e he).1
    rw [hl] at this
    cases this
  | some v =>
    have hall : ∀ e ∈ o.list.filter fun e => e.1 = k, e = ⟨k, v⟩ := by
      rintro ⟨k', v'⟩ he
      obtain ⟨hv, rfl⟩ := hmem _ he
      rw [hl] at hv
      cases hv
      rfl
    have hin : (⟨k, v⟩ : Σ _ : K, V) ∈ o.list.filter fun e => e.1 = k := by
      rw [List.mem_filter]
      exact ⟨(o.mem_list_iff k v).mpr hl, by simp⟩
    generalize (o.list.filter fun e => e.1 = k) = l at hnodup hall hin ⊢
    match l with
    | [] => cases hin
    | [e] =>
      rw [hall e (List.mem_singleton_self e)]
      rfl
    | e :: e' :: rest =>
      have h1 := hall e (List.mem_cons_self ..)
      have h2 := hall e' (List.mem_cons_of_mem _ (List.mem_cons_self ..))
      rw [h1, h2] at hnodup
      simp at hnodup

omit [DecidableEq K] in
theorem length_list (o : m.Order) : o.list.length = m.keys.card := by
  have h : m.keys.card = Multiset.card m.entries := by
    simp only [Finset.card, Finmap.keys, Multiset.keys, Multiset.card_map]
  rw [h, ← o.entries_eq, Multiset.coe_card]

omit [DecidableEq K] in
theorem list_eq_of_card_le_one (o o' : m.Order) (h : m.keys.card ≤ 1) : o.list = o'.list := by
  have hlen := o.length_list
  have hp := o.perm o'
  match hl : o.list with
  | [] => rw [hl] at hp; exact hp.nil_eq
  | [e] => rw [hl] at hp; exact (List.perm_singleton.mp hp.symm).symm
  | _ :: _ :: _ =>
    rw [hl] at hlen
    simp only [List.length_cons] at hlen
    omega

omit [DecidableEq K] in
/-- A map with two entries or more can be visited with its first two swapped. -/
theorem exists_swap (o : m.Order) (h : 2 ≤ m.keys.card) :
    ∃ a b rest, ∃ o' : m.Order, o.list = a :: b :: rest ∧ o'.list = b :: a :: rest := by
  have hlen := o.length_list
  match hl : o.list with
  | [] =>
    rw [hl] at hlen
    simp only [List.length_nil] at hlen
    omega
  | [e] =>
    rw [hl] at hlen
    simp only [List.length_singleton] at hlen
    omega
  | a :: b :: rest =>
    refine ⟨a, b, rest, ⟨b :: a :: rest, ?_⟩, rfl, rfl⟩
    rw [← o.entries_eq, hl, Multiset.coe_eq_coe]
    exact List.Perm.swap ..

omit [DecidableEq K] in
theorem exists_first (o : m.Order) {e : Σ _ : K, V} (he : e ∈ o.list) :
    ∃ (o' : m.Order) (rest : List (Σ _ : K, V)), o'.list = e :: rest := by
  obtain ⟨l, l', hl⟩ := List.append_of_mem he
  refine ⟨⟨e :: (l ++ l'), ?_⟩, _, rfl⟩
  rw [← o.entries_eq, hl, Multiset.coe_eq_coe]
  exact List.perm_middle.symm

end Order

/-! ### The order of the keys -/

section

variable [LE K] [DecidableLE K] [Std.IsLinearOrder K]

def byKey (e e' : Σ _ : K, V) : Prop := e.1 ≤ e'.1

instance : DecidableRel (@byKey K V _) :=
  fun e e' => inferInstanceAs (Decidable (e.1 ≤ e'.1))

instance : Std.Total (@byKey K V _) := ⟨fun _ _ => Std.le_total⟩

instance : IsTrans _ (@byKey K V _) := ⟨fun _ _ _ => Std.le_trans⟩

theorem insertionSort_eq_of_perm {l l' : List (Σ _ : K, V)} (hl : l.NodupKeys) (h : l.Perm l') :
    l.insertionSort byKey = l'.insertionSort byKey := by
  have hp : (l.insertionSort byKey).Perm (l'.insertionSort byKey) :=
    ((List.perm_insertionSort byKey l).trans h).trans (List.perm_insertionSort byKey l').symm
  refine hp.eq_of_pairwise (fun a b ha hb hab hba => ?_) (List.pairwise_insertionSort byKey l)
    (List.pairwise_insertionSort byKey l')
  have ha' : a ∈ l := (List.perm_insertionSort byKey l).mem_iff.mp ha
  have hb' : b ∈ l := h.mem_iff.mpr ((List.perm_insertionSort byKey l').mem_iff.mp hb)
  exact hl.eq_of_fst_eq ha' hb' (Std.le_antisymm hab hba)

/-- The entries in ascending order of their keys. -/
def sorted (m : GoMap K V) : m.Order where
  list := m.liftOn (fun a => a.entries.insertionSort byKey)
    fun a _ h => insertionSort_eq_of_perm a.nodupKeys h
  entries_eq := by
    induction m using Finmap.induction_on with
    | _ a =>
      rw [Finmap.liftOn_toFinmap]
      exact Multiset.coe_eq_coe.mpr (List.perm_insertionSort byKey a.entries)

theorem pairwise_sorted (m : GoMap K V) : (sorted m).list.Pairwise byKey := by
  induction m using Finmap.induction_on with
  | _ a => exact List.pairwise_insertionSort byKey a.entries

end

/-! ### A loop that builds a map -/

section

variable [DecidableEq K]

/-- The map made of a list of entries, of those with one key the last. -/
def ofEntries (l : List (Σ _ : K, V)) : GoMap K V := l.foldl (fun m e => m.insert e.1 e.2) ∅

theorem lookup_ofEntries_iff {l : List (Σ _ : K, V)} (hl : (l.map Sigma.fst).Nodup) (k : K) (v : V) :
    (ofEntries l).lookup k = some v ↔ ⟨k, v⟩ ∈ l := by
  obtain ⟨hin, hout⟩ := lookup_foldl_update (fun _ (u : V) _ => u) hl (∅ : GoMap K V)
  constructor
  · intro h
    by_cases hk : k ∈ l.map Sigma.fst
    · obtain ⟨⟨k', u⟩, hmem, rfl⟩ := List.mem_map.mp hk
      have hu := (hin ⟨k', u⟩ hmem).symm.trans h
      cases hu
      exact hmem
    · have hnone := hout k hk
      rw [Finmap.lookup_empty] at hnone
      exact absurd (hnone.symm.trans h) nofun
  · exact fun h => hin ⟨k, v⟩ h

theorem ofEntries_list {m : GoMap K V} (range : m.Order) : ofEntries range.list = m := by
  refine Finmap.ext_lookup fun k => ?_
  ext v
  rw [lookup_ofEntries_iff range.nodup_keys, Order.mem_list_iff]

theorem lookup_ofEntries_filterMap {l : List K} (hl : l.Nodup) (f : K → Option V) (k : K) :
    (ofEntries (l.filterMap fun k => (f k).map (Sigma.mk k))).lookup k =
      if k ∈ l then f k else none := by
  have hnodup : ((l.filterMap fun k => (f k).map (Sigma.mk k)).map
      (Sigma.fst : (Σ _ : K, V) → K)).Nodup := by
    rw [List.map_filterMap]
    refine List.Nodup.sublist ?_ hl
    induction l with
    | nil => exact List.Sublist.refl _
    | cons k l ih =>
      cases hk : f k with
      | none =>
        rw [List.filterMap_cons_none (by rw [hk]; rfl)]
        exact (ih (List.nodup_cons.mp hl).2).cons k
      | some v =>
        rw [List.filterMap_cons_some (b := k) (by rw [hk]; rfl)]
        exact (ih (List.nodup_cons.mp hl).2).cons_cons k
  ext v
  rw [lookup_ofEntries_iff hnodup, List.mem_filterMap]
  constructor
  · rintro ⟨k', hk', hv⟩
    obtain ⟨v', hv', heq⟩ := Option.map_eq_some_iff.mp hv
    cases heq
    rw [if_pos hk', hv']
  · intro hv
    split_ifs at hv with hk
    exact ⟨k, hk, by rw [hv]; rfl⟩

end

/-! ### A loop that picks entries in the order of the keys -/

section

variable [DecidableEq K] [LE K] [DecidableLE K] [Std.IsLinearOrder K] {V' W : Type}

/-- What a loop picks, with its keys. -/
def picked (m : GoMap K V) (f : K → V → Option W) : List (Σ _ : K, W) :=
  (sorted m).list.filterMap fun e => (f e.1 e.2).map (Sigma.mk e.1)

theorem mem_picked_iff (m : GoMap K V) (f : K → V → Option W) (k : K) (w : W) :
    ⟨k, w⟩ ∈ picked m f ↔ (m.lookup k).bind (f k) = some w := by
  simp only [picked, List.mem_filterMap, Option.map_eq_some_iff, Option.bind_eq_some_iff]
  constructor
  · rintro ⟨⟨k', v⟩, hmem, w', hw, heq⟩
    cases heq
    exact ⟨v, ((sorted m).mem_list_iff k' v).mp hmem, hw⟩
  · rintro ⟨v, hv, hw⟩
    exact ⟨⟨k, v⟩, ((sorted m).mem_list_iff k v).mpr hv, w, hw, rfl⟩

omit [DecidableEq K] in
theorem pairwise_picked (m : GoMap K V) (f : K → V → Option W) {R : K → K → Prop}
    (h : (sorted m).list.Pairwise fun e e' => R e.1 e'.1) :
    (picked m f).Pairwise fun e e' => R e.1 e'.1 := by
  refine h.filterMap _ ?_
  rintro ⟨k, v⟩ ⟨k', v'⟩ hR e he e' he'
  obtain ⟨w, -, rfl⟩ := Option.map_eq_some_iff.mp he
  obtain ⟨w', -, rfl⟩ := Option.map_eq_some_iff.mp he'
  exact hR

/-- The map of what a loop picks. -/
def collect (m : GoMap K V) (f : K → V → Option W) : GoMap K W := ofEntries (picked m f)

omit [DecidableEq K] in
theorem nodup_keys_picked (m : GoMap K V) (f : K → V → Option W) :
    ((picked m f).map Sigma.fst).Nodup := by
  have hdistinct := List.nodupKeys_iff_pairwise.mp (sorted m).nodupKeys
  exact List.nodupKeys_iff_pairwise.mpr (pairwise_picked m f hdistinct)

theorem lookup_collect (m : GoMap K V) (f : K → V → Option W) (k : K) :
    (collect m f).lookup k = (m.lookup k).bind (f k) := by
  ext w
  rw [collect, lookup_ofEntries_iff (nodup_keys_picked m f)]
  exact mem_picked_iff m f k w

theorem filterMap_sorted_congr {m : GoMap K V} {m' : GoMap K V'} {f : K → V → Option W}
    {g : K → V' → Option W} (h : ∀ k, (m.lookup k).bind (f k) = (m'.lookup k).bind (g k)) :
    (sorted m).list.filterMap (fun e => f e.1 e.2) =
      (sorted m').list.filterMap (fun e => g e.1 e.2) := by
  have hvalues {U : Type} (m : GoMap K U) (f : K → U → Option W) :
      (sorted m).list.filterMap (fun e => f e.1 e.2) = (picked m f).map Sigma.snd := by
    rw [picked, List.map_filterMap]
    refine congrArg (fun F => List.filterMap F (sorted m).list) (funext fun e => ?_)
    cases f e.1 e.2 <;> rfl
  have hkeys {U : Type} (m : GoMap K U) (f : K → U → Option W) :
      (picked m f).NodupKeys :=
    List.nodupKeys_iff_pairwise.mpr
      (pairwise_picked m f (List.nodupKeys_iff_pairwise.mp (sorted m).nodupKeys))
  have hnodup {U : Type} (m : GoMap K U) (f : K → U → Option W) : (picked m f).Nodup :=
    (hkeys m f).nodup
  have hperm : (picked m f).Perm (picked m' g) := by
    rw [List.perm_ext_iff_of_nodup (hnodup m f) (hnodup m' g)]
    rintro ⟨k, w⟩
    rw [mem_picked_iff, mem_picked_iff, h]
  have hsorted : picked m f = picked m' g := by
    refine hperm.eq_of_pairwise (fun e e' he he' hle hge => ?_)
      (pairwise_picked m f (pairwise_sorted m)) (pairwise_picked m' g (pairwise_sorted m'))
    have hkey : e.1 = e'.1 := Std.le_antisymm hle hge
    exact (hkeys m f).eq_of_fst_eq he (hperm.mem_iff.mpr he') hkey
  rw [hvalues, hvalues, hsorted]

end

end GoMap

end GoLib
