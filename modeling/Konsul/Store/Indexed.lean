import Konsul.Raft.Cleanup

/-!
# The indexes mirror the data

`TagIndex.marks` and `MetaIndex.names` read the two indexes. An update of a
service's tags or metadata changes what they read for this service alone, so an
index that mirrors the registered services (`Mirror`) mirrors them again after a
registration, a removal, or a cleanup.
-/

namespace Konsul

open GoLib

/-! ### The tag index -/

namespace TagIndex

/-- The mark of a service under a tag. -/
def marks (ix : TagIndex) (tag name : GoString) : Option Bool :=
  (ix.lookup tag).bind fun services => services.lookup name

theorem marks_add (ix : TagIndex) (name tag t n : GoString) :
    (ix.add name tag).marks t n = if t = tag ∧ n = name then some true else ix.marks t n := by
  simp only [marks, add, GoMap.lookup_insert_ite]
  by_cases ht : t = tag
  · subst ht
    simp only [ite_true, Option.bind_some, GoMap.lookup_insert_ite, true_and]
    split_ifs with hn
    · rfl
    · cases ix.lookup t <;> rfl
  · simp only [ht, ite_false, false_and]

theorem marks_remove (ix : TagIndex) (name tag t n : GoString) :
    (ix.remove name tag).marks t n = if t = tag ∧ n = name then none else ix.marks t n := by
  unfold remove
  cases hl : ix.lookup tag with
  | none =>
    split_ifs with h
    · obtain ⟨rfl, rfl⟩ := h
      simp only [marks, hl, Option.bind_none]
    · rfl
  | some services =>
    by_cases ht : t = tag
    · subst ht
      have hread : (services.erase name).lookup n = if n = name then none else ix.marks t n := by
        simp only [GoMap.lookup_erase_ite, marks, hl, Option.bind_some]
      simp only [true_and, ← hread]
      -- a tag whose last service goes is dropped, and reads as an empty set would
      split_ifs with hempty
      · rw [hempty]
        simp only [marks, Finmap.lookup_erase, Option.bind_none, Finmap.lookup_empty]
      · simp only [marks, Finmap.lookup_insert, Option.bind_some]
    · simp only [ht, false_and, ite_false]
      split_ifs with hempty
      · simp only [marks, GoMap.lookup_erase_ite, if_neg ht]
      · simp only [marks, GoMap.lookup_insert_ite, if_neg ht]

theorem marks_addToTagIndex (ix : TagIndex) (name : GoString) (tags : List GoString)
    (t n : GoString) :
    (addToTagIndex ix name tags).marks t n =
      if n = name ∧ t ∈ tags then some true else ix.marks t n := by
  induction tags generalizing ix with
  | nil => simp only [addToTagIndex, List.foldl_nil, List.not_mem_nil, and_false, ite_false]
  | cons tag tags ih =>
    have h := ih (ix.add name tag)
    rw [marks_add] at h
    rw [addToTagIndex, List.foldl_cons]
    rw [addToTagIndex] at h
    rw [h]
    by_cases hn : n = name <;> by_cases ht : t = tag <;> by_cases hm : t ∈ tags <;>
      simp [hn, ht, hm]

theorem marks_removeFromTagIndex (ix : TagIndex) (name : GoString) (tags : List GoString)
    (t n : GoString) :
    (removeFromTagIndex ix name tags).marks t n =
      if n = name ∧ t ∈ tags then none else ix.marks t n := by
  induction tags generalizing ix with
  | nil => simp only [removeFromTagIndex, List.foldl_nil, List.not_mem_nil, and_false, ite_false]
  | cons tag tags ih =>
    have h := ih (ix.remove name tag)
    rw [marks_remove] at h
    rw [removeFromTagIndex, List.foldl_cons]
    rw [removeFromTagIndex] at h
    rw [h]
    by_cases hn : n = name <;> by_cases ht : t = tag <;> by_cases hm : t ∈ tags <;>
      simp [hn, ht, hm]

end TagIndex

/-! ### The metadata index -/

namespace MetaIndex

/-- The services listed under a pair. -/
def names (ix : MetaIndex) (key value : GoString) : List GoString :=
  ((ix.lookup key).bind fun values => values.lookup value).getD []

theorem names_add (ix : MetaIndex) (name key value k v : GoString) :
    (ix.add name key value).names k v =
      if k = key ∧ v = value then ix.names k v ++ [name] else ix.names k v := by
  simp only [names, add, GoMap.lookup_insert_ite]
  by_cases hk : k = key
  · subst hk
    simp only [ite_true, Option.bind_some, GoMap.lookup_insert_ite, true_and]
    by_cases hv : v = value
    · subst hv
      simp only [ite_true, Option.getD_some]
      cases ix.lookup k <;> rfl
    · simp only [if_neg hv]
      cases ix.lookup k <;> rfl
  · simp only [hk, ite_false, false_and]

theorem names_remove (ix : MetaIndex) (name key value k v : GoString) :
    (ix.remove name key value).names k v =
      if k = key ∧ v = value then (ix.names k v).erase name else ix.names k v := by
  unfold remove
  cases hl : ix.lookup key with
  | none =>
    split_ifs with h
    · obtain ⟨rfl, rfl⟩ := h
      simp only [names, hl, Option.bind_none, Option.getD_none, List.erase_nil]
    · rfl
  | some values =>
    by_cases hk : k = key
    · subst hk
      -- what the updated map of values reads; empty lists and maps are dropped
      have hread (updated : GoMap GoString (List GoString)) :
          (if updated = ∅ then ix.erase k else ix.insert k updated : MetaIndex).names k v =
            (updated.lookup v).getD [] := by
        split_ifs with hempty
        · rw [hempty]
          simp only [names, Finmap.lookup_erase, Option.bind_none, Finmap.lookup_empty]
        · simp only [names, Finmap.lookup_insert, Option.bind_some]
      rw [hread]
      simp only [true_and, names, hl, Option.bind_some]
      cases hv : values.lookup value with
      | none =>
        dsimp only
        split_ifs with h
        · subst h
          simp only [hv, Option.getD_none, List.erase_nil]
        · rfl
      | some services =>
        dsimp only
        by_cases h : v = value
        · subst h
          simp only [hv, ite_true, Option.getD_some]
          split_ifs with hempty
          · rw [hempty, Finmap.lookup_erase, Option.getD_none]
          · rw [Finmap.lookup_insert, Option.getD_some]
        · simp only [if_neg h]
          split_ifs with hempty
          · rw [GoMap.lookup_erase_ite, if_neg h]
          · rw [GoMap.lookup_insert_ite, if_neg h]
    · simp only [hk, false_and, ite_false]
      split_ifs with hempty
      · simp only [names, GoMap.lookup_erase_ite, if_neg hk]
      · simp only [names, GoMap.lookup_insert_ite, if_neg hk]

/-- A list of pairs with distinct keys changes the count under each pair once. -/
theorem count_foldl (step : MetaIndex → GoString → GoString → MetaIndex) (name : GoString)
    (change : ℕ → ℕ)
    (hstep : ∀ ix key value k v n, ((step ix key value).names k v).count n =
      if n = name ∧ k = key ∧ v = value then change ((ix.names k v).count n)
      else (ix.names k v).count n)
    (ix : MetaIndex) {pairs : List (Σ _ : GoString, GoString)} (hpairs : pairs.NodupKeys)
    (k v n : GoString) :
    ((pairs.foldl (fun ix pair => step ix pair.1 pair.2) ix).names k v).count n =
      if n = name ∧ ⟨k, v⟩ ∈ pairs then change ((ix.names k v).count n)
      else (ix.names k v).count n := by
  induction pairs generalizing ix with
  | nil => simp only [List.foldl_nil, List.not_mem_nil, and_false, ite_false]
  | cons pair pairs ih =>
    obtain ⟨hnew, htail⟩ := List.nodupKeys_cons.mp hpairs
    obtain ⟨key, value⟩ := pair
    rw [List.foldl_cons, ih _ htail, hstep]
    by_cases hmem : (⟨k, v⟩ : Σ _ : GoString, GoString) ∈ pairs
    · have hk : k ≠ key := by
        intro hk
        have hkey := List.mem_keys_of_mem hmem
        rw [hk] at hkey
        exact hnew hkey
      simp only [hk, false_and, and_false, ite_false, hmem, List.mem_cons, or_true, and_true]
    · have hpair : (⟨k, v⟩ : Σ _ : GoString, GoString) = ⟨key, value⟩ ↔ k = key ∧ v = value := by
        simp
      simp only [hmem, and_false, ite_false, List.mem_cons, or_false, hpair]

theorem beq_eq_decide_symm (name n : GoString) : (name == n) = decide (n = name) := by
  rw [Bool.beq_eq_decide_eq]
  exact decide_eq_decide.mpr eq_comm

theorem count_addAll (ix : MetaIndex) (name : GoString) {pairs : List (Σ _ : GoString, GoString)}
    (hpairs : pairs.NodupKeys) (k v n : GoString) :
    ((pairs.foldl (fun ix pair => ix.add name pair.1 pair.2) ix).names k v).count n =
      (ix.names k v).count n + if n = name ∧ ⟨k, v⟩ ∈ pairs then 1 else 0 := by
  rw [count_foldl (fun ix => ix.add name) name (· + 1) (fun ix key value k v n => ?_) ix hpairs]
  · split_ifs <;> rfl
  · rw [names_add]
    by_cases hpair : k = key ∧ v = value
    · simp only [hpair, and_self, and_true, ite_true, List.count_append, List.count_singleton,
        beq_eq_decide_symm, decide_eq_true_eq]
      split_ifs <;> rfl
    · simp only [hpair, and_false, ite_false]

theorem count_removeAll (ix : MetaIndex) (name : GoString)
    {pairs : List (Σ _ : GoString, GoString)} (hpairs : pairs.NodupKeys) (k v n : GoString) :
    ((pairs.foldl (fun ix pair => ix.remove name pair.1 pair.2) ix).names k v).count n =
      (ix.names k v).count n - if n = name ∧ ⟨k, v⟩ ∈ pairs then 1 else 0 := by
  rw [count_foldl (fun ix => ix.remove name) name (· - 1) (fun ix key value k v n => ?_) ix hpairs]
  · split_ifs <;> rfl
  · rw [names_remove]
    by_cases hpair : k = key ∧ v = value
    · simp only [hpair, and_self, and_true, ite_true, List.count_erase, beq_eq_decide_symm,
        decide_eq_true_eq]
      split_ifs <;> rfl
    · simp only [hpair, and_false, ite_false]

end MetaIndex

theorem count_addToMetaIndex (ix : MetaIndex) (name : GoString) (m : GoMap GoString GoString)
    (k v n : GoString) :
    ((addToMetaIndex ix name m).names k v).count n =
      (ix.names k v).count n + if n = name ∧ m.lookup k = some v then 1 else 0 := by
  have h := ix.count_addAll name (GoMap.sorted m).nodupKeys k v n
  simp only [(GoMap.sorted m).mem_list_iff] at h
  exact h

theorem count_removeFromMetaIndex (ix : MetaIndex) (name : GoString) (m : GoMap GoString GoString)
    (k v n : GoString) :
    ((removeFromMetaIndex ix name m).names k v).count n =
      (ix.names k v).count n - if n = name ∧ m.lookup k = some v then 1 else 0 := by
  have h := ix.count_removeAll name (GoMap.sorted m).nodupKeys k v n
  simp only [(GoMap.sorted m).mem_list_iff] at h
  exact h

/-! ### Mirrored services -/

/-- The indexes list exactly the tags and metadata of the given services. -/
structure Mirror (tagIndex : TagIndex) (metaIndex : MetaIndex)
    (services : GoString → Option Service) : Prop where
  tags : ∀ tag name, tagIndex.marks tag name =
    if (services name).any (fun service => tag ∈ service.tags) then some true else none
  pairs : ∀ key value name, (metaIndex.names key value).count name =
    if (services name).any (fun service => service.metadata.lookup key = some value) then 1 else 0

namespace Mirror

variable {tagIndex : TagIndex} {metaIndex : MetaIndex} {services : GoString → Option Service}

theorem unindex (h : Mirror tagIndex metaIndex services) {name : GoString} {service : Service}
    (hservice : services name = some service) :
    Mirror (removeFromTagIndex tagIndex name service.tags)
      (removeFromMetaIndex metaIndex name service.metadata)
      (Function.update services name none) := by
  refine ⟨fun tag n => ?_, fun key value n => ?_⟩
  · rw [TagIndex.marks_removeFromTagIndex, h.tags]
    by_cases hn : n = name
    · subst hn
      simp only [true_and, hservice, Function.update_self, Option.any_none, Option.any_some,
        Bool.false_eq_true, ite_false, decide_eq_true_eq]
      split_ifs <;> rfl
    · simp only [hn, false_and, ite_false, Function.update_of_ne hn]
  · rw [count_removeFromMetaIndex, h.pairs]
    by_cases hn : n = name
    · subst hn
      simp only [true_and, hservice, Function.update_self, Option.any_none, Option.any_some,
        Bool.false_eq_true, ite_false, decide_eq_true_eq]
      split_ifs <;> rfl
    · simp only [hn, false_and, ite_false, Function.update_of_ne hn, Nat.sub_zero]

theorem index (h : Mirror tagIndex metaIndex services) {name : GoString} (service : Service)
    (hname : services name = none) :
    Mirror (addToTagIndex tagIndex name service.tags)
      (addToMetaIndex metaIndex name service.metadata)
      (Function.update services name (some service)) := by
  refine ⟨fun tag n => ?_, fun key value n => ?_⟩
  · rw [TagIndex.marks_addToTagIndex, h.tags]
    by_cases hn : n = name
    · subst hn
      simp only [true_and, hname, Function.update_self, Option.any_none, Option.any_some,
        Bool.false_eq_true, ite_false, decide_eq_true_eq]
    · simp only [hn, false_and, ite_false, Function.update_of_ne hn]
  · rw [count_addToMetaIndex, h.pairs]
    by_cases hn : n = name
    · subst hn
      simp only [true_and, hname, Function.update_self, Option.any_none, Option.any_some,
        Bool.false_eq_true, ite_false, decide_eq_true_eq, Nat.zero_add]
    · simp only [hn, false_and, ite_false, Function.update_of_ne hn, Nat.add_zero]

end Mirror

namespace ServiceTable

/-- The service registered under a name. -/
def service (t : ServiceTable) (name : GoString) : Option Service :=
  (t.data.lookup name).map ServiceEntry.service

/-- The indexes mirror the data, and a service stands under its own name. -/
structure Indexed (t : ServiceTable) : Prop where
  mirror : Mirror t.tagIndex t.metaIndex t.service
  name : ∀ name service, t.service name = some service → service.name = name

variable {t : ServiceTable}

theorem indexed_empty (globalIndex : UInt64) : Indexed ⟨∅, ∅, ∅, globalIndex⟩ :=
  ⟨⟨fun _ _ => rfl, fun _ _ _ => rfl⟩, fun _ _ h => nomatch h⟩

/-- The indexes list the registered services under the names they are registered under. -/
abbrev Mirrored (t : ServiceTable) : Prop := Mirror t.tagIndex t.metaIndex t.service

theorem Mirrored.unindexOld (h : t.Mirrored) (name : GoString) :
    Mirror (t.unindexOld name).tagIndex (t.unindexOld name).metaIndex
      (Function.update t.service name none) := by
  unfold ServiceTable.unindexOld
  cases hl : t.data.lookup name with
  | some e => exact h.unindex (congrArg (Option.map ServiceEntry.service) hl)
  | none =>
    have hnone : t.service name = none := congrArg (Option.map ServiceEntry.service) hl
    rw [← hnone, Function.update_eq_self]
    exact h

theorem service_put (t : ServiceTable) (service : Service) (expiresAt : Time) :
    (t.put service expiresAt).service = Function.update t.service service.name (some service) := by
  funext name
  by_cases hname : name = service.name
  · rw [hname, Function.update_self, ServiceTable.service, put_data, Finmap.lookup_insert]
    rfl
  · rw [Function.update_of_ne hname, ServiceTable.service, put_data,
      Finmap.lookup_insert_of_ne _ hname]
    rfl

theorem service_remove (t : ServiceTable) (name : GoString) :
    (t.remove name).service = Function.update t.service name none := by
  funext n
  by_cases hn : n = name
  · rw [hn, Function.update_self, ServiceTable.service, remove_data, Finmap.lookup_erase]
    rfl
  · rw [Function.update_of_ne hn, ServiceTable.service, remove_data, Finmap.lookup_erase_ne hn]
    rfl

theorem service_touch {name : GoString} {entry : ServiceEntry}
    (hentry : t.data.lookup name = some entry) (expiresAt : Time) :
    (t.touch name entry expiresAt).service = t.service := by
  funext n
  simp only [service, ServiceTable.touch, GoMap.lookup_insert_ite]
  split_ifs with hn
  · rw [hn, hentry]
    rfl
  · rfl

theorem Mirrored.put (h : t.Mirrored) (service : Service) (expiresAt : Time) :
    (t.put service expiresAt).Mirrored := by
  have hold := h.unindexOld service.name
  have hnew := hold.index service (Function.update_self ..)
  rw [Function.update_idem] at hnew
  rw [Mirrored, service_put]
  exact hnew

theorem Mirrored.remove (h : t.Mirrored) (name : GoString) : (t.remove name).Mirrored := by
  rw [Mirrored, service_remove]
  exact h.unindexOld name

theorem Mirrored.touch (h : t.Mirrored) {name : GoString} {entry : ServiceEntry}
    (hentry : t.data.lookup name = some entry) (expiresAt : Time) :
    (t.touch name entry expiresAt).Mirrored := by
  rw [Mirrored, service_touch hentry]
  exact h

theorem Indexed.put (h : t.Indexed) (service : Service) (expiresAt : Time) :
    (t.put service expiresAt).Indexed := by
  refine ⟨Mirrored.put h.mirror service expiresAt, fun name s hs => ?_⟩
  rw [service_put] at hs
  by_cases hname : name = service.name
  · rw [hname, Function.update_self] at hs
    cases hs
    exact hname.symm
  · rw [Function.update_of_ne hname] at hs
    exact h.name name s hs

theorem Indexed.remove (h : t.Indexed) (name : GoString) : (t.remove name).Indexed := by
  refine ⟨Mirrored.remove h.mirror name, fun n s hs => ?_⟩
  rw [service_remove] at hs
  by_cases hn : n = name
  · rw [hn, Function.update_self] at hs
    cases hs
  · rw [Function.update_of_ne hn] at hs
    exact h.name n s hs

theorem Indexed.removeAll (h : t.Indexed) (names : List GoString) : (t.removeAll names).Indexed := by
  induction names generalizing t with
  | nil => exact h
  | cons name names ih => exact ih (h.remove name)

theorem Indexed.touch (h : t.Indexed) {name : GoString} {entry : ServiceEntry}
    (hentry : t.data.lookup name = some entry) (expiresAt : Time) :
    (t.touch name entry expiresAt).Indexed := by
  refine ⟨Mirrored.touch h.mirror hentry expiresAt, ?_⟩
  rw [service_touch hentry]
  exact h.name

end ServiceTable

end Konsul
