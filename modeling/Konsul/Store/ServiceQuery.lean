import Konsul.Store.Indexed

/-!
# Queries of the service store

`List` and the queries by tags and metadata. The queries work on the indexes,
with maps of names as sets; where the indexes mirror the data they find what a
scan of the data finds (`scan`), in the order of the names, whatever the orders
of their loops.
-/

namespace Konsul

open GoLib

/-! ### Sets of names -/

/-- `make(map[string]bool)` with every name of a list set to true. -/
def setOf (names : List GoString) : GoMap GoString Bool :=
  names.foldl (fun m name => m.insert name true) ∅

/-- `m[name]`, false for a name that is not there. -/
def has (m : GoMap GoString Bool) (name : GoString) : Bool := (m.lookup name).getD false

/-- The loop that deletes the candidates without a mark in another set. -/
def intersect (candidates : GoMap GoString Bool) (keep : GoString → Bool) : GoMap GoString Bool :=
  candidates.eraseAll (((GoMap.sorted candidates).list.map Sigma.fst).filter fun name => ! keep name)

theorem lookup_foldl_insert (m : GoMap GoString Bool) (names : List GoString) (name : GoString) :
    (names.foldl (fun m name => m.insert name true) m).lookup name =
      if name ∈ names then some true else m.lookup name := by
  induction names generalizing m with
  | nil => simp only [List.foldl_nil, List.not_mem_nil, ite_false]
  | cons n names ih =>
    rw [List.foldl_cons, ih, GoMap.lookup_insert_ite]
    by_cases h1 : name = n <;> by_cases h2 : name ∈ names <;> simp [h1, h2]

theorem mem_setOf_iff (names : List GoString) (name : GoString) :
    name ∈ setOf names ↔ name ∈ names := by
  rw [← not_iff_not, ← Finmap.lookup_eq_none, setOf, lookup_foldl_insert]
  by_cases h : name ∈ names <;> simp [h]

theorem has_setOf_iff (names : List GoString) (name : GoString) :
    has (setOf names) name = true ↔ name ∈ names := by
  rw [has, setOf, lookup_foldl_insert]
  by_cases h : name ∈ names <;> simp [h]

theorem mem_intersect_iff (candidates : GoMap GoString Bool) (keep : GoString → Bool)
    (name : GoString) : name ∈ intersect candidates keep ↔ name ∈ candidates ∧ keep name = true := by
  rw [← not_iff_not, intersect, GoMap.notMem_eraseAll_iff, List.mem_filter, GoMap.Order.mem_keys_iff]
  cases keep name <;> simp [Classical.or_iff_not_imp_left]

/-- `GetEntrySnapshot`. -/
def ServiceStore.getEntrySnapshot (s : ServiceStore) (now : Time) (name : GoString) :
    Option ServiceEntrySnapshot :=
  (s.getEntry now name).map ServiceEntry.toSnapshot

namespace ServiceTable

/-! ### The queries -/

/-- `List`. -/
def list (t : ServiceTable) (now : Time) (range : t.data.Order) : List Service :=
  range.list.filterMap fun e => if e.2.expiresAt > now then some e.2.service else none

/-- `ListAll`. -/
def listAll (t : ServiceTable) (range : t.data.Order) : List ServiceEntry :=
  range.list.map Sigma.snd

theorem mem_listAll_iff {t : ServiceTable} (range : t.data.Order) (e : ServiceEntry) :
    e ∈ t.listAll range ↔ ∃ name, t.data.lookup name = some e := by
  simp only [listAll, List.mem_map, Sigma.exists, GoMap.Order.mem_list_iff, exists_eq_right]

theorem coe_listAll {t : ServiceTable} (range : t.data.Order) :
    (t.listAll range : Multiset ServiceEntry) = t.data.entries.map Sigma.snd := by
  rw [listAll, ← Multiset.map_coe, range.entries_eq]

theorem card_listAll {t : ServiceTable} (range : t.data.Order) :
    (t.listAll range).length = t.data.entries.card := by
  rw [← Multiset.coe_card, coe_listAll, Multiset.card_map]

/-- The last loop of a query: the live services of the candidates, sorted by name. -/
def found (t : ServiceTable) (now : Time) (candidates : GoMap GoString Bool) : List Service :=
  (GoMap.sorted candidates).list.filterMap fun e =>
    match t.data.lookup e.1 with
    | some entry => if entry.expiresAt > now then some entry.service else none
    | none => none

/-- Intersection with the other tags; `none` where a tag has no services. -/
def intersectTags (t : ServiceTable) (candidates : GoMap GoString Bool) :
    List GoString → Option (GoMap GoString Bool)
  | [] => some candidates
  | tag :: tags =>
    match t.tagIndex.lookup tag with
    | some services => t.intersectTags (intersect candidates (has services)) tags
    | none => none

def queryByTags (t : ServiceTable) (now : Time) (tags : List GoString) (range : t.data.Order) :
    List Service :=
  match tags with
  | [] => t.list now range
  | tag :: tags =>
    match t.tagIndex.lookup tag with
    | none => []
    | some services =>
      match t.intersectTags (services.mapVal fun _ _ => true) tags with
      | none => []
      | some candidates => t.found now candidates

/-- `s.MetaIndex[key][value]`. -/
def listed (t : ServiceTable) (key value : GoString) : Option (List GoString) :=
  (t.metaIndex.lookup key).bind fun values => values.lookup value

/-- Intersection with the other filters. -/
def intersectPairs (t : ServiceTable) (firstKey : GoString) (candidates : GoMap GoString Bool) :
    List (Σ _ : GoString, GoString) → Option (GoMap GoString Bool)
  | [] => some candidates
  | ⟨key, value⟩ :: pairs =>
    if key = firstKey then t.intersectPairs firstKey candidates pairs
    else
      match t.listed key value with
      | some services =>
        t.intersectPairs firstKey (intersect candidates (has (setOf services))) pairs
      | none => none

/-- `first` is the order of the loop that picks the first filter. -/
def queryByMetadata (t : ServiceTable) (now : Time) (filters : GoMap GoString GoString)
    (first rest : filters.Order) (range : t.data.Order) : List Service :=
  match first.list with
  | [] => t.list now range
  | ⟨firstKey, firstValue⟩ :: _ =>
    match t.listed firstKey firstValue with
    | none => []
    | some services =>
      match t.intersectPairs firstKey (setOf services) rest.list with
      | none => []
      | some candidates => t.found now candidates

/-- `QueryByTagsAndMetadata` looks at the clock in each of its two queries. -/
def queryByTagsAndMetadata (t : ServiceTable) (now now' : Time) (tags : List GoString)
    (filters : GoMap GoString GoString) (first rest : filters.Order) (range : t.data.Order) :
    List Service :=
  if tags = [] then t.queryByMetadata now filters first rest range
  else if filters.keys.card = 0 then t.queryByTags now tags range
  else
    let tagServices := t.queryByTags now tags range
    if tagServices = [] then []
    else
      let metaServices := t.queryByMetadata now' filters first rest range
      if metaServices = [] then []
      else
        let tagServiceSet := setOf (tagServices.map Service.name)
        (metaServices.filter fun svc => has tagServiceSet svc.name).insertionSort
          fun a b => a.name ≤ b.name

/-! ### What they find -/

/-- The live services a scan of the data finds, in the order of their names. -/
def scan (t : ServiceTable) (now : Time) (p : Service → Bool) : List Service :=
  (GoMap.sorted t.data).list.filterMap fun e =>
    if e.2.expiresAt > now ∧ p e.2.service then some e.2.service else none

def HasTags (tags : List GoString) (service : Service) : Bool :=
  tags.all fun tag => tag ∈ service.tags

def HasPairs (pairs : List (Σ _ : GoString, GoString)) (service : Service) : Bool :=
  pairs.all fun pair => service.metadata.lookup pair.1 = some pair.2

variable {t : ServiceTable}

theorem found_eq_scan (candidates : GoMap GoString Bool) {p : Service → Bool}
    (h : ∀ name service, t.service name = some service → (name ∈ candidates ↔ p service = true))
    (now : Time) : t.found now candidates = t.scan now p := by
  let f (name : GoString) (_ : Bool) : Option Service :=
    match t.data.lookup name with
    | some entry => if entry.expiresAt > now then some entry.service else none
    | none => none
  let g (_ : GoString) (entry : ServiceEntry) : Option Service :=
    if entry.expiresAt > now ∧ p entry.service then some entry.service else none
  refine GoMap.filterMap_sorted_congr (f := f) (g := g) fun name => ?_
  simp only [f, g]
  cases he : t.data.lookup name with
  | none => cases candidates.lookup name <;> rfl
  | some entry =>
    have hname := h name entry.service (congrArg (Option.map ServiceEntry.service) he)
    rw [Option.bind_some]
    cases hc : candidates.lookup name with
    | none =>
      have hp : ¬ p entry.service = true := fun hp =>
        Finmap.lookup_eq_none.mp hc (hname.mpr hp)
      exact (if_neg fun hfound => hp hfound.2).symm
    | some b =>
      have hp : p entry.service = true := hname.mp (Finmap.mem_of_lookup_eq_some hc)
      simp only [Option.bind_some, hp, and_true]

theorem scan_eq_nil {p : Service → Bool}
    (h : ∀ name service, t.service name = some service → p service = false) (now : Time) :
    t.scan now p = [] := by
  rw [← found_eq_scan ∅ (fun name service hs => ?_)]
  · rfl
  · simp [h name service hs, Finmap.notMem_empty]

/-- What an intersection leaves is looked up; without one nothing is found. -/
theorem foundIn_eq_scan (left : Option (GoMap GoString Bool)) {p : Service → Bool}
    (h : ∀ {name service}, t.service name = some service →
      ((∃ candidates, left = some candidates ∧ name ∈ candidates) ↔ p service = true))
    (now : Time) :
    left.elim [] (t.found now) = t.scan now p := by
  cases left with
  | none =>
    refine (scan_eq_nil (fun name service hname => ?_) now).symm
    simpa using h hname
  | some candidates =>
    refine found_eq_scan candidates (fun name service hname => ?_) now
    simpa using h hname

theorem Mirrored.mem_tag_iff (h : t.Mirrored) {tag : GoString} {services : GoMap GoString Bool}
    (hs : t.tagIndex.lookup tag = some services) {name : GoString} {service : Service}
    (hname : t.service name = some service) :
    (name ∈ services ↔ tag ∈ service.tags) ∧ (has services name = true ↔ tag ∈ service.tags) := by
  have hmarks := h.tags tag name
  rw [TagIndex.marks, hs, Option.bind_some, hname, Option.any_some] at hmarks
  rw [← not_iff_not, ← Finmap.lookup_eq_none, has, hmarks]
  by_cases htag : tag ∈ service.tags <;> simp [htag]

theorem Mirrored.notMem_tag (h : t.Mirrored) {tag : GoString} (hs : t.tagIndex.lookup tag = none)
    {name : GoString} {service : Service} (hname : t.service name = some service) :
    tag ∉ service.tags := by
  have hmarks := h.tags tag name
  rw [TagIndex.marks, hs, Option.bind_none, hname, Option.any_some] at hmarks
  intro htag
  simp [htag] at hmarks

theorem Mirrored.mem_pair_iff (h : t.Mirrored) (key value : GoString) {name : GoString} {service : Service}
    (hname : t.service name = some service) :
    name ∈ (t.listed key value).getD [] ↔ service.metadata.lookup key = some value := by
  have hcount := h.pairs key value name
  rw [hname, Option.any_some] at hcount
  rw [← List.count_pos_iff, listed, ← MetaIndex.names, hcount]
  by_cases hpair : service.metadata.lookup key = some value <;> simp [hpair]

/-- The candidates left by the other tags, or none where some tag has no service. -/
theorem intersectTags_spec (h : t.Mirrored) (tags : List GoString)
    (candidates : GoMap GoString Bool) {name : GoString} {service : Service}
    (hname : t.service name = some service) :
    (∃ left, t.intersectTags candidates tags = some left ∧ name ∈ left) ↔
      name ∈ candidates ∧ HasTags tags service = true := by
  induction tags generalizing candidates with
  | nil => simp [intersectTags, HasTags]
  | cons tag tags ih =>
    rw [intersectTags, HasTags, List.all_cons, Bool.and_eq_true, decide_eq_true_eq]
    cases hs : t.tagIndex.lookup tag with
    | none =>
      have hno := h.notMem_tag hs hname
      simp [hno]
    | some services =>
      dsimp only
      rw [ih, mem_intersect_iff, (h.mem_tag_iff hs hname).2, and_assoc]
      rfl

theorem queryByTags_eq_scan (h : t.Mirrored) (now : Time) {tags : List GoString} (htags : tags ≠ [])
    (range : t.data.Order) : t.queryByTags now tags range = t.scan now (HasTags tags) := by
  cases tags with
  | nil => exact absurd rfl htags
  | cons tag tags =>
    rw [queryByTags]
    cases hs : t.tagIndex.lookup tag with
    | none =>
      refine (scan_eq_nil (fun name service hname => ?_) now).symm
      have hno := h.notMem_tag hs hname
      simp [HasTags, hno]
    | some services =>
      have hspec {name : GoString} {service : Service} (hname : t.service name = some service) :
          (∃ left, t.intersectTags (services.mapVal fun _ _ => true) tags = some left ∧
            name ∈ left) ↔ HasTags (tag :: tags) service = true := by
        have hmem : name ∈ services.mapVal (fun _ _ => true) ↔ name ∈ services := by
          rw [← not_iff_not, ← Finmap.lookup_eq_none, ← Finmap.lookup_eq_none, GoMap.lookup_mapVal,
            Option.map_eq_none_iff]
        rw [intersectTags_spec h tags _ hname, hmem, (h.mem_tag_iff hs hname).1]
        simp [HasTags]
      dsimp only
      rw [← foundIn_eq_scan _ hspec now]
      cases t.intersectTags (services.mapVal fun _ _ => true) tags <;> rfl

theorem intersectPairs_spec (h : t.Mirrored) (firstKey : GoString)
    (pairs : List (Σ _ : GoString, GoString)) (candidates : GoMap GoString Bool) {name : GoString}
    {service : Service} (hname : t.service name = some service) :
    (∃ left, t.intersectPairs firstKey candidates pairs = some left ∧ name ∈ left) ↔
      name ∈ candidates ∧ HasPairs (pairs.filter fun pair => pair.1 ≠ firstKey) service = true := by
  induction pairs generalizing candidates with
  | nil => simp [intersectPairs, HasPairs]
  | cons pair pairs ih =>
    obtain ⟨key, value⟩ := pair
    rw [intersectPairs]
    by_cases hkey : key = firstKey
    · rw [if_pos hkey, ih, List.filter_cons_of_neg (by simp [hkey])]
    · rw [if_neg hkey, List.filter_cons_of_pos (by simp [hkey])]
      have hmem := h.mem_pair_iff key value hname
      cases hs : t.listed key value with
      | none =>
        rw [hs, Option.getD_none] at hmem
        have hno : ¬ service.metadata.lookup key = some value := fun hpair =>
          List.not_mem_nil (hmem.mpr hpair)
        simp [HasPairs, hno]
      | some services =>
        rw [hs, Option.getD_some] at hmem
        dsimp only
        rw [ih, mem_intersect_iff, has_setOf_iff, hmem, and_assoc]
        simp [HasPairs]

theorem queryByMetadata_eq_scan (h : t.Mirrored) (now : Time) {filters : GoMap GoString GoString}
    (hfilters : filters.keys.card ≠ 0) (first rest : filters.Order) (range : t.data.Order) :
    t.queryByMetadata now filters first rest range =
      t.scan now (HasPairs (GoMap.sorted filters).list) := by
  have hlength := first.length_list
  rw [queryByMetadata]
  cases hfirst : first.list with
  | nil =>
    rw [hfirst, List.length_nil] at hlength
    exact absurd hlength.symm hfilters
  | cons pair pairs =>
    obtain ⟨firstKey, firstValue⟩ := pair
    -- the first filter and those the loop does not skip are all the filters
    have hall (service : Service) : HasPairs (GoMap.sorted filters).list service = true ↔
        service.metadata.lookup firstKey = some firstValue ∧
          HasPairs (rest.list.filter fun pair => pair.1 ≠ firstKey) service = true := by
      have hmem : (⟨firstKey, firstValue⟩ : Σ _ : GoString, GoString) ∈ first.list := by
        rw [hfirst]
        exact List.mem_cons_self ..
      have hvalue := (first.mem_list_iff firstKey firstValue).mp hmem
      simp only [HasPairs, List.all_eq_true, decide_eq_true_eq, List.mem_filter, Sigma.forall,
        GoMap.Order.mem_list_iff, and_imp, ne_eq, decide_not, Bool.not_eq_true',
        decide_eq_false_iff_not]
      constructor
      · exact fun hpairs => ⟨hpairs _ _ hvalue, fun key value hlookup _ => hpairs key value hlookup⟩
      · rintro ⟨hone, hothers⟩ key value hlookup
        by_cases hkey : key = firstKey
        · subst hkey
          rw [hvalue] at hlookup
          cases hlookup
          exact hone
        · exact hothers key value hlookup hkey
    dsimp only
    have hpair {name : GoString} {service : Service} (hname : t.service name = some service) :=
      h.mem_pair_iff firstKey firstValue hname
    cases hs : t.listed firstKey firstValue with
    | none =>
      refine (scan_eq_nil (fun name service hname => ?_) now).symm
      have hmem := hpair hname
      rw [hs, Option.getD_none] at hmem
      rw [Bool.eq_false_iff, ne_eq, hall]
      exact fun hfound => List.not_mem_nil (hmem.mpr hfound.1)
    | some services =>
      have hspec {name : GoString} {service : Service} (hname : t.service name = some service) :
          (∃ left, t.intersectPairs firstKey (setOf services) rest.list = some left ∧
            name ∈ left) ↔ HasPairs (GoMap.sorted filters).list service = true := by
        have hmem := hpair hname
        rw [hs, Option.getD_some] at hmem
        rw [intersectPairs_spec h firstKey rest.list _ hname, mem_setOf_iff, hmem, hall]
      dsimp only
      rw [← foundIn_eq_scan _ hspec now]
      cases t.intersectPairs firstKey (setOf services) rest.list <;> rfl

end ServiceTable

end Konsul
