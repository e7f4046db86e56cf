import Konsul.Store.Expired
import Konsul.Store.ServiceJson

/-!
# Start-up and snapshots of the service store

`loadFromPersistence` and `RestoreSnapshot` fill the data and build the indexes
anew. The clock is read once while a store is opened.
-/

namespace Konsul

open GoLib

/-- Entries from before there were indices get the first one. -/
def ServiceEntry.migrate (e : ServiceEntry) : ServiceEntry :=
  if e.modifyIndex = 0 then { e with modifyIndex := 1, createIndex := 1 } else e

namespace ServiceStore

/-! ### Start-up -/

/-- The entry of a record, unless it cannot be read or has expired. -/
def loadService (m : Engine) (now : Time) (name : GoString) : Option ServiceEntry :=
  match m.getService now name with
  | .error _ => none
  | .ok data =>
    match ServiceEntry.unmarshal data with
    | none => none
    | some entry => if entry.migrate.expiresAt > now then some entry.migrate else none

/-- The body of the loop; `globalIndex` is the greatest index so far. -/
def loadNext (m : Engine) (now : Time) (t : ServiceTable) (name : GoString) : ServiceTable :=
  match loadService m now name with
  | none => t
  | some entry =>
    { t with
      data := t.data.insert name entry
      globalIndex := if entry.modifyIndex > t.globalIndex then entry.modifyIndex
        else t.globalIndex }.index name entry.service

def loadFromPersistence (s : ServiceStore) (m : Engine) (now : Time) (range : m.svcData.Order) :
    ServiceStore :=
  match m.listServices now range with
  | .error _ => s
  | .ok names => { s with toServiceTable := names.foldl (loadNext m now) s.toServiceTable }

/-- `NewServiceStoreWithPersistence`. -/
def newWithPersistence (ttl : Duration) (m : Engine) (now : Time) (range : m.svcData.Order) :
    ServiceStore :=
  { newWithTTL ttl with engine := some m }.loadFromPersistence m now range

/-! ### `RestoreSnapshot` -/

/-- A check of a restored entry: owned and named; one whose TTL does not parse is not
registered and gets no identifier. -/
def restoreCheck (env : Env) (name : GoString) (d : CheckDefinition) (newID : GoString) :
    CheckDefinition × Bool :=
  let d := if d.serviceID = [] then { d with serviceID := name } else d
  let d := if d.name = [] then { d with name := name ++ str "-health" } else d
  if d.ttl ≠ [] ∧ env.parseDuration d.ttl = none then (d, false) else (Manager.withID d newID, true)

/-- The checks of the entries in the order of the loop, the identifiers drawn on the way. -/
def restoreChecks (env : Env) :
    ℕ → List (Σ _ : GoString, ServiceEntry) → List (GoString × List (CheckDefinition × Bool))
  | _, [] => []
  | n, e :: entries =>
    (e.1, (e.2.service.checks.zipIdx n).map fun p =>
      restoreCheck env e.1 p.1 (env.newUUID p.2)) ::
    restoreChecks env (n + e.2.service.checks.length) entries

/-- `range` is the order of the loop over the entries and `checksRange` that of the
loop over their checks. -/
def restoreSnapshot (s : ServiceStore) (env : Env) (entries : GoMap GoString ServiceEntry)
    (index : UInt64) (range checksRange : entries.Order) : ServiceStore :=
  let checks := restoreChecks env 0 checksRange.list
  { s with
    data := entries.mapVal fun name entry =>
      { entry with service :=
        { entry.service with checks := ((checks.lookup name).getD []).map Prod.fst } }
    tagIndex := range.list.foldl (fun ix e => addToTagIndex ix e.1 e.2.service.tags) ∅
    metaIndex := range.list.foldl (fun ix e => addToMetaIndex ix e.1 e.2.service.metadata) ∅
    globalIndex := index
    healthManager := addChecks .new env
      ((checks.flatMap Prod.snd).filterMap fun p => if p.2 then some p.1 else none) }

/-! ### What a start loads -/

variable {m : Engine} {now : Time}

/-- The names a start asks for; each once. -/
def listed (m : Engine) (now : Time) (range : m.svcData.Order) : List GoString :=
  ((range.list.filter fun e => now < e.2.expiresAt).map Sigma.fst)

theorem nodup_listed (range : m.svcData.Order) : (listed m now range).Nodup :=
  (List.Sublist.map Sigma.fst List.filter_sublist).nodup range.nodup_keys

theorem loadNext_data (t : ServiceTable) (name : GoString) :
    (loadNext m now t name).data =
      match loadService m now name with
      | none => t.data
      | some entry => t.data.insert name entry := by
  unfold loadNext
  split <;> rfl

theorem lookup_foldl_loadNext (names : List GoString) (t : ServiceTable) (name : GoString)
    (hnew : t.data.lookup name = none) :
    (names.foldl (loadNext m now) t).data.lookup name =
      if name ∈ names then loadService m now name else none := by
  induction names using List.reverseRecOn with
  | nil => exact hnew
  | append_singleton names last ih =>
    rw [List.foldl_append, List.foldl_cons, List.foldl_nil, loadNext_data]
    simp only [List.mem_append, List.mem_singleton]
    by_cases hlast : name = last
    · subst hlast
      simp only [or_true, ite_true]
      cases hload : loadService m now name with
      | none =>
        dsimp only
        rw [ih, hload, ite_self]
      | some entry => exact Finmap.lookup_insert _
    · simp only [hlast, or_false]
      cases loadService m now last with
      | none => exact ih
      | some entry =>
        dsimp only
        rw [Finmap.lookup_insert_of_ne _ hlast, ih]

/-- A store opened on an engine holds what each of the records loads as. -/
theorem lookup_newWithPersistence (ttl : Duration) (range : m.svcData.Order) (name : GoString) :
    (newWithPersistence ttl m now range).data.lookup name = loadService m now name := by
  unfold newWithPersistence loadFromPersistence Engine.listServices
  cases hfault : m.fault with
  | some err =>
    have hload : loadService m now name = none := by
      unfold loadService Engine.getService
      rw [hfault]
    rw [hload]
    rfl
  | none =>
    have hlookup := @lookup_foldl_loadNext m now (listed m now range)
      (newWithTTL ttl).toServiceTable name rfl
    have hmem : loadService m now name ≠ none → name ∈ listed m now range := by
      intro hload
      unfold loadService Engine.getService at hload
      rw [hfault] at hload
      cases hrecord : m.svcData.lookup name with
      | none => simp [hrecord] at hload
      | some record =>
        have hmem : (⟨name, record⟩ : Σ _ : GoString, ServiceRecord) ∈ range.list :=
          (range.mem_list_iff name record).mpr hrecord
        have hlive : now < record.expiresAt := by
          by_contra hexpired
          simp [hrecord, hexpired] at hload
        exact List.mem_map_of_mem (List.mem_filter.mpr ⟨hmem, by simpa using hlive⟩)
    refine hlookup.trans ?_
    split_ifs with hlisted
    · rfl
    · by_contra hload
      exact hlisted (hmem fun h => hload h.symm)

theorem newWithPersistence_engine (ttl : Duration) (range : m.svcData.Order) :
    (newWithPersistence ttl m now range).engine = some m ∧
      (newWithPersistence ttl m now range).ttl = ttl := by
  unfold newWithPersistence loadFromPersistence
  cases m.listServices now range <;> exact ⟨rfl, rfl⟩

end ServiceStore

end Konsul
