import Konsul.Persistence.Export

/-!
# Backup and restore

A backup, any operations on the engine, and the restore of the backup. `MemoryEngine`
clears itself and reads its keys from the file, with the base64 text of a value in place
of the value, and no services; `BadgerEngine` loads the items of the file and leaves
the others. `load` is the database's `Load` of a file into what it holds.
-/

namespace Konsul

open GoLib

/-- What is done to an engine. -/
inductive EngineOp where
  | set (key : GoString) (value : Bytes)
  | delete (key : GoString)
  | batchSet (items : GoMap GoString Bytes)
  | batchDelete (keys : List GoString)
  | setService (now : Time) (name : GoString) (data : Bytes) (ttl : Duration)
  | deleteService (name : GoString)
  /-- A transaction, by its writes: a value or a deletion for each key. -/
  | commit (operations : List (GoString × Option Bytes))
  /-- `ImportData`; only a `BadgerEngine` has it. -/
  | importData (data : GoMap Bytes Json)

/-! ### The memory engine -/

/-- A `serviceEntry` as `json.Marshal` writes it. -/
def ServiceRecord.json (z : Rfc3339.Zone) (r : ServiceRecord) : Json :=
  .obj [(str "Data", .str (Base64.encode r.data)),
    (str "ExpiresAt", .str ((Rfc3339.format z r.expiresAt).getD []))]

namespace Engine

def perform (m : Engine) : EngineOp → Engine
  | .set key value => (m.set key value).1
  | .delete key => (m.delete key).1
  | .batchSet items => (m.batchSet items).1
  | .batchDelete keys => (m.batchDelete keys).1
  | .setService now name data ttl => (m.setService now name data ttl).1
  | .deleteService name => (m.deleteService name).1
  | .commit operations => operations.foldl (fun m p =>
      match p.2 with
      | some value => (m.set p.1 value).1
      | none => (m.delete p.1).1) m
  | .importData _ => m

def backupJson (z : Rfc3339.Zone) (m : Engine) : Json :=
  .obj [(str "kv", (Json.Codec.map .bytes).write m.kvData),
    (str "services", .obj ((GoMap.sorted m.svcData).list.map fun e => (e.1, e.2.json z)))]

/-- The file `Backup` writes; `json.Marshal` refuses an expiry that has no text. -/
def backup (z : Rfc3339.Zone) (m : Engine) : Option Bytes :=
  if (GoMap.sorted m.svcData).list.all fun e => (Rfc3339.format z e.2.expiresAt).isSome then
    some (m.backupJson z).print
  else none

/-- `Restore` of a file; one that cannot be read changes nothing. -/
def restore (m : Engine) (jsonData : Bytes) : Option Engine :=
  (Json.unmarshalMap jsonData).map fun data =>
    { m with
      kvData := (((data.lookup (str "kv")).bind Json.asMap).getD ∅).collect fun _ j => j.asString
      svcData := ∅ }

/-- A service that has not expired. -/
def unexpired (m : Engine) (now : Time) (name : GoString) : Option ServiceRecord :=
  (m.svcData.lookup name).filter fun r => now < r.expiresAt

/-- What a backup keeps: keys that are text and have no value, and no services. -/
def Kept (s : Engine) (now : Time) : Prop :=
  (∀ key value, s.kvData.lookup key = some value → Utf8.valid key ∧ value = []) ∧
    ∀ name, s.unexpired now name = none

end Engine

/-! ### The Badger engine -/

namespace BadgerEngine

def writes : EngineOp → List TxnWrite
  | .set key value => set key value
  | .delete key => delete key
  | .batchSet items => batchSet items
  | .batchDelete keys => batchDelete keys
  | .setService now name data ttl => setService now name data ttl
  | .deleteService name => deleteService name
  | .commit operations => operations.flatMap fun p =>
      match p.2 with
      | some value => set p.1 value
      | none => delete p.1
  | .importData data => importData data

def perform (b : BadgerEngine) (op : EngineOp) : BadgerEngine := b.update (writes op)

/-- `Load` puts the items of the file in the database and removes no others. -/
structure Loads (load : BadgerEngine → BadgerEngine → BadgerEngine) : Prop where
  loaded : ∀ file b key item, file.db.lookup key = some item →
    (load file b).db.lookup key = some item
  kept : ∀ file b key, file.db.lookup key = none →
    (load file b).db.lookup key = b.db.lookup key

/-- The file of a backup holds every item. -/
def backup (b : BadgerEngine) : BadgerEngine := b

end BadgerEngine

/-! ### The round trip of the memory engine -/

namespace Engine

section

variable {z : Rfc3339.Zone}

theorem services_read (l : List (Σ _ : GoString, ServiceRecord)) :
    Json.WFMembers (l.map fun e => (e.1, e.2.json z)) ∧
      Json.depthMembers (l.map fun e => (e.1, e.2.json z)) ≤ 1 ∧
      Json.inRangeMembers (Json.cleanMembers (l.map fun e => (e.1, e.2.json z))) = true := by
  induction l with
  | nil => exact ⟨trivial, Nat.zero_le _, rfl⟩
  | cons e l ih =>
    obtain ⟨hwf, hdepth, hrange⟩ := ih
    exact ⟨⟨⟨trivial, trivial, trivial⟩, hwf⟩, max_le (Nat.le_refl 1) hdepth, hrange⟩

theorem restore_backup (s m : Engine) :
    m.restore (s.backupJson z).print =
      some { m with kvData := jsonMap Base64.encode s.kvData, svcData := ∅ } := by
  obtain ⟨hservicesWF, hservicesDepth, hservicesRange⟩ :=
    services_read (z := z) (GoMap.sorted s.svcData).list
  have hlawful := Json.Codec.map_lawful Json.Codec.bytes_lawful
  have hwf : (s.backupJson z).WF := ⟨hlawful.wf s.kvData, hservicesWF, trivial⟩
  have hdepth : (s.backupJson z).depth ≤ Json.maxNestingDepth := by
    have hle := hlawful.depth_le s.kvData
    simp only [backupJson, Json.depth, Json.depthMembers, Json.maxNestingDepth] at hle ⊢
    omega
  let kv : Json := .obj (Json.cleanMembers
    ((GoMap.sorted s.kvData).list.map fun e => (e.1, .str (Base64.encode e.2))))
  let services : Json := .obj (Json.cleanMembers
    ((GoMap.sorted s.svcData).list.map fun e => (e.1, e.2.json z)))
  have hread : Json.unmarshalMap (s.backupJson z).print =
      some (Json.toMap [(str "kv", kv), (str "services", services)]) := by
    have hstrings := Json.inRange_strings Base64.encode (GoMap.sorted s.kvData).list
    have hrange : Json.inRangeMembers [(str "kv", kv), (str "services", services)] = true := by
      simp only [Json.inRangeMembers, Bool.and_eq_true, and_true]
      exact ⟨hstrings, hservicesRange⟩
    rw [Json.unmarshalMap, Json.parse_print hwf hdepth]
    exact if_pos hrange
  have hlookup : (Json.toMap [(str "kv", kv), (str "services", services)]).lookup (str "kv") =
      some kv := by
    have hne : str "kv" ≠ str "services" := by decide
    exact (Finmap.lookup_insert_of_ne _ hne).trans (Finmap.lookup_insert _)
  have htext : ∀ v : Bytes, jsonString (Base64.encode v) = Base64.encode v := fun v =>
    Utf8.toValid_of_valid (Utf8.valid_of_ascii fun b hb =>
      (Base64.isLetter_of_mem_encode v b hb).spec.2)
  have hmap : kv.asMap = some (jsonMap (fun v => .str (Base64.encode v)) s.kvData) := by
    have hclean := Json.toMap_cleanMembers Base64.encode (GoMap.sorted s.kvData).list
    simp only [htext] at hclean
    exact congrArg some hclean
  have hcollect : (jsonMap (fun v => Json.str (Base64.encode v)) s.kvData).collect
      (fun _ j => j.asString) = jsonMap Base64.encode s.kvData := by
    refine Finmap.ext_lookup fun key => ?_
    rw [GoMap.lookup_collect, lookup_jsonMap_comp Base64.encode Json.str]
    cases (jsonMap Base64.encode s.kvData).lookup key <;> rfl
  rw [restore, hread, Option.map_some, hlookup, Option.bind_some, hmap, Option.getD_some, hcollect]

end

end Engine

/-- The memory engine with one key and its value. -/
def oneValue : Engine :=
  { Engine.new with kvData := (∅ : GoMap GoString Bytes).insert (str "k") (str "v") }

end Konsul
