import Konsul.Handlers.Reads
import Konsul.Persistence.Opened
import Konsul.Store.Uses
import Mathlib.Data.List.MinMax

/-!
# A restore and the stores of the running server

`POST /restore` and `POST /import` write to the engine, and the stores read it only when
they are opened. What a backup or an import leaves recorded under a key or a name is said
of the payload and the engine before it (`kvRecord`, `serviceRecord`). The database keeps
the version of every write, and a backup is loaded with the versions it was taken with.
-/

namespace Konsul

open GoLib

/-! ### The versions of the database -/

/-- The newest version of a key. A deletion is a version without an item. -/
structure Versioned where
  version : ℕ
  item : Option Item

/-- The newest version of each key, and the version of the next transaction. -/
structure Database where
  entries : GoMap Bytes Versioned
  nextTs : ℕ
  older : ∀ key e, entries.lookup key = some e → e.version < nextTs

namespace Database

def new : Database := ⟨∅, 1, fun _ _ h => nomatch h⟩

def write (version : ℕ) (entries : GoMap Bytes Versioned) : TxnWrite → GoMap Bytes Versioned
  | .set key item => entries.insert key ⟨version, some item⟩
  | .delete key => entries.insert key ⟨version, none⟩

theorem version_write {version : ℕ} {txn : List TxnWrite} {entries : GoMap Bytes Versioned}
    (h : ∀ key e, entries.lookup key = some e → e.version ≤ version) (key : Bytes) (e : Versioned)
    (he : (txn.foldl (write version) entries).lookup key = some e) : e.version ≤ version := by
  induction txn generalizing entries with
  | nil => exact h key e he
  | cons w txn ih =>
    refine ih (fun key' e' he' => ?_) he
    cases w <;>
    · simp only [write, GoMap.lookup_insert_ite] at he'
      split_ifs at he'
      · cases he'
        exact le_rfl
      · exact h key' e' he'

/-- A transaction that commits. -/
def commit (d : Database) (txn : List TxnWrite) : Database where
  entries := txn.foldl (write d.nextTs) d.entries
  nextTs := d.nextTs + 1
  older key e he := Nat.lt_succ_of_le
    (version_write (fun key' e' he' => (d.older key' e' he').le) key e he)

/-- The items of the keys, as transactions read them. -/
def engine (d : Database) : BadgerEngine := ⟨d.entries.collect fun _ e => e.item⟩

theorem lookup_engine (d : Database) (key : Bytes) :
    d.engine.db.lookup key = (d.entries.lookup key).bind (·.item) := GoMap.lookup_collect ..

/-- Versions apart, a commit does to the items what the engine's model says. -/
theorem engine_commit (d : Database) (txn : List TxnWrite) :
    (d.commit txn).engine = d.engine.update txn := by
  have hitems (entries : GoMap Bytes Versioned) (b : BadgerEngine)
      (h : ∀ key, (entries.lookup key).bind (·.item) = b.db.lookup key) (key : Bytes) :
      ((txn.foldl (write d.nextTs) entries).lookup key).bind (·.item) =
        (b.update txn).db.lookup key := by
    induction txn generalizing entries b with
    | nil => exact h key
    | cons w txn ih =>
      refine ih (write d.nextTs entries w) (b.write w) fun key' => ?_
      cases w with
      | set k item =>
        simp only [write, BadgerEngine.write, GoMap.lookup_insert_ite]
        split_ifs
        · rfl
        · exact h key'
      | delete k =>
        simp only [write, BadgerEngine.write, GoMap.lookup_insert_ite, GoMap.lookup_erase_ite]
        split_ifs
        · rfl
        · exact h key'
  have hdb : (d.commit txn).engine.db = (d.engine.update txn).db :=
    Finmap.ext_lookup fun key =>
      (lookup_engine _ key).trans (hitems d.entries d.engine (fun key' => (d.lookup_engine key').symm) key)
  exact congrArg BadgerEngine.mk hdb

/-- The newer of the file's version of a key and the database's own; of two alike the file's. -/
def newest : Option Versioned → Option Versioned → Option Versioned
  | some e, some own => if e.version < own.version then some own else some e
  | some e, none => some e
  | none, own => own

/-- `DB.Load` writes every entry of the file under the version it has there, and a read finds
the newest version of a key. -/
def Loads (load : GoMap Bytes Versioned → Database → Database) : Prop :=
  ∀ file d key, (load file d).entries.lookup key = newest (file.lookup key) (d.entries.lookup key)

end Database

/-! ### Backups and imports -/

/-- The engine of a server. -/
inductive Backend where
  | memory (m : Engine)
  | badger (d : Database)

/-- What a restore draws from outside: the time, the files and the database. -/
structure RestoreEnv where
  now : Time
  /-- The error of what fails. -/
  failure : GoError
  /-- The text of a file. -/
  readFile : GoString → Option Bytes
  /-- The entries of a file the database can load. -/
  backupEntries : GoString → Option (GoMap Bytes Versioned)
  load : GoMap Bytes Versioned → Database → Database
  loads : Database.Loads load
  /-- The database takes the writes in one transaction. -/
  fits : List TxnWrite → Bool

inductive Payload where
  | backup (path : GoString)
  | members (data : List (Bytes × Json))

/-- The member of a member of a document. -/
def memberOf (data : GoMap Bytes Json) (name key : Bytes) : Option Json :=
  ((data.lookup name).bind Json.asMap).bind (·.lookup key)

/-- The value of an item that has not expired. -/
def Item.shown (now : Time) (item : Option Item) : Option Bytes :=
  (item.filter fun item => !item.expired now).map (·.value)

namespace Backend

def kind : Backend → EngineKind
  | memory _ => .memory
  | badger _ => .badger

/-- The engine after `Restore` or `ImportData`, if that succeeds. -/
def apply (env : RestoreEnv) : Backend → Payload → Option Backend
  | memory m, .backup path =>
    (env.readFile path).bind fun jsonData => (m.restore jsonData).map .memory
  | badger d, .backup path => (env.backupEntries path).map fun file => .badger (env.load file d)
  | memory _, .members _ => none
  | badger d, .members data =>
    if env.fits (BadgerEngine.importData (Json.toMap data)) then
      some (.badger (d.commit (BadgerEngine.importData (Json.toMap data))))
    else none

/-- The engine as a store sees it that is opened on it. -/
def view (now : Time) : Backend → Engine
  | memory m => { m with fault := none }
  | badger d => ⟨d.engine.kvRecords now, d.engine.serviceRecords now, none⟩

/-- What is read of a key once the file is loaded. -/
def loaded (env : RestoreEnv) (d : Database) (path : GoString) (key : Bytes) : Option Bytes :=
  (env.backupEntries path).bind fun file => Item.shown env.now
    ((Database.newest (file.lookup key) (d.entries.lookup key)).bind (·.item))

/-- What is recorded under a key once the payload is in. -/
def kvRecord (env : RestoreEnv) (key : GoString) : Backend → Payload → Option Bytes
  | memory _, .backup path =>
    ((env.readFile path).bind Json.unmarshalMap).bind fun data =>
      (memberOf data (str "kv") key).bind Json.asString
  | badger d, .backup path => loaded env d path (kvPrefix ++ key)
  | memory _, .members _ => none
  | badger d, .members data =>
    ((memberOf (Json.toMap data) (str "kv") key).bind Json.asString).or
      (Item.shown env.now (d.engine.db.lookup (kvPrefix ++ key)))

/-- What is recorded under the name of a service; the memory engine restores none. -/
def serviceRecord (env : RestoreEnv) (name : GoString) : Backend → Payload → Option Bytes
  | memory _, _ => none
  | badger d, .backup path => loaded env d path (servicePrefix ++ name)
  | badger d, .members data =>
    ((memberOf (Json.toMap data) (str "services") name).map fun j => j.written.print).or
      (Item.shown env.now (d.engine.db.lookup (servicePrefix ++ name)))

/-! ### The records of the restored engine -/

section

variable {env : RestoreEnv} {b : BadgerEngine}

theorem find_load (file : GoMap Bytes Versioned) (d : Database) (key : Bytes) :
    ((env.load file d).engine.find env.now key).map (·.value) =
      Item.shown env.now ((Database.newest (file.lookup key) (d.entries.lookup key)).bind
        (·.item)) := by
  unfold BadgerEngine.find Item.shown
  rw [Database.lookup_engine, env.loads file d key]

theorem importData_eq (data : GoMap Bytes Json) :
    BadgerEngine.importData data =
      (GoMap.picked (((data.lookup (str "kv")).bind Json.asMap).getD ∅)
        fun _ j => j.asString).map (fun e => .set (kvPrefix ++ e.1) ⟨e.2, 0⟩) ++
      (GoMap.picked (((data.lookup (str "services")).bind Json.asMap).getD ∅)
        fun _ j => some j.written.print).map fun e => .set (servicePrefix ++ e.1) ⟨e.2, 0⟩ := by
  unfold BadgerEngine.importData GoMap.picked
  rw [List.map_filterMap, List.map_filterMap]
  simp only [Option.map_map, Option.map_some, List.filterMap_eq_map']
  rfl

theorem lookup_member (data : GoMap Bytes Json) (name key : Bytes) {V : Type}
    (f : Json → Option V) :
    ((((data.lookup name).bind Json.asMap).getD ∅).collect fun _ j => f j).lookup key =
      (memberOf data name key).bind f := by
  rw [GoMap.lookup_collect, memberOf]
  cases (data.lookup name).bind Json.asMap <;> rfl

theorem find_importData (data : GoMap Bytes Json) (now : Time) :
    (∀ key, ((b.update (BadgerEngine.importData data)).find now
        (kvPrefix ++ key)).map (·.value) =
      ((memberOf data (str "kv") key).bind Json.asString).or
        (Item.shown now (b.db.lookup (kvPrefix ++ key)))) ∧
    ∀ name, ((b.update (BadgerEngine.importData data)).find now
        (servicePrefix ++ name)).map (·.value) =
      ((memberOf data (str "services") name).map fun j => j.written.print).or
        (Item.shown now (b.db.lookup (servicePrefix ++ name))) := by
  have hshown (value : Option Bytes) (item : Option Item) :
      Item.shown now ((value.map fun value => ⟨value, 0⟩).or item) =
        value.or (Item.shown now item) := by
    cases value with
    | none => rfl
    | some value => simp [Item.shown, Item.expired]
  rw [importData_eq, BadgerEngine.update, List.foldl_append]
  constructor
  · intro key
    obtain ⟨-, hout⟩ := BadgerEngine.lookup_update_sets servicePrefix
      (GoMap.picked (((data.lookup (str "services")).bind Json.asMap).getD ∅)
        fun _ j => some j.written.print) (b.update _)
    obtain ⟨hin, -⟩ := BadgerEngine.lookup_update_sets kvPrefix
      (GoMap.picked (((data.lookup (str "kv")).bind Json.asMap).getD ∅) fun _ j => j.asString) b
    have hlookup := (hout (kvPrefix ++ key) fun name => BadgerEngine.prefix_ne key name).trans
      (hin key)
    have hmember := lookup_member data (str "kv") key Json.asString
    rw [GoMap.collect] at hmember
    rw [hmember] at hlookup
    exact (congrArg (Item.shown now) hlookup).trans (hshown _ _)
  · intro name
    obtain ⟨hin, -⟩ := BadgerEngine.lookup_update_sets servicePrefix
      (GoMap.picked (((data.lookup (str "services")).bind Json.asMap).getD ∅)
        fun _ j => some j.written.print) (b.update _)
    obtain ⟨-, hout⟩ := BadgerEngine.lookup_update_sets kvPrefix
      (GoMap.picked (((data.lookup (str "kv")).bind Json.asMap).getD ∅) fun _ j => j.asString) b
    have hlookup := hin name
    rw [hout (servicePrefix ++ name) fun key => (BadgerEngine.prefix_ne key name).symm] at hlookup
    have hmember := lookup_member data (str "services") name fun j => some j.written.print
    rw [GoMap.collect] at hmember
    rw [hmember] at hlookup
    refine (congrArg (Item.shown now) hlookup).trans ((hshown _ _).trans ?_)
    rw [Option.map_eq_bind]
    rfl

variable {backend after : Backend} {payload : Payload}

theorem view_fault (now : Time) (backend : Backend) : (backend.view now).fault = none := by
  cases backend <;> rfl

theorem lookup_view_kv (h : backend.apply env payload = some after) (key : GoString) :
    (after.view env.now).kvData.lookup key = backend.kvRecord env key payload := by
  cases backend with
  | memory m =>
    cases payload with
    | members data => exact nomatch h
    | backup path =>
      obtain ⟨jsonData, hfile, hrestore⟩ := Option.bind_eq_some_iff.mp h
      obtain ⟨m', hm', rfl⟩ := Option.map_eq_some_iff.mp hrestore
      obtain ⟨data, hdata, rfl⟩ := Option.map_eq_some_iff.mp hm'
      have hrecord := lookup_member data (str "kv") key Json.asString
      simp only [kvRecord, hfile, hdata, Option.bind_some]
      exact hrecord
  | badger d =>
    cases payload with
    | backup path =>
      obtain ⟨file, hfile, rfl⟩ := Option.map_eq_some_iff.mp h
      simp only [kvRecord, loaded, hfile, Option.bind_some]
      exact (BadgerEngine.lookup_kvRecords env.now key).trans (find_load file d _)
    | members data =>
      simp only [apply] at h
      split_ifs at h
      cases h
      simp only [view, Database.engine_commit]
      exact (BadgerEngine.lookup_kvRecords env.now key).trans
        ((find_importData (Json.toMap data) env.now).1 key)

theorem unexpired_view (h : backend.apply env payload = some after) (name : GoString) :
    ((after.view env.now).unexpired env.now name).map ServiceRecord.data =
      backend.serviceRecord env name payload := by
  have hlisted (d : Database) :
      ((view env.now (.badger d)).unexpired env.now name).map ServiceRecord.data =
        (d.engine.find env.now (servicePrefix ++ name)).map (·.value) := by
    have hlookup := BadgerEngine.lookup_serviceRecords (b := d.engine) env.now name
    simp only [view, Engine.unexpired, hlookup]
    cases d.engine.find env.now (servicePrefix ++ name) with
    | none => rfl
    | some item =>
      have hlive : env.now < env.now + 1 := lt_add_one env.now
      simp [hlive]
  cases backend with
  | memory m =>
    cases payload with
    | members data => exact nomatch h
    | backup path =>
      obtain ⟨jsonData, -, hrestore⟩ := Option.bind_eq_some_iff.mp h
      obtain ⟨m', hm', rfl⟩ := Option.map_eq_some_iff.mp hrestore
      obtain ⟨data, -, rfl⟩ := Option.map_eq_some_iff.mp hm'
      rfl
  | badger d =>
    cases payload with
    | backup path =>
      obtain ⟨file, hfile, rfl⟩ := Option.map_eq_some_iff.mp h
      simp only [serviceRecord, loaded, hfile, Option.bind_some]
      exact (hlisted _).trans (find_load file d _)
    | members data =>
      simp only [apply] at h
      split_ifs at h
      cases h
      refine (hlisted _).trans ?_
      rw [Database.engine_commit]
      exact ((find_importData (Json.toMap data) env.now).2 name)

end

end Backend

/-! ### The server -/

/-- A running server; the indexes of its services are exact. -/
structure Running where
  kv : KVStore
  services : ServiceStore
  backend : Option Backend
  exact : services.toServiceTable.Exact

/-- What the calls of a handler do to the server. -/
abbrev Exec := Running → (c : StoreCall) → Running × c.Answer

namespace Running

/-- The engine's answer to a restore or an import; `other` answers every other call. -/
def exec (env : RestoreEnv) (other : Exec) (s : Running) : (c : StoreCall) → Running × c.Answer
  | .restore path =>
    match s.backend.bind (·.apply env (.backup path)) with
    | some after => ({ s with backend := some after }, none)
    | none => (s, some env.failure)
  | .importData data =>
    match s.backend.bind (·.apply env (.members data)) with
    | some after => ({ s with backend := some after }, none)
    | none => (s, some env.failure)
  | c => other s c

/-- The stores of the server, whose engine has changed under them. -/
def stores (s : Running) (engine : Engine) : Stores :=
  ⟨{ s.kv with engine := some engine }, { s.services with engine := some engine }⟩

/-- Stores opened on the engine. -/
def opened (s : Running) (engine : Engine) (now : Time) (keys : engine.kvData.Order)
    (range : engine.svcData.Order) : Stores :=
  ⟨.newWithPersistence engine keys, .newWithPersistence s.services.ttl engine now range⟩

/-- Reads and compare-and-swap operations are answered as on stores just opened. -/
def TakesEffect (s : Running) (now : Time) : Prop :=
  ∀ backend, s.backend = some backend → ∀ keys range,
    (s.stores (backend.view now)).AnswersAs (s.opened (backend.view now) now keys range) now

/-- The stores hold just what the records are read as, and their counters the greatest
index among it. -/
structure Holds (s : Running) (env : RestoreEnv) (backend : Backend) (payload : Payload) :
    Prop where
  kv : ∀ key, s.kv.data.lookup key = (backend.kvRecord env key payload).map KVStore.loadEntry
  kvIndex : GreatestIndex KVEntry.modifyIndex s.kv.data s.kv.globalIndex
  services : ∀ name, s.services.data.lookup name =
    (backend.serviceRecord env name payload).bind (ServiceStore.loadRecord env.now)
  servicesIndex : GreatestIndex ServiceEntry.modifyIndex s.services.data s.services.globalIndex

end Running

/-- `POST /restore` and `POST /import`, with what can be read of their bodies. -/
inductive RestoreRequest where
  | restore (body : Option GoString)
  | importData (body : Option (List (Bytes × Json)))

namespace RestoreRequest

def handler (engine : Option EngineKind) : RestoreRequest → Reader Display
  | restore body => BackupHandler.restoreBackup engine body
  | importData body => BackupHandler.importData engine body

def payload : RestoreRequest → Option Payload
  | restore body => body.map .backup
  | importData body => body.map .members

end RestoreRequest

def Display.IsSuccess : Display → Prop
  | .response r => r.status = 200
  | _ => False

/-! ### The requests -/

section

variable {exec : Exec} {s : Running}

theorem not_isSuccess_badRequest (message : GoString) :
    ¬ (Display.response (.badRequest message)).IsSuccess := by
  intro h
  have hstatus : (400 : ℕ) = 200 := h
  exact absurd hstatus (by decide)

theorem not_isSuccess_internalError (message : GoString) :
    ¬ (Display.response (.internalError message)).IsSuccess := by
  intro h
  have hstatus : (500 : ℕ) = 200 := h
  exact absurd hstatus (by decide)

theorem restoreBackup_spec {kind : Option EngineKind} {body : Option GoString}
    (h : ((BackupHandler.restoreBackup kind body).run exec s).2.IsSuccess) :
    ∃ path, body = some path ∧ (exec s (.restore path)).2 = none ∧
      ((BackupHandler.restoreBackup kind body).run exec s).1 = (exec s (.restore path)).1 := by
  cases kind with
  | none => exact absurd h (not_isSuccess_badRequest _)
  | some kind =>
    cases body with
    | none => exact absurd h (not_isSuccess_badRequest _)
    | some path =>
      unfold BackupHandler.restoreBackup at h ⊢
      by_cases hpath : path = []
      · simp only [if_pos hpath] at h
        exact absurd h (not_isSuccess_badRequest _)
      · simp only [if_neg hpath, Program.run_perform_bind] at h ⊢
        refine ⟨path, rfl, ?_⟩
        cases hanswer : (exec s (.restore path)).2 with
        | some err =>
          simp only [hanswer] at h
          exact absurd h (not_isSuccess_internalError _)
        | none => exact ⟨rfl, rfl⟩

theorem importData_spec {kind : Option EngineKind} {body : Option (List (Bytes × Json))}
    (h : ((BackupHandler.importData kind body).run exec s).2.IsSuccess) :
    ∃ data, body = some data ∧ (exec s (.importData data)).2 = none ∧
      ((BackupHandler.importData kind body).run exec s).1 = (exec s (.importData data)).1 := by
  cases kind with
  | none => exact absurd h (not_isSuccess_badRequest _)
  | some kind =>
    cases body with
    | none => exact absurd h (not_isSuccess_badRequest _)
    | some data =>
      cases kind with
      | memory => exact absurd h (not_isSuccess_badRequest _)
      | badger =>
        unfold BackupHandler.importData at h ⊢
        simp only [Program.run_perform_bind] at h ⊢
        refine ⟨data, rfl, ?_⟩
        cases hanswer : (exec s (.importData data)).2 with
        | some err =>
          simp only [hanswer] at h
          exact absurd h (not_isSuccess_internalError _)
        | none => exact ⟨rfl, rfl⟩

end

section

variable {env : RestoreEnv} {other : Exec} {s : Running}

/-- The state after a request and its reply. -/
def Running.handle (env : RestoreEnv) (other : Exec)
    (s : Running) (req : RestoreRequest) : Running × Display :=
  (req.handler (s.backend.map Backend.kind)).run (exec env other) s

/-- A request that succeeds has put its payload into the engine and left the stores. -/
theorem Running.handle_spec {req : RestoreRequest} (hok : (s.handle env other req).2.IsSuccess) :
    ∃ backend payload after, s.backend = some backend ∧ req.payload = some payload ∧
      backend.apply env payload = some after ∧
      (s.handle env other req).1 = { s with backend := some after } := by
  cases req with
  | restore body =>
    obtain ⟨path, rfl, hanswer, hnext⟩ := restoreBackup_spec hok
    cases hafter : s.backend.bind (·.apply env (.backup path)) with
    | none =>
      simp only [exec, hafter] at hanswer
      exact nomatch hanswer
    | some after =>
      obtain ⟨backend, hbackend, happly⟩ := Option.bind_eq_some_iff.mp hafter
      refine ⟨backend, _, after, hbackend, rfl, happly, ?_⟩
      simp only [exec, hafter] at hnext
      exact hnext
  | importData body =>
    obtain ⟨data, rfl, hanswer, hnext⟩ := importData_spec hok
    cases hafter : s.backend.bind (·.apply env (.members data)) with
    | none =>
      simp only [exec, hafter] at hanswer
      exact nomatch hanswer
    | some after =>
      obtain ⟨backend, hbackend, happly⟩ := Option.bind_eq_some_iff.mp hafter
      refine ⟨backend, _, after, hbackend, rfl, happly, ?_⟩
      simp only [exec, hafter] at hnext
      exact hnext

/-- The stores answer as stores opened on an engine iff their tables are the same. -/
theorem Running.answersAs_opened_iff {engine : Engine} (hworks : engine.fault = none) (now : Time)
    (keys : engine.kvData.Order) (range : engine.svcData.Order) :
    (s.stores engine).AnswersAs (s.opened engine now keys range) now ↔
      (KVStore.newWithPersistence engine keys).toKVTable = s.kv.toKVTable ∧
        (ServiceStore.newWithPersistence s.services.ttl engine now range).data = s.services.data ∧
        (ServiceStore.newWithPersistence s.services.ttl engine now range).globalIndex =
          s.services.globalIndex := by
  obtain ⟨hengine, httl⟩ : (ServiceStore.newWithPersistence s.services.ttl engine now range).engine =
      some engine ∧ (ServiceStore.newWithPersistence s.services.ttl engine now range).ttl =
        s.services.ttl := ServiceStore.newWithPersistence_engine s.services.ttl range
  have hone : Stores.OnOneEngine (s.stores engine) (s.opened engine now keys range) now := by
    refine ⟨?_, ?_, httl, s.exact, ?_, ?_, ?_⟩
    · exact congrArg (·.bind Engine.fault) (KVStore.engine_newWithPersistence keys)
    · exact congrArg (·.map Engine.fault) hengine
    · exact ServiceStore.newWithPersistence_exact s.services.ttl engine now range
    · intro m hm
      cases hm
      exact hworks
    · intro name e he
      have hload := (ServiceStore.lookup_newWithPersistence s.services.ttl range name).symm.trans he
      rw [ServiceStore.loadService_eq hworks] at hload
      obtain ⟨r, -, hrecord⟩ := Option.bind_eq_some_iff.mp hload
      exact (ServiceStore.loadRecord_live hrecord).le
  exact hone.answersAs_iff

/-- A restore or an import that succeeds takes effect iff the stores already hold what it
brings. -/
theorem restore_takes_effect_iff (env : RestoreEnv)
    (other : Exec) (s : Running) (req : RestoreRequest)
    (hok : (s.handle env other req).2.IsSuccess) :
    (s.handle env other req).1.TakesEffect env.now ↔
      ∃ backend payload, s.backend = some backend ∧ req.payload = some payload ∧
        s.Holds env backend payload := by
  obtain ⟨backend, payload, after, hbackend, hpayload, happly, hnext⟩ := Running.handle_spec hok
  have hworks := Backend.view_fault env.now after
  have hkvRecord := Backend.lookup_view_kv happly
  have hserviceRecord := Backend.unexpired_view happly
  -- what the opened stores hold, whatever the orders of their loops
  have hkv (keys : (after.view env.now).kvData.Order) (key : GoString) :
      (KVStore.newWithPersistence (after.view env.now) keys).data.lookup key =
        (backend.kvRecord env key payload).map KVStore.loadEntry := by
    rw [KVStore.data_newWithPersistence hworks, GoMap.lookup_mapVal, hkvRecord]
  have hservices (range : (after.view env.now).svcData.Order) (name : GoString) :
      (ServiceStore.newWithPersistence s.services.ttl (after.view env.now) env.now
        range).data.lookup name =
        (backend.serviceRecord env name payload).bind (ServiceStore.loadRecord env.now) := by
    rw [ServiceStore.lookup_newWithPersistence, ServiceStore.loadService_eq hworks,
      ← hserviceRecord, Option.bind_map]
    rfl
  have hkvIndex := KVStore.greatestIndex_newWithPersistence hworks
  have hservicesIndex (range : (after.view env.now).svcData.Order) :=
    ServiceStore.greatestIndex_newWithPersistence s.services.ttl env.now range
  have hrun : (s.handle env other req).1.TakesEffect env.now ↔ ∀ keys range,
      (KVStore.newWithPersistence (after.view env.now) keys).toKVTable = s.kv.toKVTable ∧
        (ServiceStore.newWithPersistence s.services.ttl (after.view env.now) env.now range).data =
          s.services.data ∧
        (ServiceStore.newWithPersistence s.services.ttl (after.view env.now) env.now
          range).globalIndex = s.services.globalIndex := by
    rw [hnext]
    constructor
    · intro h keys range
      exact (Running.answersAs_opened_iff hworks env.now keys range).mp (h after rfl keys range)
    · intro h backend' hbackend' keys range
      cases hbackend'
      exact (Running.answersAs_opened_iff hworks env.now keys range).mpr (h keys range)
  rw [hrun]
  constructor
  · intro h
    obtain ⟨htable, hdata, hindex⟩ := h (Classical.arbitrary _) (Classical.arbitrary _)
    have hkvdata := congrArg KVTable.data htable
    have hkvcount := congrArg KVTable.globalIndex htable
    refine ⟨backend, payload, hbackend, hpayload, ?_, ?_, ?_, ?_⟩
    · intro key
      rw [← hkv (Classical.arbitrary _) key]
      exact congrArg (·.lookup key) hkvdata.symm
    · have hgreatest := hkvIndex (Classical.arbitrary _)
      rwa [hkvdata, hkvcount] at hgreatest
    · intro name
      rw [← hservices (Classical.arbitrary _) name, hdata]
    · have hgreatest := hservicesIndex (Classical.arbitrary _)
      rwa [hdata, hindex] at hgreatest
  · rintro ⟨backend', payload', hbackend', hpayload', hholds⟩ keys range
    cases hbackend.symm.trans hbackend'
    cases hpayload.symm.trans hpayload'
    have hkvdata : (KVStore.newWithPersistence (after.view env.now) keys).data = s.kv.data :=
      Finmap.ext_lookup fun key => (hkv keys key).trans (hholds.kv key).symm
    have hdata : (ServiceStore.newWithPersistence s.services.ttl (after.view env.now) env.now
        range).data = s.services.data :=
      Finmap.ext_lookup fun name => (hservices range name).trans (hholds.services name).symm
    have hcount := hkvIndex keys
    rw [hkvdata] at hcount
    have hkvcount := hcount.unique hholds.kvIndex
    have hserviceCount := hservicesIndex range
    rw [hdata] at hserviceCount
    refine ⟨?_, hdata, hserviceCount.unique hholds.servicesIndex⟩
    cases htable : s.kv.toKVTable
    cases htable' : (KVStore.newWithPersistence (after.view env.now) keys).toKVTable
    simp only [htable, htable'] at hkvdata hkvcount
    rw [hkvdata, hkvcount]

end

/-! ### A restore that is seen -/

/-- A database whose `Load` keeps the versions of the file. -/
def loadVersions (file : GoMap Bytes Versioned) (d : Database) : Database where
  entries := (file ∪ d.entries).mapVal fun key e =>
    (Database.newest (file.lookup key) (d.entries.lookup key)).getD e
  nextTs := (d.nextTs :: (GoMap.sorted file).list.map fun e => e.2.version + 1).foldr max 0
  older key e he := by
    rw [GoMap.lookup_mapVal, GoMap.lookup_union] at he
    cases hfile : file.lookup key with
    | none =>
      cases hown : d.entries.lookup key with
      | none => simp [hfile, hown] at he
      | some own =>
        simp only [hfile, hown, Option.none_or, Option.map_some, Database.newest,
          Option.getD_some, Option.some.injEq] at he
        subst he
        exact List.le_max_of_le' 0 (List.mem_cons_self ..) (d.older key own hown)
    | some f =>
      have hmem : f.version + 1 ∈ (GoMap.sorted file).list.map fun e => e.2.version + 1 :=
        List.mem_map_of_mem (((GoMap.sorted file).mem_list_iff key f).mpr hfile)
      have hf := List.le_max_of_le' 0 (List.mem_cons_of_mem d.nextTs hmem) le_rfl
      cases hown : d.entries.lookup key with
      | none =>
        simp only [hfile, hown, Option.some_or, Option.map_some, Database.newest,
          Option.getD_some, Option.some.injEq] at he
        subst he
        exact hf
      | some own =>
        simp only [hfile, hown, Option.some_or, Option.map_some, Database.newest] at he
        split_ifs at he
        · cases he
          exact List.le_max_of_le' 0 (List.mem_cons_self ..) (d.older key own hown)
        · cases he
          exact hf

theorem loads_loadVersions : Database.Loads loadVersions := by
  intro file d key
  rw [loadVersions, GoMap.lookup_mapVal, GoMap.lookup_union]
  cases hfile : file.lookup key with
  | none =>
    cases hown : d.entries.lookup key with
    | none => rfl
    | some own => rfl
  | some f =>
    cases hown : d.entries.lookup key with
    | none => rfl
    | some own =>
      simp only [Option.some_or, Option.map_some, Database.newest]
      split_ifs <;> rfl

/-- The file `backup` is a backup of the memory engine, or of the database. -/
def restoreFrom (m : Engine) (d : Database) : RestoreEnv where
  now := 0
  failure := .text []
  readFile path := if path = str "backup" then some (m.backupJson Rfc3339.utc).print else none
  backupEntries path := if path = str "backup" then some d.entries else none
  load := loadVersions
  loads := loads_loadVersions
  fits _ := true

/-- Answers to the calls a restore does not make. -/
noncomputable def noOther (s : Running) (c : StoreCall) : Running × c.Answer :=
  (s, c.nonempty_answer.some)

def restoreIt : RestoreRequest := .restore (some (str "backup"))

theorem handle_restoreIt {env : RestoreEnv} {s : Running} {backend after : Backend}
    (hbackend : s.backend = some backend)
    (happly : backend.apply env (.backup (str "backup")) = some after) (other : Exec) :
    s.handle env other restoreIt = ({ s with backend := some after },
      .response (json 200 [(str "message", .text (str "Backup restored successfully")),
        (str "path", .text (str "backup"))])) := by
  have hbind : s.backend.bind (·.apply env (.backup (str "backup"))) = some after := by
    rw [hbackend]
    exact happly
  have hexec : Running.exec env other s (.restore (str "backup")) =
      ({ s with backend := some after }, none) := by
    simp only [Running.exec, hbind]
  have hpath : str "backup" ≠ [] := by decide
  have hhandler : restoreIt.handler (s.backend.map Backend.kind) =
      BackupHandler.restoreBackup (some backend.kind) (some (str "backup")) := by
    rw [hbackend]
    rfl
  rw [Running.handle, hhandler]
  unfold BackupHandler.restoreBackup
  simp only [if_neg hpath, Program.run_perform_bind, hexec]
  rfl

/-- Two keys when the backup is taken; one is overwritten since, and the other deleted. -/
def backedUp : Database :=
  Database.new.commit (BadgerEngine.set (str "k") (str "old") ++ BadgerEngine.set (str "d") (str "x"))

def sinceBackup : Database :=
  (backedUp.commit (BadgerEngine.set (str "k") (str "new"))).commit (BadgerEngine.delete (str "d"))

/-- The server whose stores have been opened on the database. -/
def overwrittenServer : Running where
  kv :=
    { KVStore.new with
      data := (∅ : GoMap GoString KVEntry).insert (str "k") (KVStore.loadEntry (str "new"))
      globalIndex := 1
      engine := some (Backend.view 0 (.badger sinceBackup)) }
  services :=
    { ServiceStore.newWithTTL 30000000000 with
      engine := some (Backend.view 0 (.badger sinceBackup)) }
  backend := some (.badger sinceBackup)
  exact := ServiceTable.exact_empty 0

theorem loaded_backedUp (pfx key : Bytes) :
    Backend.loaded (restoreFrom .new backedUp) sinceBackup (str "backup") (pfx ++ key) =
      if pfx ++ key = kvPrefix ++ str "k" then some (str "new") else none := by
  have hfile : backedUp.entries = ((∅ : GoMap Bytes Versioned).insert (kvPrefix ++ str "k")
      ⟨1, some ⟨str "old", 0⟩⟩).insert (kvPrefix ++ str "d") ⟨1, some ⟨str "x", 0⟩⟩ := rfl
  have hown : sinceBackup.entries = (backedUp.entries.insert (kvPrefix ++ str "k")
      ⟨2, some ⟨str "new", 0⟩⟩).insert (kvPrefix ++ str "d") ⟨3, none⟩ := rfl
  have hkd : kvPrefix ++ str "d" ≠ kvPrefix ++ str "k" := by decide
  have hentries : (restoreFrom .new backedUp).backupEntries (str "backup") =
      some backedUp.entries := rfl
  rw [Backend.loaded, hentries, Option.bind_some, hown, hfile]
  simp only [GoMap.lookup_insert_ite, Finmap.lookup_empty]
  by_cases hk : pfx ++ key = kvPrefix ++ str "k"
  · rw [hk, if_pos rfl]
    decide
  · by_cases hd : pfx ++ key = kvPrefix ++ str "d"
    · rw [hd, if_neg hkd]
      decide
    · simp only [if_neg hk, if_neg hd]
      rfl

/-- What is newer than the backup stays, in the engine as in the stores. -/
theorem restore_takes_effect_newer :
    (overwrittenServer.handle (restoreFrom .new backedUp) noOther restoreIt).1.TakesEffect 0 := by
  have happly : (Backend.badger sinceBackup).apply (restoreFrom .new backedUp)
      (.backup (str "backup")) = some (.badger (loadVersions backedUp.entries sinceBackup)) := rfl
  refine (restore_takes_effect_iff (restoreFrom .new backedUp) noOther overwrittenServer restoreIt ?_).mpr
    ⟨.badger sinceBackup, .backup (str "backup"), rfl, rfl, ?_⟩
  · rw [handle_restoreIt rfl happly]
    rfl
  · constructor
    · intro key
      have hdata : overwrittenServer.kv.data =
          (∅ : GoMap GoString KVEntry).insert (str "k") (KVStore.loadEntry (str "new")) := rfl
      rw [hdata, GoMap.lookup_insert_ite, Finmap.lookup_empty, Backend.kvRecord, loaded_backedUp]
      by_cases hk : key = str "k"
      · rw [if_pos hk, if_pos (congrArg (kvPrefix ++ ·) hk)]
        rfl
      · rw [if_neg hk, if_neg fun h => hk (List.append_cancel_left h)]
        rfl
    · constructor
      · intro k e he
        rw [show overwrittenServer.kv.data = (∅ : GoMap GoString KVEntry).insert (str "k")
          (KVStore.loadEntry (str "new")) from rfl, GoMap.lookup_insert_ite] at he
        split_ifs at he
        · cases he
          decide +kernel
        · cases he
      · exact Or.inr ⟨str "k", KVStore.loadEntry (str "new"), Finmap.lookup_insert _, by decide +kernel⟩
    · intro name
      have hne : servicePrefix ++ name ≠ kvPrefix ++ str "k" :=
        fun h => BadgerEngine.prefix_ne (str "k") name h.symm
      rw [Backend.serviceRecord, loaded_backedUp, if_neg hne]
      exact Finmap.lookup_empty name
    · constructor
      · intro name e he
        exact nomatch he
      · exact Or.inl rfl

/-! ### A restore that is not seen -/

/-- A server just started on an empty memory engine. -/
def emptyServer : Running where
  kv := { KVStore.new with engine := some .new }
  services := { ServiceStore.newWithTTL 30000000000 with engine := some .new }
  backend := some (.memory .new)
  exact := ServiceTable.exact_empty 0

theorem handle_restoreFrom (m : Engine) (d : Database) (other : Exec) :
    emptyServer.handle (restoreFrom m d) other restoreIt =
      ({ emptyServer with backend := some (.memory { Engine.new with
          kvData := jsonMap Base64.encode m.kvData, svcData := ∅ }) },
        .response (json 200 [(str "message", .text (str "Backup restored successfully")),
          (str "path", .text (str "backup"))])) := by
  refine handle_restoreIt rfl ?_ other
  simp only [Backend.apply, restoreFrom, if_pos, Option.bind_some, Engine.restore_backup,
    Option.map_some]

/-- A key of the backup is not found on the running server. -/
theorem restore_not_seen :
    ¬ ∀ (env : RestoreEnv) (other : Exec) (s : Running)
        (req : RestoreRequest), (s.handle env other req).2.IsSuccess →
      (s.handle env other req).1.TakesEffect env.now := by
  intro h
  have heffect := h (restoreFrom oneValue .new) noOther emptyServer restoreIt (by
    rw [handle_restoreFrom]
    rfl)
  rw [handle_restoreFrom] at heffect
  let restored : Engine :=
    { Engine.new with kvData := jsonMap Base64.encode oneValue.kvData, svcData := ∅ }
  let keys : restored.kvData.Order := Classical.arbitrary _
  have hdata := (heffect (.memory restored) rfl keys (Classical.arbitrary _)).kv_data
  have hkey := congrArg (fun d : GoMap GoString KVEntry => d.lookup (str "k")) hdata
  have hrunning : emptyServer.kv.data.lookup (str "k") = none := Finmap.lookup_empty _
  have hopened : ((jsonMap Base64.encode oneValue.kvData).mapVal fun _ value =>
      KVStore.loadEntry value).lookup (str "k") ≠ none := by decide +kernel
  have hload : (KVStore.newWithPersistence restored keys).data =
      restored.kvData.mapVal fun _ value => KVStore.loadEntry value :=
    KVStore.data_newWithPersistence rfl keys
  have hfound : (KVStore.newWithPersistence restored keys).data.lookup (str "k") = none :=
    hkey.symm.trans hrunning
  rw [hload] at hfound
  exact hopened hfound

end Konsul
