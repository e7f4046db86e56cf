import Konsul.Raft.Node
import Konsul.Raft.Replica

/-!
# What a write asks for

The effect a write asks for, whether the state machine accepts the write, and
when the effect is there afterwards, read off the state before. The state
machine sees the names of a command as JSON text brings them back, and accepts
a heartbeat or a deletion of what is not there.
-/

namespace Konsul

open GoLib

namespace KVTable

variable (t : KVTable)

/-- The key has the value, and the flags if there are any. -/
def Holds (key value : GoString) (flags : Option UInt64) : Prop :=
  ∃ entry, t.data.lookup key = some entry ∧ entry.value = value ∧ ∀ n ∈ flags, entry.flags = n

theorem newEntry_flags (key value : GoString) (n : UInt64) :
    (t.newEntry key value (some n)).flags = n := by
  unfold newEntry
  split <;> rfl

theorem holds_put (key' value' key value : GoString) (flags : Option UInt64) :
    (t.put key' value' flags).Holds key value flags ↔
      if key' = key then value' = value else t.Holds key value flags := by
  simp only [Holds, lookup_put]
  by_cases hkey : key = key'
  · have hflags : ∀ n ∈ flags, (t.newEntry key' value' flags).flags = n := by
      intro n hn
      rw [Option.mem_def.mp hn, newEntry_flags]
    simp only [if_pos hkey, if_pos hkey.symm, Option.some_inj, exists_eq_left', newEntry_value]
    exact and_iff_left hflags
  · rw [if_neg hkey, if_neg (Ne.symm hkey)]

theorem holds_putList_of_notMem {items : List (Σ _ : GoString, GoString)} {key : GoString}
    (h : key ∉ items.map Sigma.fst) (value : GoString) :
    (t.putList items).Holds key value none ↔ t.Holds key value none := by
  simp only [Holds, lookup_putList_of_notMem t h]

theorem holds_putList_of_mem {items : List (Σ _ : GoString, GoString)} (hitems : items.NodupKeys)
    {key value' : GoString} (h : ⟨key, value'⟩ ∈ items) (value : GoString) :
    (t.putList items).Holds key value none ↔ value' = value := by
  induction items generalizing t with
  | nil => cases h
  | cons item items ih =>
    obtain ⟨hnew, htail⟩ := List.nodupKeys_cons.mp hitems
    rw [putList_cons]
    rcases List.mem_cons.mp h with rfl | h
    · rw [holds_putList_of_notMem _ hnew, holds_put, if_pos rfl]
    · exact ih _ htail h

theorem holds_putOrder {items : GoMap GoString GoString} (range : items.Order)
    (key value : GoString) :
    (t.putList range.list).Holds key value none ↔
      match items.lookup key with
      | some value' => value' = value
      | none => t.Holds key value none := by
  cases h : items.lookup key with
  | some value' => exact t.holds_putList_of_mem range.nodupKeys ((range.mem_list_iff _ _).mpr h) value
  | none =>
    have hkey : key ∉ range.list.map Sigma.fst := by
      rw [range.mem_keys_iff]
      exact Finmap.lookup_eq_none.mp h
    exact t.holds_putList_of_notMem hkey value

end KVTable

namespace Command

/-- The writes: commands that compare no index. -/
def Write : Command → Prop
  | .kv (.set _ _) => True
  | .kv (.setWithFlags _ _ _) => True
  | .kv (.delete _) => True
  | .kv (.batchSet _) => True
  | .kv (.batchDelete _) => True
  | .service (.register _) => True
  | .service (.deregister _) => True
  | .service (.heartbeat _) => True
  | .service (.ttlUpdate _) => True
  | _ => False

/-- What the write asks for is there, right after it at the time `now`. -/
def Effect (now : Time) (f : FSM) : Command → Prop
  | .kv (.set key value) => f.kvStore.toKVTable.Holds key value none
  | .kv (.setWithFlags key value flags) => f.kvStore.toKVTable.Holds key value (some flags)
  | .kv (.delete key) => key ∉ f.kvStore.data
  | .kv (.batchSet items) => ∀ key value, items.lookup key = some value →
    f.kvStore.toKVTable.Holds key value none
  | .kv (.batchDelete keys) => ∀ key ∈ keys, key ∉ f.kvStore.data
  | .service (.register s) =>
    ∃ entry, f.serviceStore.data.lookup s.name = some entry ∧ entry.service = s
  | .service (.deregister name) => name ∉ f.serviceStore.data
  | .service (.heartbeat name) =>
    ∃ entry, f.serviceStore.data.lookup name = some entry ∧
      entry.expiresAt = now + f.serviceStore.ttl
  | .service (.ttlUpdate checkID) =>
    ∃ check, f.serviceStore.healthManager.checks.lookup checkID = some check ∧
      check.status = .passing ∧ check.lastCheck = now ∧
        (0 < check.ttl → check.expiresAt = some (now + check.ttl))
  | _ => False

/-- The state machine has no error for the write. -/
def Accepted (f : FSM) : Command → Prop
  | .service (.register s) => s.json.Valid
  | .service (.ttlUpdate checkID) =>
    ∃ check, f.serviceStore.healthManager.checks.lookup (jsonString checkID) = some check ∧
      check.type = .ttl
  | _ => True

/-- The effect is going to be there: the write reaches what it names and brings it
about, or it was there before. -/
def Achieved (now : Time) (f : FSM) : Command → Prop
  | .kv (.set key value) =>
    if jsonString key = key then jsonString value = value
    else f.kvStore.toKVTable.Holds key value none
  | .kv (.setWithFlags key value flags) =>
    if jsonString key = key then jsonString value = value
    else f.kvStore.toKVTable.Holds key value (some flags)
  | .kv (.delete key) => jsonString key = key ∨ key ∉ f.kvStore.data
  | .kv (.batchSet items) => ∀ key value, items.lookup key = some value →
    match (jsonMap jsonString items).lookup key with
    | some value' => value' = value
    | none => f.kvStore.toKVTable.Holds key value none
  | .kv (.batchDelete keys) => ∀ key ∈ keys, key ∈ keys.map jsonString ∨ key ∉ f.kvStore.data
  | .service (.register s) =>
    if s.json.Valid ∧ jsonString s.name = s.name then s.json.toSnapshot.toService = s
    else Effect now f (.service (.register s))
  | .service (.deregister name) => jsonString name = name ∨ name ∉ f.serviceStore.data
  | .service (.heartbeat name) =>
    jsonString name = name ∧ name ∈ f.serviceStore.data ∨
      Effect now f (.service (.heartbeat name))
  | .service (.ttlUpdate checkID) =>
    Accepted f (.service (.ttlUpdate checkID)) ∧ jsonString checkID = checkID ∨
      Effect now f (.service (.ttlUpdate checkID))
  | _ => False

end Command

namespace ServiceStore

variable (s : ServiceStore) (now : Time)

theorem registerLocal_of_valid {service : Service} (h : service.Valid)
    (range : service.metadata.Order) :
    s.registerLocal now service.toSnapshot range =
      ({ s with toServiceTable := s.toServiceTable.put service.toSnapshot.toService (now + s.ttl) },
        none) := by
  have hvalid : validateService service.toSnapshot.toService range = none :=
    (service.valid_iff range).mp h
  simp only [registerLocal, hvalid]

theorem registerLocal_of_invalid {service : Service} (h : ¬ service.Valid)
    (range : service.metadata.Order) :
    ∃ err, s.registerLocal now service.toSnapshot range = (s, some err) := by
  have hinvalid : validateService service.toSnapshot.toService range ≠ none :=
    mt (service.valid_iff range).mpr h
  obtain ⟨err, herr⟩ := Option.ne_none_iff_exists'.mp hinvalid
  exact ⟨err, by simp only [registerLocal, herr]⟩

end ServiceStore

namespace FSM

variable (f : FSM) (now : Time)

theorem accepted_register (service : Service) (range : service.json.metadata.Order) :
    (f.apply now (.service (.register service.json)) range).2 = .err none ↔ service.json.Valid := by
  change FsmResponse.err (f.serviceStore.registerLocal now service.json.toSnapshot range).2 = _ ↔ _
  by_cases hvalid : service.json.Valid
  · rw [f.serviceStore.registerLocal_of_valid now hvalid]
    exact iff_of_true rfl hvalid
  · obtain ⟨err, herr⟩ := f.serviceStore.registerLocal_of_invalid now hvalid range
    rw [herr]
    exact iff_of_false (fun h => nomatch h) hvalid

theorem effect_register (service : Service) (range : service.json.metadata.Order) :
    Command.Effect now (f.apply now (.service (.register service.json)) range).1
        (.service (.register service)) ↔
      Command.Achieved now f (.service (.register service)) := by
  change (∃ entry, (f.serviceStore.registerLocal now service.json.toSnapshot range).1.data.lookup
    service.name = some entry ∧ entry.service = service) ↔ _
  simp only [Command.Achieved]
  by_cases hvalid : service.json.Valid
  · have hname : service.json.toSnapshot.toService.name = jsonString service.name := rfl
    rw [f.serviceStore.registerLocal_of_valid now hvalid]
    simp only [ServiceTable.put_data, hname, hvalid, true_and, GoMap.lookup_insert_ite]
    by_cases htext : jsonString service.name = service.name
    · simp only [htext, ite_true, Option.some_inj, exists_eq_left']
      rfl
    · rw [if_neg (Ne.symm htext), if_neg htext]
      rfl
  · obtain ⟨err, herr⟩ := f.serviceStore.registerLocal_of_invalid now hvalid range
    rw [herr, if_neg (fun h => hvalid h.1)]
    rfl

theorem effect_heartbeat (name : GoString) :
    Command.Effect now (f.apply now (.service (.heartbeat (jsonString name))) ()).1
        (.service (.heartbeat name)) ↔
      Command.Achieved now f (.service (.heartbeat name)) := by
  simp only [Command.Achieved, apply, applyService, ServiceStore.heartbeatLocal]
  cases hl : f.serviceStore.data.lookup (jsonString name) with
  | none =>
    -- nothing is there under the name the state machine sees
    refine (or_iff_right ?_).symm
    rintro ⟨htext, hname⟩
    rw [htext] at hl
    exact Finmap.lookup_eq_none.mp hl hname
  | some entry =>
    simp only [Command.Effect, ServiceTable.touch, GoMap.lookup_insert_ite]
    by_cases htext : jsonString name = name
    · rw [htext] at hl
      simp only [htext, ite_true, Option.some_inj, exists_eq_left', true_and]
      exact iff_of_true trivial (.inl (Finmap.mem_of_lookup_eq_some hl))
    · simp only [Ne.symm htext, htext, ite_false, false_and, false_or]

theorem effect_ttlUpdate (checkID : GoString) :
    Command.Effect now (f.apply now (.service (.ttlUpdate (jsonString checkID))) ()).1
        (.service (.ttlUpdate checkID)) ↔
      Command.Achieved now f (.service (.ttlUpdate checkID)) := by
  simp only [Command.Achieved, Command.Accepted, apply, applyService, ServiceStore.updateTTLCheck,
    Manager.updateTTLCheck]
  cases hl : f.serviceStore.healthManager.checks.lookup (jsonString checkID) with
  | none => simp only [reduceCtorEq, false_and, exists_false, false_or]
  | some check =>
    simp only [Option.some_inj, exists_eq_left']
    by_cases htype : check.type = .ttl
    · simp only [htype, ne_eq, not_true_eq_false, ite_false, Command.Effect, true_and,
        GoMap.lookup_insert_ite]
      by_cases htext : jsonString checkID = checkID
      · simp only [htext, ite_true, Option.some_inj, exists_eq_left', true_and, true_or, iff_true]
        exact fun httl => if_pos httl
      · simp only [Ne.symm htext, htext, ite_false, false_or]
    · simp only [htype, ne_eq, not_false_eq_true, ite_true, false_and, false_or]

theorem accepted_iff {c : Command} (hc : c.Write) (ch : c.json.Choice) :
    (f.apply now c.json ch).2 = .err none ↔ c.Accepted f := by
  match c, hc with
  | .kv (.set _ _), _ => exact iff_of_true rfl True.intro
  | .kv (.setWithFlags _ _ _), _ => exact iff_of_true rfl True.intro
  | .kv (.delete _), _ => exact iff_of_true rfl True.intro
  | .kv (.batchSet _), _ => exact iff_of_true rfl True.intro
  | .kv (.batchDelete _), _ => exact iff_of_true rfl True.intro
  | .service (.deregister _), _ => exact iff_of_true rfl True.intro
  | .service (.heartbeat _), _ => exact iff_of_true rfl True.intro
  | .service (.register service), _ => exact f.accepted_register now service ch
  | .service (.ttlUpdate checkID), _ =>
    simp only [Command.json, ServiceCommand.json, apply, applyService, Command.Accepted,
      ServiceStore.updateTTLCheck, Manager.updateTTLCheck]
    cases f.serviceStore.healthManager.checks.lookup (jsonString checkID) with
    | none => simp
    | some check =>
      by_cases htype : check.type = .ttl
      · simp [htype]
      · simp [htype]

theorem effect_iff {c : Command} (hc : c.Write) (ch : c.json.Choice) :
    c.Effect now (f.apply now c.json ch).1 ↔ c.Achieved now f := by
  match c, hc with
  | .kv (.set key value), _ => 
    exact f.kvStore.toKVTable.holds_put (jsonString key) (jsonString value) key value none
  | .kv (.setWithFlags key value flags), _ => 
    exact f.kvStore.toKVTable.holds_put (jsonString key) (jsonString value) key value (some flags)
  | .kv (.delete key), _ =>
    exact GoMap.notMem_erase_iff f.kvStore.data (jsonString key) key
  | .kv (.batchSet items), _ =>
    have htable := (FSM.applyKV_eq f.kvStore (.batchSet (jsonMap jsonString items)) ch).1
    refine forall₃_congr fun key value _ => ?_
    change (FSM.applyKV f.kvStore (.batchSet (jsonMap jsonString items)) ch).1.toKVTable.Holds
      key value none ↔ _
    rw [htable]
    exact f.kvStore.toKVTable.holds_putOrder ch.1 key value
  | .kv (.batchDelete keys), _ =>
    have htable := (FSM.applyKV_eq f.kvStore (.batchDelete (keys.map jsonString)) ch).1
    refine forall₂_congr fun key _ => ?_
    change key ∉ (FSM.applyKV f.kvStore (.batchDelete (keys.map jsonString)) ch).1.toKVTable.data ↔ _
    rw [htable]
    exact GoMap.notMem_eraseAll_iff f.kvStore.data (keys.map jsonString) key
  | .service (.register service), _ => exact f.effect_register now service ch
  | .service (.deregister name), _ =>
    change name ∉ (f.serviceStore.toServiceTable.remove (jsonString name)).data ↔ _
    rw [ServiceTable.remove_data]
    exact GoMap.notMem_erase_iff f.serviceStore.data (jsonString name) name
  | .service (.heartbeat name), _ => exact f.effect_heartbeat now name
  | .service (.ttlUpdate checkID), _ => exact f.effect_ttlUpdate now checkID

end FSM

end Konsul
