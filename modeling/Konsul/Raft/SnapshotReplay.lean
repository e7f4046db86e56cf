import Konsul.Raft.Replica

/-!
# Snapshots and the log

A snapshot carries the entries of the stores and not their counters: a restored
store counts on from the greatest index of an entry that is left. Restoring is
invisible exactly when that is the counter the snapshot was taken at.
-/

namespace Konsul

open GoLib

/-! ### What a snapshot can carry -/

/-- The strings of a service are text, as all strings decoded from a log entry are. -/
structure Service.Text (s : Service) : Prop where
  name : Utf8.valid s.name
  address : Utf8.valid s.address
  tags : ∀ tag ∈ s.tags, Utf8.valid tag
  metadata : ValidMap (fun value => Utf8.valid value) s.metadata

/-- The strings a command stores are text. -/
def Command.Text : Command → Prop
  | .kv (.set key value) => Utf8.valid key ∧ Utf8.valid value
  | .kv (.setWithFlags key value _) => Utf8.valid key ∧ Utf8.valid value
  | .kv (.batchSet items) => ValidMap (fun value => Utf8.valid value) items
  | .kv (.setCAS key value _) => Utf8.valid key ∧ Utf8.valid value
  | .kv (.batchSetCAS items _) => ValidMap (fun value => Utf8.valid value) items
  | .service (.register s) => s.Text
  | .service (.registerCAS s _) => s.Text
  | _ => True

def KVTable.Text (t : KVTable) : Prop := ValidMap (fun e : KVEntry => Utf8.valid e.value) t.data

/-- Services are registered through the log without their checks. -/
def Registry.Text (t : Registry) : Prop :=
  ValidMap (fun r : Registration => r.service.Text ∧ r.service.checks = []) t.data

structure Replica.Text (s : Replica) : Prop where
  kv : s.kv.Text
  services : s.services.Text

namespace KVTable

theorem Text.put {t : KVTable} (ht : t.Text) {key value : GoString} (flags : Option UInt64)
    (hkey : Utf8.valid key) (hvalue : Utf8.valid value) : (t.put key value flags).Text :=
  ValidMap.insert ht hkey (by rwa [newEntry_value])

theorem Text.putList {t : KVTable} (ht : t.Text) {items : List (Σ _ : GoString, GoString)}
    (hitems : ∀ item ∈ items, Utf8.valid item.1 ∧ Utf8.valid item.2) : (t.putList items).Text := by
  induction items generalizing t with
  | nil => exact ht
  | cons item items ih =>
    obtain ⟨hkey, hvalue⟩ := hitems item (List.mem_cons_self ..)
    exact ih (ht.put none hkey hvalue) fun i hi => hitems i (List.mem_cons_of_mem _ hi)

theorem Text.putItems {t : KVTable} (ht : t.Text) {items : GoMap GoString GoString}
    (hitems : ValidMap (fun value => Utf8.valid value) items) (range : items.Order) :
    (t.putList range.list).Text :=
  ht.putList fun item hi => hitems item.1 item.2 ((range.mem_list_iff item.1 item.2).mp hi)

theorem Text.applyCommand {t : KVTable} (ht : t.Text) {c : KVCommand}
    (hc : (Command.kv c).Text) (ch : c.Choice) : (t.applyCommand c ch).1.Text := by
  cases c with
  | set key value => exact ht.put none hc.1 hc.2
  | setWithFlags key value flags => exact ht.put (some flags) hc.1 hc.2
  | delete key => exact ValidMap.erase ht key
  | batchSet items => exact ht.putItems hc ch.1
  | batchDelete keys => exact ValidMap.eraseAll ht keys
  | setCAS key value expectedIndex =>
    simp only [KVTable.applyCommand]
    split
    · exact ht
    · exact ht.put none hc.1 hc.2
  | deleteCAS key expectedIndex =>
    simp only [KVTable.applyCommand]
    split
    · exact ht
    · exact ValidMap.erase ht key
  | batchSetCAS items expectedIndices =>
    obtain ⟨check, range, watch⟩ := ch
    simp only [KVTable.applyCommand]
    split
    · exact ht
    · exact ht.putItems hc range
  | batchDeleteCAS keys expectedIndices =>
    simp only [KVTable.applyCommand]
    split
    · exact ht
    · exact ValidMap.eraseAll ht keys

end KVTable

namespace Registry

theorem Text.put {t : Registry} (ht : t.Text) {service : Service} (hs : service.Text) :
    (t.put service.toSnapshot.toService).Text :=
  ValidMap.insert ht hs.name ⟨⟨hs.name, hs.address, hs.tags, hs.metadata⟩, rfl⟩

theorem Text.applyCommand {t : Registry} (ht : t.Text) {c : ServiceCommand}
    (hc : (Command.service c).Text) (ch : c.Choice) : (t.applyCommand c ch).1.Text := by
  cases c with
  | register service =>
    simp only [Registry.applyCommand]
    split
    · exact ht
    · exact ht.put hc
  | deregister name => exact ValidMap.erase ht name
  | heartbeat name => exact ht
  | ttlUpdate checkID => exact ht
  | registerCAS service expectedIndex =>
    simp only [Registry.applyCommand]
    split
    · exact ht
    · split
      · exact ht
      · exact ht.put hc
  | deregisterCAS name expectedIndex =>
    simp only [Registry.applyCommand]
    split
    · exact ht
    · exact ValidMap.erase ht name

end Registry

theorem Replica.Text.step {s : Replica} (hs : s.Text) {c : Command} (hc : c.Text) (ch : c.Choice) :
    (chooser.step s c ch).1.Text := by
  cases c with
  | kv c => exact ⟨hs.kv.applyCommand hc ch, hs.services⟩
  | service c => exact ⟨hs.kv, hs.services.applyCommand hc ch⟩
  | undecodable answer => exact hs

theorem FSM.text_run {f : FSM} (hf : f.replica.Text) {r : List Applied}
    (hr : ∀ e ∈ r, e.command.Text) : (machine.run f r).1.replica.Text := by
  have hrun := congrArg Prod.fst (replica_run f r)
  have hall : ∀ x ∈ r.map choiceOf, x.1.Text := by
    intro x hx
    obtain ⟨e, he, rfl⟩ := List.mem_map.mp hx
    exact hr e he
  have hinv : (Replica.chooser.machine.run f.replica (r.map choiceOf)).1.Text :=
    Replica.chooser.machine.invariant (fun s x hs hx => hs.step hx x.2) hf
      (Replica.chooser.machine.along_of_forall f.replica hall)
  rwa [hrun] at hinv

/-! ### What is restored -/

/-- The counter `RestoreFromSnapshot` computes. -/
def KVTable.topIndex (t : KVTable) : UInt64 :=
  greatest (fun e => e.2.modifyIndex) (GoMap.sorted t.data).list

def Registry.topIndex (t : Registry) : UInt64 :=
  greatest (fun e => e.2.modifyIndex) (GoMap.sorted t.data).list

/-- The replica with the counters a restore gives it. -/
def Replica.restored (s : Replica) : Replica :=
  { kv := { s.kv with globalIndex := s.kv.topIndex }
    services := { s.services with globalIndex := s.services.topIndex } }

/-- In both stores the newest index is still that of an entry. -/
def Replica.KeepsIndices (s : Replica) : Prop :=
  s.kv.topIndex = s.kv.globalIndex ∧ s.services.topIndex = s.services.globalIndex

instance (s : Replica) : Decidable s.KeepsIndices :=
  inferInstanceAs (Decidable (_ ∧ _))

theorem Replica.restored_of_keepsIndices {s : Replica} (h : s.KeepsIndices) : s.restored = s := by
  rw [restored, h.1, h.2]

theorem greatest_order {V : Type} (g : (Σ _ : GoString, V) → UInt64) {m m' : GoMap GoString V}
    (h : m = m') (o : m.Order) (o' : m'.Order) : greatest g o.list = greatest g o'.list := by
  subst h
  exact greatest_perm (o.perm o')

theorem Service.Text.toSnapshot_json {s : Service} (hs : s.Text) :
    s.toSnapshot.json = s.toSnapshot := by
  have htags := map_jsonString_of_valid hs.tags
  have hmeta : jsonMap jsonString s.metadata = s.metadata :=
    jsonMap_eq_self (fun value hv => Utf8.toValid_of_valid hv) hs.metadata
  simp only [ServiceDataSnapshot.json, Service.toSnapshot, htags, hmeta, jsonString,
    Utf8.toValid_of_valid hs.name, Utf8.toValid_of_valid hs.address]

theorem Service.toSnapshot_json_iff {s : Service} :
    s.toSnapshot.json = s.toSnapshot ↔ s.Text := by
  refine ⟨fun h => ?_, Service.Text.toSnapshot_json⟩
  have hname : jsonString s.name = s.name := congrArg ServiceDataSnapshot.name h
  have haddress : jsonString s.address = s.address := congrArg ServiceDataSnapshot.address h
  have htags : s.tags.map jsonString = s.tags := congrArg ServiceDataSnapshot.tags h
  have hmeta : jsonMap jsonString s.metadata = s.metadata := congrArg ServiceDataSnapshot.metadata h
  refine ⟨(Utf8.toValid_eq_iff _).mp hname, (Utf8.toValid_eq_iff _).mp haddress, fun tag htag => ?_,
    (jsonMap_eq_self_iff Utf8.toValid_eq_iff).mp hmeta⟩
  rw [← htags] at htag
  obtain ⟨old, -, rfl⟩ := List.mem_map.mp htag
  exact Utf8.valid_toValid old

namespace FSM

variable {f : FSM}

theorem kvData_snapshot (hf : f.replica.Text) : (snapshot f).json.kvData = f.kvStore.data :=
  jsonMap_eq_self (fun e he => (KVEntry.clean_eq_iff e).mpr he) hf.kv

theorem text_service (hf : f.replica.Text) {name : GoString} {e : ServiceEntry}
    (h : f.serviceStore.data.lookup name = some e) :
    Utf8.valid name ∧ e.service.Text ∧ e.service.checks = [] := by
  refine hf.services name e.registration ?_
  rw [replica, ServiceTable.lookup_registry, h, Option.map_some]

theorem serviceData_snapshot (hf : f.replica.Text) :
    (snapshot f).json.serviceData = f.serviceStore.getAllData := by
  have hself (e : ServiceEntrySnapshot) (he : e.json = e) : e.json = e := he
  refine jsonMap_eq_self hself fun name e h => ?_
  rw [snapshot, ServiceStore.getAllData, GoMap.lookup_mapVal] at h
  obtain ⟨e', he', rfl⟩ := Option.map_eq_some_iff.mp h
  obtain ⟨hname, htext, -⟩ := text_service hf he'
  refine ⟨hname, ?_⟩
  simp only [ServiceEntrySnapshot.json, ServiceEntry.toSnapshot, htext.toSnapshot_json]

theorem registration_toEntry_toSnapshot {e : ServiceEntry} (h : e.service.checks = []) :
    e.toSnapshot.toEntry.registration = e.registration := by
  obtain ⟨service, expiresAt, modifyIndex, createIndex⟩ := e
  simp only at h
  simp only [ServiceEntrySnapshot.toEntry, ServiceEntry.toSnapshot, ServiceEntry.registration,
    ServiceDataSnapshot.toService, Service.toSnapshot, ← h]

theorem topIndex_registry (t : ServiceTable) :
    t.registry.topIndex = greatest (fun e => e.2.modifyIndex) (GoMap.sorted t.data).list := by
  have h := greatest_order (fun e => e.2.modifyIndex) rfl (GoMap.sorted t.registry.data)
    ((GoMap.sorted t.data).mapVal fun _ e => e.registration)
  exact h.trans (greatest_map _ _)

/-- A snapshot restored into any state machine, in any order, gives the replica
it was taken of, with the counters recomputed. -/
theorem replica_restore (hf : f.replica.Text) (g : FSM) (kvRange : (snapshot f).json.kvData.Order)
    (serviceRange : (snapshot f).json.serviceData.Order) :
    (g.restore (snapshot f).json kvRange serviceRange).replica = f.replica.restored := by
  have hkv : KVStore.maxIndex kvRange.list = f.replica.kv.topIndex :=
    greatest_order _ (kvData_snapshot hf) kvRange (GoMap.sorted f.kvStore.data)
  have hservices : ServiceStore.maxIndex serviceRange.list = f.replica.services.topIndex := by
    have h := greatest_order (fun e : Σ _ : GoString, ServiceEntrySnapshot => e.2.modifyIndex)
      (serviceData_snapshot hf) serviceRange
      ((GoMap.sorted f.serviceStore.data).mapVal fun _ e => e.toSnapshot)
    exact (h.trans (greatest_map _ _)).trans (topIndex_registry _).symm
  have hdata : ((snapshot f).json.serviceData.mapVal fun _ e => e.toEntry).mapVal
      (fun _ e => e.registration) = f.replica.services.data := by
    rw [serviceData_snapshot hf]
    refine Finmap.ext_lookup fun name => ?_
    simp only [GoMap.lookup_mapVal, ServiceStore.getAllData, replica, ServiceTable.lookup_registry,
      Option.map_map]
    cases h : f.serviceStore.data.lookup name with
    | none => rfl
    | some e => exact congrArg some (registration_toEntry_toSnapshot (text_service hf h).2.2)
  have hkvTable : (g.restore (snapshot f).json kvRange serviceRange).replica.kv =
      f.replica.restored.kv := by
    simp only [restore, replica, KVStore.restoreFromSnapshot, Replica.restored,
      kvData_snapshot hf, hkv]
  have hregistry : (g.restore (snapshot f).json kvRange serviceRange).replica.services =
      f.replica.restored.services := by
    simp only [restore, replica, ServiceStore.restoreFromSnapshot, Replica.restored,
      ServiceTable.registry, hservices, hdata]
  exact congrArg₂ Replica.mk hkvTable hregistry

end FSM

/-! ### Indices handed out

How many indices a step hands out can be read off the command and its answer. -/

namespace KVTable

theorem applyCommand_answer (c : KVCommand) :
    (∀ (t : KVTable) (ch : c.Choice), (t.applyCommand c ch).2 = .err none) ∨
      ∀ (t : KVTable) (ch : c.Choice), ∃ r, (t.applyCommand c ch).2 = .cas r := by
  cases c with
  | set key value => exact Or.inl fun _ _ => rfl
  | setWithFlags key value flags => exact Or.inl fun _ _ => rfl
  | delete key => exact Or.inl fun _ _ => rfl
  | batchSet items => exact Or.inl fun _ _ => rfl
  | batchDelete keys => exact Or.inl fun _ _ => rfl
  | setCAS key value expectedIndex =>
    refine Or.inr fun t _ => ?_
    cases h : t.checkSetCAS key expectedIndex with
    | none => exact ⟨⟨t.nextIndex, ∅, none⟩, by simp only [applyCommand, h]⟩
    | some err => exact ⟨⟨0, ∅, some err⟩, by simp only [applyCommand, h]⟩
  | deleteCAS key expectedIndex =>
    refine Or.inr fun t _ => ?_
    cases h : t.checkDeleteCAS key expectedIndex with
    | none => exact ⟨⟨0, ∅, none⟩, by simp only [applyCommand, h]⟩
    | some err => exact ⟨⟨0, ∅, some err⟩, by simp only [applyCommand, h]⟩
  | batchSetCAS items expectedIndices =>
    refine Or.inr fun t ch => ?_
    obtain ⟨check, range, watch⟩ := ch
    cases h : t.checkSetAll check.list expectedIndices with
    | none => exact ⟨⟨0, (t.putAll range.list).newIndices, none⟩, by simp only [applyCommand, h]⟩
    | some err => exact ⟨⟨0, ∅, some err⟩, by simp only [applyCommand, h]⟩
  | batchDeleteCAS keys expectedIndices =>
    refine Or.inr fun t _ => ?_
    cases h : t.checkDeleteAll keys expectedIndices with
    | none => exact ⟨⟨0, ∅, none⟩, by simp only [applyCommand, h]⟩
    | some err => exact ⟨⟨0, ∅, some err⟩, by simp only [applyCommand, h]⟩

theorem answer_eq_of_casResult {t t' : KVTable} {c : KVCommand} {ch ch' : c.Choice}
    (h : (t.applyCommand c ch).2.casResult = (t'.applyCommand c ch').2.casResult) :
    (t.applyCommand c ch).2 = (t'.applyCommand c ch').2 := by
  rcases applyCommand_answer c with hc | hc
  · rw [hc, hc]
  · obtain ⟨r, hr⟩ := hc t ch
    obtain ⟨r', hr'⟩ := hc t' ch'
    rw [hr, hr'] at h ⊢
    exact congrArg FsmResponse.cas (Option.some.inj h)

theorem globalIndex_reflect {t t' : KVTable} {c : KVCommand} {ch : c.Choice}
    (hanswer : (t.applyCommand c ch).2 = (t'.applyCommand c ch).2)
    (hend : (t.applyCommand c ch).1.globalIndex = (t'.applyCommand c ch).1.globalIndex) :
    t.globalIndex = t'.globalIndex := by
  cases c with
  | set key value => exact (UInt64.add_left_inj 1).mp hend
  | setWithFlags key value flags => exact (UInt64.add_left_inj 1).mp hend
  | delete key => exact hend
  | batchSet items =>
    obtain ⟨range, watch⟩ := ch
    simp only [applyCommand, putList_globalIndex] at hend
    exact (UInt64.add_left_inj _).mp hend
  | batchDelete keys => exact hend
  | setCAS key value expectedIndex =>
    simp only [applyCommand] at hanswer hend
    cases h : t.checkSetCAS key expectedIndex <;>
      cases h' : t'.checkSetCAS key expectedIndex <;>
      simp only [h, h', FsmResponse.cas.injEq, CASResult.mk.injEq, reduceCtorEq, and_false]
        at hanswer hend
    · exact (UInt64.add_left_inj 1).mp hend
    · exact hend
  | deleteCAS key expectedIndex =>
    simp only [applyCommand] at hend
    cases h : t.checkDeleteCAS key expectedIndex <;>
      cases h' : t'.checkDeleteCAS key expectedIndex <;> simp only [h, h'] at hend <;> exact hend
  | batchSetCAS items expectedIndices =>
    obtain ⟨check, range, watch⟩ := ch
    simp only [applyCommand] at hanswer hend
    cases h : t.checkSetAll check.list expectedIndices <;>
      cases h' : t'.checkSetAll check.list expectedIndices <;>
      simp only [h, h', FsmResponse.cas.injEq, CASResult.mk.injEq, reduceCtorEq, and_false,
        putList_globalIndex] at hanswer hend
    · exact (UInt64.add_left_inj _).mp hend
    · exact hend
  | batchDeleteCAS keys expectedIndices =>
    simp only [applyCommand] at hend
    cases h : t.checkDeleteAll keys expectedIndices <;>
      cases h' : t'.checkDeleteAll keys expectedIndices <;> simp only [h, h'] at hend <;> exact hend

end KVTable

theorem Registry.globalIndex_reflect {t t' : Registry} {c : ServiceCommand} {ch : c.Choice}
    (hanswer : (t.applyCommand c ch).2.bind FsmResponse.casResult =
      (t'.applyCommand c ch).2.bind FsmResponse.casResult)
    (hend : (t.applyCommand c ch).1.globalIndex = (t'.applyCommand c ch).1.globalIndex) :
    t.globalIndex = t'.globalIndex := by
  cases c with
  | register service =>
    simp only [applyCommand] at hend
    cases h : validateService service.toSnapshot.toService ch <;> simp only [h] at hend
    · exact (UInt64.add_left_inj 1).mp hend
    · exact hend
  | deregister name => exact hend
  | heartbeat name => exact hend
  | ttlUpdate checkID => exact hend
  | registerCAS service expectedIndex =>
    simp only [applyCommand] at hanswer hend
    cases h : validateService service.toSnapshot.toService ch <;> simp only [h] at hanswer hend
    · cases h : t.checkRegisterCAS service.name expectedIndex <;>
        cases h' : t'.checkRegisterCAS service.name expectedIndex <;>
        simp only [h, h', refused, Option.bind_some, FsmResponse.casResult, Option.some_inj,
          CASResult.mk.injEq, reduceCtorEq, and_false] at hanswer hend
      · exact (UInt64.add_left_inj 1).mp hend
      · exact hend
    · exact hend
  | deregisterCAS name expectedIndex =>
    simp only [applyCommand] at hend
    cases h : t.checkDeregisterCAS name expectedIndex <;>
      cases h' : t'.checkDeregisterCAS name expectedIndex <;> simp only [h, h'] at hend <;>
      exact hend

namespace Replica

/-- The counters of both stores. -/
def counters (s : Replica) : UInt64 × UInt64 := (s.kv.globalIndex, s.services.globalIndex)

theorem counters_reflect (s s' : Replica) (x : Σ c : Command, c.Choice)
    (hanswer : (chooser.machine.step s x).2 = (chooser.machine.step s' x).2)
    (hend : (chooser.machine.step s x).1.counters = (chooser.machine.step s' x).1.counters) :
    s.counters = s'.counters := by
  obtain ⟨c, ch⟩ := x
  simp only [counters, Prod.mk.injEq] at hend ⊢
  cases c with
  | kv c =>
    exact ⟨KVTable.globalIndex_reflect (KVTable.answer_eq_of_casResult hanswer) hend.1, hend.2⟩
  | service c => exact ⟨hend.1, Registry.globalIndex_reflect hanswer hend.2⟩
  | undecodable answer => exact hend

/-- A restored replica that ends and answers as the replica itself does has its counters. -/
theorem keepsIndices_of_run_eq {s : Replica} {q : List (Σ c : Command, c.Choice)}
    (h : chooser.machine.run s.restored q = chooser.machine.run s q) : s.KeepsIndices := by
  have hcounters : s.restored.counters = s.counters :=
    chooser.machine.reflect (R := fun s s' => s.counters = s'.counters) counters_reflect
      (congrArg Prod.snd h) (congrArg (fun p => p.1.counters) h)
  exact ⟨congrArg Prod.fst hcounters, congrArg Prod.snd hcounters⟩

end Replica

/-! ### Orders that show in a suffix -/

/-- Of a registration without compare-and-swap the error is not a result. -/
def ServiceCommand.OrderFree : ServiceCommand → Prop
  | .registerCAS s _ => s.OneError
  | _ => True

def Replica.OrderFree (s : Replica) : Command → Prop
  | .kv c => s.kv.OrderFree c
  | .service c => c.OrderFree
  | .undecodable _ => True

namespace Replica

theorem free_kv_iff (s : Replica) (c : KVCommand) :
    chooser.Free s (.kv c) ↔ s.kv.OrderFree c := by
  have h := Konsul.free_iff s.kv (.kv c)
  refine Iff.trans (forall_congr' fun ch => forall_congr' fun ch' => ?_) h
  constructor
  · intro heq
    have htable := congrArg (fun p => p.1.kv) heq
    have hanswer := KVTable.answer_eq_of_casResult (congrArg Prod.snd heq)
    exact Prod.ext htable (congrArg some hanswer)
  · intro heq
    have htable := congrArg Prod.fst heq
    have hanswer := Option.some.inj (congrArg Prod.snd heq)
    exact Prod.ext (congrArg (fun t => (⟨t, s.services⟩ : Replica)) htable)
      (congrArg FsmResponse.casResult hanswer)

theorem validate_cases (service : Service) (range range' : service.metadata.Order) :
    (validateService service range = none ∧ validateService service range' = none) ∨
      ∃ err err', validateService service range = some err ∧
        validateService service range' = some err' := by
  have hvalid := validateService_eq_none_iff service range range'
  by_cases h : validateService service range = none
  · exact Or.inl ⟨h, hvalid.mp h⟩
  · obtain ⟨err, herr⟩ := Option.ne_none_iff_exists'.mp h
    obtain ⟨err', herr'⟩ := Option.ne_none_iff_exists'.mp (mt hvalid.mpr h)
    exact Or.inr ⟨err, err', herr, herr'⟩

theorem free_service_iff (s : Replica) (c : ServiceCommand) :
    chooser.Free s (.service c) ↔ c.OrderFree := by
  cases c with
  | register service =>
    refine ⟨fun _ => trivial, fun _ range range' => ?_⟩
    simp only [chooser, Registry.applyCommand]
    rcases validate_cases service.toSnapshot.toService range range' with
      ⟨h, h'⟩ | ⟨err, err', h, h'⟩
    · rw [h, h']
    · rw [h, h']
      rfl
  | registerCAS service expectedIndex =>
    constructor
    · intro hfree range range'
      have hanswer := congrArg Prod.snd (hfree range range')
      simp only [chooser, Registry.applyCommand] at hanswer
      rcases validate_cases service.toSnapshot.toService range range' with
        ⟨h, h'⟩ | ⟨err, err', h, h'⟩
      · rw [h, h']
      · rw [h, h'] at hanswer ⊢
        exact congrArg CASResult.err (Option.some.inj hanswer)
    · intro hsame range range'
      simp only [chooser, Registry.applyCommand, hsame range range']
  | _ => exact ⟨fun _ => trivial, fun _ _ _ => rfl⟩

theorem free_iff (s : Replica) (c : Command) : chooser.Free s c ↔ s.OrderFree c := by
  cases c with
  | kv c => exact free_kv_iff s c
  | service c => exact free_service_iff s c
  | undecodable answer => exact ⟨fun _ => trivial, fun _ _ _ => rfl⟩

end Replica

/-! ### A suffix after a restore -/

namespace FSM

/-- The replica a log leaves, and the results of its compare-and-swap commands
after the first `n` entries. -/
def outcome (f : FSM) (r : List Applied) (n : ℕ) : Replica × List (Option CASResult) :=
  ((machine.run f r).1.replica, ((machine.run f r).2.drop n).map FsmResponse.casResult)

/-- The state the snapshot after a prefix is restored to. -/
def restoreAfter (f : FSM) (pre : List Applied) (g : FSM)
    (kvRange : (snapshot (machine.run f pre).1).json.kvData.Order)
    (serviceRange : (snapshot (machine.run f pre).1).json.serviceData.Order) : FSM :=
  g.restore (snapshot (machine.run f pre).1).json kvRange serviceRange

/-- Wherever the snapshot after the prefix is restored, the suffix ends and is
answered as in the whole log, its map loops taking the same orders. -/
def ReplaysInOrder (f : FSM) (pre : List Applied) (suffix : List (Σ c : Command, c.Choice)) :
    Prop :=
  ∀ (g : FSM) kvRange serviceRange (r r' : List Applied),
    r.map choiceOf = suffix → r'.map choiceOf = suffix →
      outcome (restoreAfter f pre g kvRange serviceRange) r 0 = outcome f (pre ++ r') pre.length

/-- The same, whatever orders the map loops of the suffix take. -/
def ReplaysInAnyOrder (f : FSM) (pre : List Applied) (suffix : List Command) : Prop :=
  ∀ (g : FSM) kvRange serviceRange (r r' : List Applied),
    r.map Applied.command = suffix → r'.map Applied.command = suffix →
      outcome (restoreAfter f pre g kvRange serviceRange) r 0 = outcome f (pre ++ r') pre.length

variable {f : FSM} {pre : List Applied}

theorem outcome_whole (r : List Applied) :
    outcome f (pre ++ r) pre.length =
      Replica.chooser.machine.run (machine.run f pre).1.replica (r.map choiceOf) := by
  have hlen := machine.length_answers f pre
  rw [replica_run, outcome, machine.run_append, ← hlen, List.drop_left]

theorem outcome_restored (hf : (machine.run f pre).1.replica.Text) (g : FSM)
    (kvRange : (snapshot (machine.run f pre).1).json.kvData.Order)
    (serviceRange : (snapshot (machine.run f pre).1).json.serviceData.Order) (r : List Applied) :
    outcome (restoreAfter f pre g kvRange serviceRange) r 0 =
      Replica.chooser.machine.run (machine.run f pre).1.replica.restored (r.map choiceOf) := by
  rw [← replica_restore hf g kvRange serviceRange, replica_run, outcome, List.drop_zero]
  rfl

theorem replaysInOrder_iff (hf : (machine.run f pre).1.replica.Text)
    (suffix : List (Σ c : Command, c.Choice)) :
    ReplaysInOrder f pre suffix ↔ (machine.run f pre).1.replica.KeepsIndices := by
  constructor
  · intro h
    have heq := h f (GoMap.sorted _) (GoMap.sorted _) (ofChoices suffix) (ofChoices suffix)
      (map_choiceOf_ofChoices suffix) (map_choiceOf_ofChoices suffix)
    rw [outcome_restored hf, outcome_whole, map_choiceOf_ofChoices] at heq
    exact Replica.keepsIndices_of_run_eq heq
  · intro hkeeps g kvRange serviceRange r r' hr hr'
    rw [outcome_restored hf, outcome_whole, hr, hr', Replica.restored_of_keepsIndices hkeeps]

theorem replaysInAnyOrder_iff (hf : (machine.run f pre).1.replica.Text) (suffix : List Command) :
    ReplaysInAnyOrder f pre suffix ↔
      ∀ q q' : List (Σ c : Command, c.Choice), q.map Sigma.fst = suffix →
        q'.map Sigma.fst = suffix →
          Replica.chooser.machine.run (machine.run f pre).1.replica.restored q =
            Replica.chooser.machine.run (machine.run f pre).1.replica q' := by
  constructor
  · intro h q q' hq hq'
    have heq := h f (GoMap.sorted _) (GoMap.sorted _) (ofChoices q) (ofChoices q')
      (by rw [map_command_ofChoices, hq]) (by rw [map_command_ofChoices, hq'])
    rwa [outcome_restored hf, outcome_whole, map_choiceOf_ofChoices, map_choiceOf_ofChoices] at heq
  · intro h g kvRange serviceRange r r' hr hr'
    rw [outcome_restored hf, outcome_whole]
    exact h _ _ (by rw [map_fst_choiceOf, hr]) (by rw [map_fst_choiceOf, hr'])

theorem along_orderFree_replica_iff (f : FSM) (r : List Applied) :
    machine.Along (fun f e => f.replica.OrderFree e.command) f r ↔
      Replica.chooser.machine.Along (fun s x => Replica.chooser.Free s x.1) f.replica
        (r.map choiceOf) := by
  have hstep (f : FSM) (e : Applied) :
      (Replica.chooser.machine.step f.replica (choiceOf e)).1 = (machine.step f e).1.replica :=
    congrArg Prod.fst (step_replica f e)
  rw [machine.along_map Replica.chooser.machine replica choiceOf hstep]
  simp only [Replica.free_iff]
  rfl

/-- A log applied from a state that holds text, cut in two: the snapshot in
between cannot be told from its absence exactly when the prefix leaves the newest
index of both stores on an entry, for map loops that take the same orders with
and without it; and for any orders, exactly when moreover no order shows in the
suffix. -/
theorem snapshot_replay_iff (hf : f.replica.Text) (hpre : ∀ e ∈ pre, e.command.Text) :
    (∀ suffix, ReplaysInOrder f pre suffix ↔ (machine.run f pre).1.replica.KeepsIndices) ∧
      ∀ suffix, (∀ n, ReplaysInAnyOrder f pre (suffix.take n)) ↔
        (machine.run f pre).1.replica.KeepsIndices ∧
          ∀ r : List Applied, r.map Applied.command = suffix →
            machine.Along (fun f e => f.replica.OrderFree e.command) (machine.run f pre).1 r := by
  have htext := text_run hf hpre
  refine ⟨replaysInOrder_iff htext, fun suffix => ?_⟩
  simp only [replaysInAnyOrder_iff htext]
  constructor
  · intro h
    have hkeeps : (machine.run f pre).1.replica.KeepsIndices :=
      Replica.keepsIndices_of_run_eq (h 0 [] [] rfl rfl)
    rw [Replica.restored_of_keepsIndices hkeeps] at h
    refine ⟨hkeeps, fun r hr => ?_⟩
    rw [along_orderFree_replica_iff]
    exact (Replica.chooser.agree_prefix_iff _ suffix).mp (fun n q q' => h n q q') _
      (by rw [map_fst_choiceOf, hr])
  · rintro ⟨hkeeps, hfree⟩ n q q' hq hq'
    rw [Replica.restored_of_keepsIndices hkeeps]
    refine (Replica.chooser.agree_prefix_iff _ suffix).mpr (fun q hq => ?_) n q q' hq hq'
    have := hfree (ofChoices q) (by rw [map_command_ofChoices, hq])
    rwa [along_orderFree_replica_iff, map_choiceOf_ofChoices] at this

theorem text_fresh (ttl : Duration) : (fresh ttl).replica.Text where
  kv := ValidMap.empty _
  services := ValidMap.empty _

/-- Two keys written, and the second of them deleted. -/
def writtenAndDeleted : List Applied :=
  [⟨.kv (.set (str "a") (str "1")), (), 0⟩, ⟨.kv (.set (str "b") (str "2")), (), 0⟩,
    ⟨.kv (.delete (str "b")), (), 0⟩]

theorem snapshot_replay_iff_two_writes :
    ReplaysInOrder (fresh 0) (writtenAndDeleted.take 2)
      [⟨.kv (.setCAS (str "a") (str "3") 1), ()⟩] := by
  refine ((snapshot_replay_iff (text_fresh 0) fun e he => ?_).1 _).mpr (by decide)
  rcases List.mem_pair.mp he with rfl | rfl
  · exact (by decide : Utf8.valid (str "a") ∧ Utf8.valid (str "1"))
  · exact (by decide : Utf8.valid (str "b") ∧ Utf8.valid (str "2"))

/-- After the delete a restored store hands out the index 2 once more, and a
compare-and-swap against the deleted entry's index passes. -/
theorem snapshot_reuses_index :
    (outcome (fresh 0) (writtenAndDeleted ++
        [⟨.kv (.set (str "b") (str "3")), (), 0⟩, ⟨.kv (.setCAS (str "b") (str "4") 2), (), 0⟩])
        3).2 =
      [none, some ⟨0, ∅, some (.casConflict (str "b") 2 3 (str "key"))⟩] ∧
    (outcome (restoreAfter (fresh 0) writtenAndDeleted (fresh 0) (GoMap.sorted _) (GoMap.sorted _))
        [⟨.kv (.set (str "b") (str "3")), (), 0⟩, ⟨.kv (.setCAS (str "b") (str "4") 2), (), 0⟩]
        0).2 =
      [none, some ⟨3, ∅, none⟩] := by
  constructor <;> decide

end FSM

end Konsul
