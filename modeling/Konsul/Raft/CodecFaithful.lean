import Konsul.Raft.KVFaithful

/-!
# The log is faithful to text

The same for the commands of the service store, whose registrations are validated
before and whose heartbeats lose their result; and both stores together.
-/

namespace Konsul

open GoLib

/-! ### Tables that tell calls apart -/

namespace ServiceTable

/-- The names of a service before and after the log, free for a registration that
expects the index. -/
def awaiting (service : Service) (n : UInt64) : ServiceTable :=
  { data := GoMap.overwrite ∅ [service.name, service.json.name] fun _ =>
      if n = 0 then none
      else some ⟨{ service with port := service.port + 1 }, 0, n, 0⟩
    tagIndex := ∅, metaIndex := ∅, globalIndex := 0 }

variable {service : Service} {name : GoString}

theorem lookup_awaiting (h : name ∈ [service.name, service.json.name]) (n : UInt64) :
    (awaiting service n).data.lookup name =
      if n = 0 then none else some ⟨{ service with port := service.port + 1 }, 0, n, 0⟩ := by
  rw [awaiting, GoMap.lookup_overwrite, if_pos h]

theorem checkRegisterCAS_awaiting (h : name ∈ [service.name, service.json.name]) (n : UInt64) :
    (awaiting service n).checkRegisterCAS name n = none := by
  rw [checkRegisterCAS, lookup_awaiting h]
  by_cases hn : n = 0 <;> simp [hn]

theorem awaiting_ne (n : UInt64) {entry : ServiceEntry}
    (h : (awaiting service n).data.lookup service.name = some entry) :
    entry.service ≠ service.toSnapshot.toService := by
  rw [lookup_awaiting (List.mem_cons_self ..)] at h
  split_ifs at h
  obtain rfl := Option.some.inj h
  intro hsame
  have hport : service.port + 1 = service.port := congrArg Service.port hsame
  omega

/-- Two registrations that write the same have the same service to write. -/
theorem text_of_put_eq {t : ServiceTable} {expiresAt : Time}
    (hother : ∀ entry, t.data.lookup service.name = some entry →
      entry.service ≠ service.toSnapshot.toService)
    (h : (t.put service.json.toSnapshot.toService expiresAt).data =
      (t.put service.toSnapshot.toService expiresAt).data) : service.Text := by
  have hname : service.toSnapshot.toService.name = service.name := rfl
  have hentry := congrArg (Finmap.lookup service.name) h
  rw [put_data, put_data, hname, Finmap.lookup_insert, GoMap.lookup_insert_ite] at hentry
  split_ifs at hentry with hkey
  · have hservice := congrArg ServiceEntry.service (Option.some.inj hentry)
    exact Service.toSnapshot_json_iff.mp (congrArg Service.toSnapshot hservice)
  · exact absurd rfl (hother _ hentry)

/-- One service, with an index. -/
def only (name : GoString) (n : UInt64) : ServiceTable :=
  { data := GoMap.overwrite ∅ [name] fun _ => some ⟨web, 0, n, 0⟩
    tagIndex := ∅, metaIndex := ∅, globalIndex := 0 }

theorem lookup_only (name : GoString) (n : UInt64) :
    (only name n).data.lookup name = some ⟨web, 0, n, 0⟩ := by
  rw [only, GoMap.lookup_overwrite, if_pos (List.mem_singleton_self name)]

theorem valid_of_notMem_remove {t : ServiceTable} {name : GoString} (hname : name ∈ t.data)
    (h : name ∉ (t.remove (jsonString name)).data) : Utf8.valid name := by
  rw [remove_data] at h
  have hsame := (GoMap.notMem_erase_iff t.data (jsonString name) name).mp h
  exact (Utf8.toValid_eq_iff name).mp (hsame.resolve_right fun hnot => hnot hname)

end ServiceTable

/-! ### Registrations by their verdict -/

namespace ServiceStore

variable (s : ServiceStore) (now : Time) {service : Service}

theorem registerLocal_err (range : service.metadata.Order) :
    (s.registerLocal now service.toSnapshot range).2 = validateService service range := by
  have hdata : validateService service.toSnapshot.toService range = validateService service range :=
    rfl
  simp only [registerLocal, ← hdata]
  cases validateService service.toSnapshot.toService range <;> rfl

theorem registerCASLocal_err {n : UInt64}
    (h : s.toServiceTable.checkRegisterCAS service.name n = none) (range : service.metadata.Order) :
    (s.registerCASLocal now service.toSnapshot range n).2.2 = validateService service range := by
  have hdata : validateService service.toSnapshot.toService range = validateService service range :=
    rfl
  have hcheck : s.toServiceTable.checkRegisterCAS service.toSnapshot.name n = none := h
  simp only [registerCASLocal, hcheck, ← hdata]
  cases validateService service.toSnapshot.toService range <;> rfl

theorem registerCASLocal_of_valid (h : service.Valid) (range : service.metadata.Order)
    (n : UInt64) :
    s.registerCASLocal now service.toSnapshot range n =
      match s.toServiceTable.checkRegisterCAS service.toSnapshot.name n with
      | some err => (s, 0, some err)
      | none =>
        ({ s with toServiceTable := s.toServiceTable.put service.toSnapshot.toService (now + s.ttl) },
          s.toServiceTable.nextIndex, none) := by
  have hvalid : validateService service.toSnapshot.toService range = none :=
    (service.valid_iff range).mp h
  cases hcheck : s.toServiceTable.checkRegisterCAS service.toSnapshot.name n with
  | some err => simp only [registerCASLocal, hvalid, hcheck]
  | none => simp only [registerCASLocal, hvalid, hcheck]

theorem registerCASLocal_of_invalid {range : service.metadata.Order} {err : GoError}
    (h : validateService service range = some err) (n : UInt64) :
    s.registerCASLocal now service.toSnapshot range n = (s, 0, some err) := by
  have hinvalid : validateService service.toSnapshot.toService range = some err := h
  simp only [registerCASLocal, hinvalid]

end ServiceStore

namespace Service

theorem valid_iff_verdicts (service : Service) : service.Valid ↔ none ∈ service.verdicts := Iff.rfl

theorem exists_verdict {service service' : Service} (h : service.verdicts = service'.verdicts)
    (range : service.metadata.Order) :
    ∃ range', validateService service' range' = validateService service range := by
  have hmem : validateService service range ∈ service'.verdicts := h ▸ ⟨range, rfl⟩
  exact hmem

/-- Each order of one goes with an order of the other that gives the same verdict. -/
theorem matched_of_verdicts {service service' : Service} (h : service.verdicts = service'.verdicts)
    {P : service'.metadata.Order → service.metadata.Order → Prop}
    (hP : ∀ ch ch', validateService service' ch = validateService service ch' → P ch ch') :
    (∀ ch, ∃ ch', P ch ch') ∧ ∀ ch', ∃ ch, P ch ch' := by
  constructor
  · intro ch
    obtain ⟨ch', hch'⟩ := exists_verdict h.symm ch
    exact ⟨ch', hP ch ch' hch'.symm⟩
  · intro ch'
    obtain ⟨ch, hch⟩ := exists_verdict h ch'
    exact ⟨ch, hP ch ch' hch⟩

theorem lossless_of_verdicts {service : Service}
    (hjson : ∀ range, ∃ range', validateService service.json range = validateService service range')
    (hplain : ∀ range', ∃ range, validateService service.json range = validateService service range')
    (htext : service.Valid → service.json.Valid → service.Text) : service.Lossless := by
  have hverdicts : service.verdicts = service.json.verdicts := by
    refine Set.Subset.antisymm ?_ ?_
    · rintro _ ⟨range', rfl⟩
      obtain ⟨range, hsame⟩ := hplain range'
      exact ⟨range, hsame⟩
    · rintro _ ⟨range, rfl⟩
      obtain ⟨range', hsame⟩ := hjson range
      exact ⟨range', hsame.symm⟩
  refine ⟨hverdicts, fun hvalid => htext hvalid ?_⟩
  rw [valid_iff_verdicts] at hvalid ⊢
  rwa [← hverdicts]

theorem Text.lossless {service : Service} (h : service.Text) : service.Lossless := by
  have hdata : service.json.toSnapshot = service.toSnapshot := h.toSnapshot_json
  have hverdicts (d : ServiceDataSnapshot) (hd : d = service.toSnapshot) :
      service.verdicts = d.toService.verdicts := by
    subst hd
    rfl
  exact ⟨hverdicts _ hdata, fun _ => h⟩

end Service

/-! ### Commands -/

namespace ServiceCommand

/-- A cluster state with the service store alone. -/
def stateOf (t : ServiceTable) (m : Manager) : FSM :=
  { kvStore := .new, serviceStore := { toServiceTable := t, ttl := 0, engine := none, healthManager := m } }

theorem agrees_of_eq {c c' : ServiceCommand} (h : c' = c)
    (hcarries : ∀ s now ch, (FSM.applyService s now c ch).2.Carries
      (ServiceStore.callLocal s now c ch).2) (f : FSM) (now : Time) :
    FSM.Agrees f now (.service c) (.service c') := by
  subst h
  have hstate (s : ServiceStore) (ch : c'.Choice) :
      (FSM.applyService s now c' ch).1 = (s.callLocal now c' ch).1 := by
    cases c' <;> rfl
  have hsame (ch : c'.Choice) : SameOutcome (f.apply now (.service c') ch)
      (LocalCall.run f now (.service c') ch) :=
    ⟨congrArg (fun s => { f with serviceStore := s }) (hstate f.serviceStore ch),
      hcarries f.serviceStore now ch⟩
  exact ⟨fun ch => ⟨ch, hsame ch⟩, fun ch => ⟨ch, hsame ch⟩⟩

/-! #### Registrations -/

section Register

variable {service : Service}

theorem agrees_register (h : service.Lossless) (f : FSM) (now : Time) :
    FSM.Agrees f now (.service (.register service)) (.service (.register service.json)) := by
  obtain ⟨hverdicts, htext⟩ := h
  have hsame (ch : service.json.metadata.Order) (ch' : service.metadata.Order)
      (hverdict : validateService service.json ch = validateService service ch') :
      SameOutcome (f.apply now (.service (.register service.json)) ch)
        (LocalCall.run f now (.service (.register service)) ch') := by
    have hstores : f.serviceStore.registerLocal now service.json.toSnapshot ch =
        f.serviceStore.registerLocal now service.toSnapshot ch' := by
      cases hnew : validateService service ch' with
      | none =>
        have hvalid : service.Valid := ⟨ch', hnew⟩
        have hjson : service.json.Valid := ⟨ch, hverdict.trans hnew⟩
        have hdata : service.json.toSnapshot = service.toSnapshot := (htext hvalid).toSnapshot_json
        rw [f.serviceStore.registerLocal_of_valid now hvalid,
          f.serviceStore.registerLocal_of_valid now hjson, hdata]
      | some err =>
        have hplain : validateService service.toSnapshot.toService ch' = some err := hnew
        have hjson : validateService service.json.toSnapshot.toService ch = some err :=
          hverdict.trans hnew
        simp only [ServiceStore.registerLocal, hplain, hjson]
    exact ⟨congrArg (fun r => { f with serviceStore := r.1 }) hstores, congrArg Prod.snd hstores⟩
  obtain ⟨happlied, hcalled⟩ := Service.matched_of_verdicts hverdicts hsame
  exact ⟨happlied, hcalled⟩

theorem agrees_registerCAS (h : service.Lossless) (expectedIndex : UInt64) (f : FSM) (now : Time) :
    FSM.Agrees f now (.service (.registerCAS service expectedIndex))
      (.service (.registerCAS service.json expectedIndex)) := by
  obtain ⟨hverdicts, htext⟩ := h
  have hsame (ch : service.json.metadata.Order) (ch' : service.metadata.Order)
      (hverdict : validateService service.json ch = validateService service ch') :
      SameOutcome (f.apply now (.service (.registerCAS service.json expectedIndex)) ch)
        (LocalCall.run f now (.service (.registerCAS service expectedIndex)) ch') := by
    have hstores : f.serviceStore.registerCASLocal now service.json.toSnapshot ch expectedIndex =
        f.serviceStore.registerCASLocal now service.toSnapshot ch' expectedIndex := by
      cases hnew : validateService service ch' with
      | none =>
        have hvalid : service.Valid := ⟨ch', hnew⟩
        have hjson : service.json.Valid := ⟨ch, hverdict.trans hnew⟩
        have hdata : service.json.toSnapshot = service.toSnapshot := (htext hvalid).toSnapshot_json
        rw [f.serviceStore.registerCASLocal_of_valid now hvalid,
          f.serviceStore.registerCASLocal_of_valid now hjson, hdata]
      | some err =>
        rw [f.serviceStore.registerCASLocal_of_invalid now hnew,
          f.serviceStore.registerCASLocal_of_invalid now (hverdict.trans hnew)]
    refine ⟨congrArg (fun r => { f with serviceStore := r.1 }) hstores, ?_⟩
    exact congrArg (fun r => CASResult.mk r.2.1 ∅ r.2.2) hstores
  obtain ⟨happlied, hcalled⟩ := Service.matched_of_verdicts hverdicts hsame
  exact ⟨happlied, hcalled⟩

theorem lossless_register
    (h : ∀ f now, FSM.Agrees f now (.service (.register service))
      (.service (.register service.json))) : service.Lossless := by
  let f := stateOf (.awaiting service 0) .new
  have hverdict (ch : service.json.metadata.Order) (ch' : service.metadata.Order)
      (hsame : SameOutcome (f.apply 0 (.service (.register service.json)) ch)
        (LocalCall.run f 0 (.service (.register service)) ch')) :
      validateService service.json ch = validateService service ch' := by
    have hresult : (f.serviceStore.registerLocal 0 service.json.toSnapshot ch).2 =
        (f.serviceStore.registerLocal 0 service.toSnapshot ch').2 := hsame.2
    rwa [ServiceStore.registerLocal_err, ServiceStore.registerLocal_err] at hresult
  refine Service.lossless_of_verdicts (fun ch => ?_) (fun ch' => ?_) fun hvalid hjson => ?_
  · obtain ⟨ch', hsame⟩ := (h f 0).applied ch
    exact ⟨ch', hverdict ch ch' hsame⟩
  · obtain ⟨ch, hsame⟩ := (h f 0).called ch'
    exact ⟨ch, hverdict ch ch' hsame⟩
  · obtain ⟨(ch' : service.metadata.Order), hstate, -⟩ :=
      (h f 0).applied (GoMap.sorted service.json.metadata)
    have hstores : (f.serviceStore.registerLocal 0 service.json.toSnapshot _).1 =
        (f.serviceStore.registerLocal 0 service.toSnapshot ch').1 :=
      congrArg FSM.serviceStore hstate
    rw [f.serviceStore.registerLocal_of_valid 0 hvalid,
      f.serviceStore.registerLocal_of_valid 0 hjson] at hstores
    exact ServiceTable.text_of_put_eq (fun entry hentry => ServiceTable.awaiting_ne 0 hentry)
      (congrArg ServiceTable.data (congrArg ServiceStore.toServiceTable hstores))

theorem lossless_registerCAS {expectedIndex : UInt64}
    (h : ∀ f now, FSM.Agrees f now (.service (.registerCAS service expectedIndex))
      (.service (.registerCAS service.json expectedIndex))) : service.Lossless := by
  let f := stateOf (.awaiting service expectedIndex) .new
  have hplain : f.serviceStore.toServiceTable.checkRegisterCAS service.toSnapshot.name
      expectedIndex = none :=
    ServiceTable.checkRegisterCAS_awaiting (List.mem_cons_self ..) expectedIndex
  have hjson : f.serviceStore.toServiceTable.checkRegisterCAS service.json.toSnapshot.name
      expectedIndex = none :=
    ServiceTable.checkRegisterCAS_awaiting
      (List.mem_cons_of_mem _ (List.mem_singleton_self _)) expectedIndex
  have hverdict (ch : service.json.metadata.Order) (ch' : service.metadata.Order)
      (hsame : SameOutcome (f.apply 0 (.service (.registerCAS service.json expectedIndex)) ch)
        (LocalCall.run f 0 (.service (.registerCAS service expectedIndex)) ch')) :
      validateService service.json ch = validateService service ch' := by
    have hresult : (f.serviceStore.registerCASLocal 0 service.json.toSnapshot ch expectedIndex).2.2 =
        (f.serviceStore.registerCASLocal 0 service.toSnapshot ch' expectedIndex).2.2 :=
      congrArg CASResult.err hsame.2
    rwa [ServiceStore.registerCASLocal_err _ _ hjson, ServiceStore.registerCASLocal_err _ _ hplain]
      at hresult
  refine Service.lossless_of_verdicts (fun ch => ?_) (fun ch' => ?_) fun hvalid hjsonValid => ?_
  · obtain ⟨ch', hsame⟩ := (h f 0).applied ch
    exact ⟨ch', hverdict ch ch' hsame⟩
  · obtain ⟨ch, hsame⟩ := (h f 0).called ch'
    exact ⟨ch, hverdict ch ch' hsame⟩
  · obtain ⟨(ch' : service.metadata.Order), hstate, -⟩ :=
      (h f 0).applied (GoMap.sorted service.json.metadata)
    have hstores : (f.serviceStore.registerCASLocal 0 service.json.toSnapshot _ expectedIndex).1 =
        (f.serviceStore.registerCASLocal 0 service.toSnapshot ch' expectedIndex).1 :=
      congrArg FSM.serviceStore hstate
    rw [f.serviceStore.registerCASLocal_of_valid 0 hvalid,
      f.serviceStore.registerCASLocal_of_valid 0 hjsonValid, hplain, hjson] at hstores
    exact ServiceTable.text_of_put_eq
      (fun entry hentry => ServiceTable.awaiting_ne expectedIndex hentry)
      (congrArg ServiceTable.data (congrArg ServiceStore.toServiceTable hstores))

end Register

/-- Whether the service was there is lost. -/
theorem agrees_heartbeat_iff {name : GoString} (h : Utf8.valid name) (f : FSM) (now : Time) :
    FSM.Agrees f now (.service (.heartbeat name)) (.service (ServiceCommand.heartbeat name).json) ↔
      name ∈ f.serviceStore.data := by
  have hjson : (ServiceCommand.heartbeat name).json = .heartbeat name := by
    rw [json, jsonString, Utf8.toValid_of_valid h]
  have hfound : (f.serviceStore.heartbeatLocal now name).2 = true ↔ name ∈ f.serviceStore.data := by
    rw [ServiceStore.heartbeatLocal]
    cases hl : f.serviceStore.data.lookup name with
    | none => exact iff_of_false (fun h => by cases h) (Finmap.lookup_eq_none.mp hl)
    | some entry => exact iff_of_true rfl (Finmap.mem_of_lookup_eq_some hl)
  rw [hjson, ← hfound]
  have hsame : SameOutcome (f.apply now (.service (.heartbeat name)) ())
      (LocalCall.run f now (.service (.heartbeat name)) ()) ↔
        (f.serviceStore.heartbeatLocal now name).2 = true :=
    ⟨fun h => h.2.mp rfl, fun h => ⟨rfl, iff_of_true rfl h⟩⟩
  rw [← hsame]
  constructor
  · intro hagrees
    obtain ⟨ch', hoccurs⟩ := hagrees.applied ()
    exact hoccurs
  · exact fun hoccurs => ⟨fun _ => ⟨(), hoccurs⟩, fun _ => ⟨(), hoccurs⟩⟩

theorem agrees_iff_lossless {c : ServiceCommand} :
    (∀ f now, FSM.Agrees f now (.service c) (.service c.json)) ↔ c.Lossless := by
  cases c with
  | register service => exact ⟨lossless_register, fun h f now => agrees_register h f now⟩
  | registerCAS service expectedIndex =>
    exact ⟨lossless_registerCAS, fun h f now => agrees_registerCAS h expectedIndex f now⟩
  | heartbeat name =>
    refine iff_of_false (fun h => ?_) (fun h => h)
    obtain ⟨ch', -, hresult⟩ := (h (.fresh 0) 0).applied ()
    exact Bool.false_ne_true (hresult.mp rfl)
  | deregister name =>
    constructor
    · intro h
      let f := stateOf (.only name 0) .new
      have hname : name ∈ f.serviceStore.data :=
        Finmap.mem_of_lookup_eq_some (ServiceTable.lookup_only name 0)
      obtain ⟨ch', hstate, -⟩ := (h f 0).applied ()
      have htables := congrArg ServiceStore.toServiceTable (congrArg FSM.serviceStore hstate)
      change f.serviceStore.toServiceTable.remove (jsonString name) =
        f.serviceStore.toServiceTable.remove name at htables
      refine ServiceTable.valid_of_notMem_remove hname ?_
      rw [htables, ServiceTable.remove_data]
      exact (GoMap.notMem_erase_iff _ name name).mpr (.inl rfl)
    · intro h
      refine agrees_of_eq ?_ (fun _ _ _ => rfl)
      rw [json, jsonString, Utf8.toValid_of_valid h]
  | deregisterCAS name expectedIndex =>
    constructor
    · intro h
      let f := stateOf (.only name expectedIndex) .new
      have hlookup : f.serviceStore.data.lookup name = some ⟨web, 0, expectedIndex, 0⟩ :=
        ServiceTable.lookup_only name expectedIndex
      have hname : name ∈ f.serviceStore.data := Finmap.mem_of_lookup_eq_some hlookup
      have hcheck : f.serviceStore.toServiceTable.checkDeregisterCAS name expectedIndex = none := by
        simp [ServiceTable.checkDeregisterCAS, hlookup]
      obtain ⟨ch', hstate, -⟩ := (h f 0).applied ()
      have htables : (f.serviceStore.deregisterCASLocal (jsonString name) expectedIndex).1 =
        (f.serviceStore.deregisterCASLocal name expectedIndex).1 := congrArg FSM.serviceStore hstate
      have hgone : name ∉ (f.serviceStore.deregisterCASLocal (jsonString name)
          expectedIndex).1.data := by
        rw [htables]
        simp only [ServiceStore.deregisterCASLocal, hcheck, ServiceTable.remove_data]
        exact (GoMap.notMem_erase_iff _ name name).mpr (.inl rfl)
      cases hjson : f.serviceStore.toServiceTable.checkDeregisterCAS (jsonString name)
          expectedIndex with
      | some err =>
        simp only [ServiceStore.deregisterCASLocal, hjson] at hgone
        exact absurd hname hgone
      | none =>
        simp only [ServiceStore.deregisterCASLocal, hjson] at hgone
        exact ServiceTable.valid_of_notMem_remove hname hgone
    · intro h
      refine agrees_of_eq ?_ (fun _ _ _ => rfl)
      rw [json, jsonString, Utf8.toValid_of_valid h]
  | ttlUpdate checkID =>
    constructor
    · intro h
      let check := Manager.newCheck ⟨0, fun _ => [], fun _ => none⟩ CheckDefinition.empty
      let m : Manager := ⟨(∅ : GoMap GoString Check).insert checkID check⟩
      obtain ⟨ch', -, hresult⟩ := (h (stateOf (.only [] 0) m) 0).applied ()
      have herr : (m.updateTTLCheck 0 (jsonString checkID)).2 = (m.updateTTLCheck 0 checkID).2 :=
        hresult
      have hcalled : (m.updateTTLCheck 0 checkID).2 = none := by
        simp only [Manager.updateTTLCheck, m, Finmap.lookup_insert]
        rfl
      rw [hcalled] at herr
      by_contra hvalid
      have hne : jsonString checkID ≠ checkID := mt (Utf8.toValid_eq_iff checkID).mp hvalid
      simp only [Manager.updateTTLCheck, m, Finmap.lookup_insert_of_ne _ hne, Finmap.lookup_empty]
        at herr
      cases herr
    · intro h
      refine agrees_of_eq ?_ (fun _ _ _ => rfl)
      rw [json, jsonString, Utf8.toValid_of_valid h]

end ServiceCommand

/-! ### Both stores -/

/-- The log carries a call faithfully iff every string that matters is text and the call
is no heartbeat; a heartbeat of a name that is text is carried where the service is there. -/
theorem LocalCall.faithful_iff_lossless {c : LocalCall} (hc : c.Typed) :
    (c.Faithful ↔ c.Lossless) ∧
      ∀ name, c = .service (.heartbeat name) → Utf8.valid name → ∀ f now,
        (c.FaithfulAt f now ↔ name ∈ f.serviceStore.data) := by
  constructor
  · have hagrees := forall₂_congr (faithfulAt_iff_agrees hc)
    rw [Faithful, hagrees]
    cases c with
    | kv c => exact KVCommand.agrees_iff_lossless
    | service c => exact ServiceCommand.agrees_iff_lossless
  · rintro name rfl hname f now
    rw [faithfulAt_iff_agrees hc]
    exact ServiceCommand.agrees_heartbeat_iff hname f now

theorem LocalCall.faithful_register_web : (LocalCall.service (.register web)).Faithful := by
  have hport : Json.Codec.IsInt web.port := by
    constructor <;> decide
  refine (LocalCall.faithful_iff_lossless (c := .service (.register web)) hport).1.mpr ?_
  refine Service.Text.lossless ⟨by decide, by decide, fun tag htag => (nomatch htag), ?_⟩
  exact ValidMap.empty _

/-- A key with a stray byte: the log writes another key. -/
theorem LocalCall.stray_key_replaced :
    let c : KVCommand := .set [0xFF] (str "v")
    let f := FSM.fresh 10
    ¬ (LocalCall.kv c).Faithful ∧
      (∀ jsonError, FSM.decode jsonError (c.wire 0).marshal =
        .kv (.set [0xEF, 0xBF, 0xBD] (str "v"))) ∧
      (f.apply 0 (.kv (.set [0xEF, 0xBF, 0xBD] (str "v"))) ()).1.kvStore.get [0xFF] = none ∧
      (f.kvStore.setLocal [0xFF] (str "v")).get [0xFF] = some (str "v") := by
  refine ⟨fun h => ?_, fun jsonError => ?_, by decide, by decide⟩
  · have hagrees := forall₂_congr (faithfulAt_iff_agrees (c := .kv (.set [0xFF] (str "v"))) trivial)
    have hlossless := KVCommand.agrees_iff_lossless.mp (hagrees.mp h)
    exact absurd hlossless.1 (by decide)
  · exact (KVCommand.set [0xFF] (str "v")).decode_wire isInt_zero

end Konsul
