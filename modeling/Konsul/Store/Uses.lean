import Konsul.Raft.Commands
import Konsul.Store.Alike
import Konsul.Store.LocalWrites
import Mathlib.Data.Fintype.EquivFin

/-!
# What the uses of two stores tell

A `StoreUse` is a call of one of a server's two stores. Reads and compare-and-swap
operations see everything of the tables: the entries, and the counters the next indices
are taken from.
-/

namespace Konsul

open GoLib

/-! ### Calls -/

structure Stores where
  kv : KVStore
  services : ServiceStore

inductive StoreUse where
  | get (key : GoString)
  | getEntry (key : GoString)
  | kv (op : KVOp)
  /-- The `Local` method, which the log is applied with. -/
  | kvLocal (op : KVOp)
  | service (env : StoreEnv) (call : ServiceCall)

inductive StoreAnswer where
  | value (v : Option GoString)
  | entry (e : Option KVEntry)
  | written (r : KVResult)
  | service (a : ServiceAnswer)

/-- The calls one after the other. -/
def Stores.machine : Machine Stores StoreUse StoreAnswer where
  step s
    | .get key => (s, .value (s.kv.get key))
    | .getEntry key => (s, .entry (s.kv.getEntry key))
    | .kv op => ({ s with kv := (op.apply s.kv).1 }, .written (op.apply s.kv).2)
    | .kvLocal op => ({ s with kv := (op.applyLocal s.kv).1 }, .written (op.applyLocal s.kv).2)
    | .service env call =>
      ({ s with services := (call.apply s.services env).1 },
        .service (call.apply s.services env).2)

def KVOp.IsCAS : KVOp → Prop
  | setCAS .. | deleteCAS .. | batchSetCAS .. | batchDeleteCAS .. => True
  | _ => False

/-- Reads of the store and compare-and-swap operations. -/
def ServiceCall.ReadOrCAS : ServiceCall → Prop
  | registerCAS .. | deregisterCAS .. | registerCASLocal .. | deregisterCASLocal .. | get _
  | getEntry _ | list _ | queryByTags .. | queryByMetadata .. | queryByTagsAndMetadata .. => True
  | _ => False

namespace StoreUse

def ReadOrCAS : StoreUse → Prop
  | get _ | getEntry _ => True
  | kv op | kvLocal op => op.IsCAS
  | service _ call => call.ReadOrCAS

/-- The clock reads no earlier time. -/
def Since (now : Time) : StoreUse → Prop
  | service env call => ∀ t ∈ call.clock env.now, now ≤ t
  | _ => True

end StoreUse

/-- Whatever is done from `now` on, reads and compare-and-swap operations are answered as
by `s'`. -/
def Stores.AnswersAs (s s' : Stores) (now : Time) : Prop :=
  ∀ (uses : List StoreUse) (last : StoreUse), (∀ u ∈ uses ++ [last], u.Since now) →
    last.ReadOrCAS →
    (machine.step (machine.run s uses).1 last).2 = (machine.step (machine.run s' uses).1 last).2

/-! ### Equal tables answer alike -/

theorem KVOp.applyLocal_withEngine (kv : KVStore) (engine : Option Engine) (op : KVOp) :
    op.applyLocal { kv with engine } =
      ({ (op.applyLocal kv).1 with engine }, (op.applyLocal kv).2) := by
  cases op with
  | setCAS key value expectedIndex =>
    simp only [applyLocal, KVStore.setCASLocal, KVTable.setCAS]
    cases kv.toKVTable.checkSetCAS key expectedIndex <;> rfl
  | deleteCAS key expectedIndex =>
    simp only [applyLocal, KVStore.deleteCASLocal, KVTable.deleteCAS]
    cases kv.toKVTable.checkDeleteCAS key expectedIndex <;> rfl
  | batchSetCAS items expectedIndices check range watch =>
    simp only [applyLocal, KVStore.batchSetCASLocal]
    cases kv.toKVTable.checkSetAll check.list expectedIndices <;> rfl
  | batchDeleteCAS keys expectedIndices watch =>
    simp only [applyLocal, KVStore.batchDeleteCASLocal]
    cases kv.toKVTable.checkDeleteAll keys expectedIndices <;> rfl
  | _ => rfl

theorem KVOp.alike_applyLocal {kv kv' : KVStore} (h : kv.Alike kv') (op : KVOp) :
    (op.applyLocal kv).1.Alike (op.applyLocal kv').1 ∧
      (op.applyLocal kv').2 = (op.applyLocal kv).2 := by
  -- without their engines the two bodies of an operation do the same
  have hbare (kv : KVStore) : op.applyLocal kv =
      ({ (op.apply { kv with engine := none }).1 with engine := kv.engine },
        (op.apply { kv with engine := none }).2) := by
    have hlocal := op.applyLocal_withEngine { kv with engine := none } kv.engine
    have hnone : ({ kv with engine := none } : KVStore).engine = none := rfl
    have hsame := KVStore.applyLocal_eq hnone op
    rwa [hsame] at hlocal
  have halike : KVStore.Alike { kv with engine := none } { kv' with engine := none } :=
    ⟨h.table, rfl⟩
  obtain ⟨hnext, hresult⟩ := op.alike_apply halike
  rw [hbare kv, hbare kv']
  exact ⟨⟨hnext.table, h.fault⟩, hresult⟩

theorem ServiceCall.alike_next {s s' : ServiceStore} (h : s.Alike s') (env : StoreEnv)
    (call : ServiceCall) : (call.apply s env).1.Alike (call.apply s' env).1 := by
  by_cases hcall : call.OfStore
  · exact (alike_apply h env hcall).1
  · cases call with
    | updateTTLCheck checkID => exact ⟨h.data, h.globalIndex, h.ttl, h.faults, h.exact, h.exact'⟩
    | _ => exact absurd trivial hcall

theorem ServiceCall.ReadOrCAS.ofStore {call : ServiceCall} (h : call.ReadOrCAS) : call.OfStore := by
  cases call with
  | updateTTLCheck checkID => exact h.elim
  | _ => trivial

namespace Stores

structure Alike (s s' : Stores) : Prop where
  kv : s.kv.Alike s'.kv
  services : s.services.Alike s'.services

variable {s s' : Stores}

theorem Alike.step (h : s.Alike s') (u : StoreUse) :
    (machine.step s u).1.Alike (machine.step s' u).1 := by
  cases u with
  | get key => exact h
  | getEntry key => exact h
  | kv op => exact ⟨(op.alike_apply h.kv).1, h.services⟩
  | kvLocal op => exact ⟨(op.alike_applyLocal h.kv).1, h.services⟩
  | service env call => exact ⟨h.kv, call.alike_next h.services env⟩

theorem Alike.run (h : s.Alike s') (uses : List StoreUse) :
    (machine.run s uses).1.Alike (machine.run s' uses).1 := by
  induction uses generalizing s s' with
  | nil => exact h
  | cons u uses ih => exact ih (h.step u)

theorem Alike.answer (h : s.Alike s') {u : StoreUse} (hu : u.ReadOrCAS) :
    (machine.step s u).2 = (machine.step s' u).2 := by
  cases u with
  | get key =>
    have hdata : s'.kv.data = s.kv.data := congrArg KVTable.data h.kv.table
    simp only [machine, KVStore.get, hdata]
  | getEntry key =>
    have hdata : s'.kv.data = s.kv.data := congrArg KVTable.data h.kv.table
    simp only [machine, KVStore.getEntry, hdata]
  | kv op => exact congrArg StoreAnswer.written (op.alike_apply h.kv).2.symm
  | kvLocal op => exact congrArg StoreAnswer.written (op.alike_applyLocal h.kv).2.symm
  | service env call =>
    exact congrArg StoreAnswer.service (call.alike_apply h.services env hu.ofStore).2.symm

theorem Alike.answersAs (h : s.Alike s') (now : Time) : s.AnswersAs s' now :=
  fun uses _ _ hlast => (h.run uses).answer hlast

/-! ### Unequal tables do not -/

variable {now : Time}

theorem AnswersAs.first (h : s.AnswersAs s' now) {u : StoreUse} (hsince : u.Since now)
    (hu : u.ReadOrCAS) : (machine.step s u).2 = (machine.step s' u).2 := by
  refine h [] u (fun u' hu' => ?_) hu
  rw [List.nil_append, List.mem_singleton] at hu'
  rwa [hu']

theorem AnswersAs.kv_data (h : s.AnswersAs s' now) : s.kv.data = s'.kv.data := by
  refine Finmap.ext_lookup fun key => ?_
  have hanswer := h.first (u := .getEntry key) trivial trivial
  exact StoreAnswer.entry.inj hanswer

theorem setCAS_new {kv : KVStore} {key : GoString} (hnew : key ∉ kv.data) :
    (kv.setCAS key [] 0).2.1 = kv.globalIndex + 1 := by
  have hnone : kv.data.lookup key = none := Finmap.lookup_eq_none.mpr hnew
  have hcheck : kv.toKVTable.checkSetCAS key 0 = none := by
    rw [KVTable.checkSetCAS, hnone]
    rfl
  simp only [KVStore.setCAS, KVTable.setCAS, hcheck, KVTable.nextIndex]

theorem AnswersAs.kv_globalIndex (h : s.AnswersAs s' now) :
    s.kv.globalIndex = s'.kv.globalIndex := by
  obtain ⟨key, hkey⟩ := Infinite.exists_notMem_finset s.kv.data.keys
  have hnew : key ∉ s.kv.data := hkey
  have hnew' : key ∉ s'.kv.data := h.kv_data ▸ hnew
  have hanswer := h.first (u := .kv (.setCAS key [] 0)) trivial trivial
  have hindex := congrArg KVResult.newIndex (StoreAnswer.written.inj hanswer)
  have hnext : s.kv.globalIndex + 1 = s'.kv.globalIndex + 1 := by
    rw [← setCAS_new hnew, ← setCAS_new hnew']
    exact hindex
  exact add_right_cancel hnext

theorem deleteService_works {services : ServiceStore}
    (hworks : ∀ m, services.engine = some m → m.fault = none) (t : ServiceTable)
    (name : GoString) :
    ({ services with toServiceTable := t }.persist (·.deleteService name)).2 = none := by
  unfold ServiceStore.persist
  cases hengine : services.engine with
  | none => rfl
  | some m => simp only [Engine.deleteService, Engine.attempt, hworks m hengine]

/-- A read finds an entry that has not expired, and a conditional removal any entry. -/
theorem AnswersAs.services_data (h : s.AnswersAs s' now)
    (hworks : ∀ m, s.services.engine = some m → m.fault = none)
    (hlive : ∀ name e, s'.services.data.lookup name = some e → now ≤ e.expiresAt) :
    s.services.data = s'.services.data := by
  have hclock {env : StoreEnv} (henv : env.now = now) {call : ServiceCall}
      (hcall : call.clock env.now = [env.now]) : (StoreUse.service env call).Since now := by
    intro t ht
    rw [hcall, List.mem_singleton] at ht
    rw [ht, henv]
  refine Finmap.ext_lookup fun name => ?_
  cases hname : s'.services.data.lookup name with
  | some e =>
    have hanswer := h.first (u := .service (TimedCall.envAt now) (.getEntry name))
      (hclock rfl rfl) trivial
    have hentry : s.services.getEntry now name = s'.services.getEntry now name :=
      ServiceAnswer.entry.inj (StoreAnswer.service.inj hanswer)
    have hnot : ¬ e.expiresAt < now := by
      exact not_lt.mpr (hlive name e hname)
    simp only [ServiceStore.getEntry, hname, if_neg hnot] at hentry
    cases hlookup : s.services.data.lookup name with
    | none => simp [hlookup] at hentry
    | some e' =>
      simp only [hlookup] at hentry
      split_ifs at hentry
      exact hentry
  | none =>
    have hanswer := h.first (u := .service (TimedCall.envAt now) (.deregisterCAS name 0))
      (hclock rfl rfl) trivial
    have herr : (s.services.deregisterCAS name 0).2 = (s'.services.deregisterCAS name 0).2 :=
      ServiceAnswer.done.inj (StoreAnswer.service.inj hanswer)
    have hcheck' : s'.services.toServiceTable.checkDeregisterCAS name 0 =
        some (.notFound (str "service") name) := by
      rw [ServiceTable.checkDeregisterCAS, hname]
    simp only [ServiceStore.deregisterCAS, hcheck'] at herr
    cases hlookup : s.services.data.lookup name with
    | none => rfl
    | some e =>
      exfalso
      by_cases hindex : e.modifyIndex ≠ 0
      · have hcheck : s.services.toServiceTable.checkDeregisterCAS name 0 =
            some (ServiceTable.conflict name 0 e.modifyIndex) := by
          simp only [ServiceTable.checkDeregisterCAS, hlookup, if_pos hindex]
        simp only [hcheck] at herr
        cases herr
      · have hcheck : s.services.toServiceTable.checkDeregisterCAS name 0 = none := by
          simp only [ServiceTable.checkDeregisterCAS, hlookup, if_neg hindex]
        simp only [hcheck] at herr
        have hnone := deleteService_works hworks (s.services.toServiceTable.remove name) name
        rw [hnone] at herr
        cases herr

theorem registerCAS_new {services : ServiceStore} (env : StoreEnv) {name : GoString}
    (hname : name ≠ []) (hnew : name ∉ services.data) :
    (services.registerCAS env { web with name } noMetadata 0).2.1 =
      services.globalIndex + 1 := by
  have hvalid : validateService { web with name } noMetadata = none := by
    have hweb : validateService web noMetadata = none := by decide
    have hrest : validateService { web with name } noMetadata = validateService web noMetadata := by
      unfold validateService
      exact (if_neg hname).trans (if_neg (by decide)).symm
    rw [hrest, hweb]
  have hnone : services.data.lookup name = none := Finmap.lookup_eq_none.mpr hnew
  have hcheck : services.toServiceTable.checkRegisterCAS name 0 = none := by
    rw [ServiceTable.checkRegisterCAS, hnone]
    rfl
  simp only [ServiceStore.registerCAS, hvalid, hcheck, ServiceTable.nextIndex]

theorem AnswersAs.services_globalIndex (h : s.AnswersAs s' now)
    (hdata : s.services.data = s'.services.data) :
    s.services.globalIndex = s'.services.globalIndex := by
  obtain ⟨name, hname⟩ := Infinite.exists_notMem_finset (insert [] s.services.data.keys)
  rw [Finset.mem_insert, not_or] at hname
  have hnew : name ∉ s.services.data := hname.2
  have hnew' : name ∉ s'.services.data := hdata ▸ hnew
  let env := TimedCall.envAt now
  have hanswer := h.first (u := .service env (.registerCAS { web with name } noMetadata 0))
    (fun t ht => (List.mem_singleton.mp ht).ge) trivial
  have hindex := (ServiceAnswer.index.inj (StoreAnswer.service.inj hanswer)).1
  have hnext : s.services.globalIndex + 1 = s'.services.globalIndex + 1 := by
    rw [← registerCAS_new env hname.1 hnew, ← registerCAS_new env hname.1 hnew']
    exact hindex
  exact add_right_cancel hnext

/-- Two servers' stores over one engine that works, the second ones just opened. -/
structure OnOneEngine (s s' : Stores) (now : Time) : Prop where
  fault : s'.kv.fault = s.kv.fault
  faults : s'.services.faults = s.services.faults
  ttl : s'.services.ttl = s.services.ttl
  exact : s.services.toServiceTable.Exact
  exact' : s'.services.toServiceTable.Exact
  works : ∀ m, s.services.engine = some m → m.fault = none
  live : ∀ name e, s'.services.data.lookup name = some e → now ≤ e.expiresAt

theorem OnOneEngine.answersAs_iff (h : OnOneEngine s s' now) :
    s.AnswersAs s' now ↔ s'.kv.toKVTable = s.kv.toKVTable ∧
      s'.services.data = s.services.data ∧ s'.services.globalIndex = s.services.globalIndex := by
  constructor
  · intro hanswers
    have hkv := hanswers.kv_data
    have hkvIndex := hanswers.kv_globalIndex
    have hservices := hanswers.services_data h.works h.live
    have hservicesIndex := hanswers.services_globalIndex hservices
    refine ⟨?_, hservices.symm, hservicesIndex.symm⟩
    cases htable : s.kv.toKVTable
    cases htable' : s'.kv.toKVTable
    simp only [htable, htable'] at hkv hkvIndex
    rw [hkv, hkvIndex]
  · rintro ⟨htable, hdata, hindex⟩
    have halike : s.Alike s' :=
      ⟨⟨htable, h.fault⟩, ⟨hdata, hindex, h.ttl, h.faults, h.exact, h.exact'⟩⟩
    exact halike.answersAs now

end Stores

end Konsul
