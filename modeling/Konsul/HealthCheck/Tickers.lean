import Konsul.HealthCheck.Monitors
import Konsul.HealthCheck.TTL
import Konsul.Store.ServiceChecks

/-!
# The tickers a registration starts

A registration hands the check definitions of its service to the manager, and nothing
on the way looks at their durations. An interval that parses and is not above zero
reaches the ticker.
-/

namespace Konsul

open GoLib
open ServiceStore (completeCheck completeChecks)

namespace ServiceCall

/-- The definitions the operation hands to `AddCheck`. -/
def checksAdded (env : StoreEnv) (s : ServiceStore) (call : ServiceCall) : List CheckDefinition :=
  match call.registers s with
  | some service => (completeChecks env.toEnv service).checks
  | none => []

/-- Whatever monitors there are, the goroutines the operation starts get their tickers. -/
def TickersStart (env : StoreEnv) (s : ServiceStore) (call : ServiceCall) : Prop :=
  ∀ m : Monitors, m.crashed = false →
    ∀ n ∈ (m.addChecks env.toEnv (call.checksAdded env s)).starting, n ∉ m.starting →
      ((m.addChecks env.toEnv (call.checksAdded env s)).start n).crashed = false

/-- They are the checks the manager of the store gets. -/
theorem addChecks_of_registers {s : ServiceStore} {call : ServiceCall} {service : Service}
    (h : call.registers s = some service) (env : StoreEnv) :
    (call.apply s env).1.healthManager =
      ServiceStore.addChecks s.healthManager env.toEnv (call.checksAdded env s) := by
  have heffect := apply_effect s env call
  rw [h] at heffect
  rw [checksAdded, h]
  exact heffect.manager

end ServiceCall

/-- Completing a check sets its identifier, its name and its owner. -/
theorem completeCheck_eq (service : Service) (d : CheckDefinition) (newID : GoString) :
    ∃ id name serviceID, completeCheck service d newID = { d with id, name, serviceID } := by
  simp only [completeCheck, Manager.withID]
  split_ifs <;> exact ⟨_, _, _, rfl⟩

theorem getElem?_completeChecks (env : Env) (service : Service) (i : ℕ) :
    (completeChecks env service).checks[i]? =
      service.checks[i]?.map fun d => completeCheck service d (env.newUUID i) := by
  simp only [completeChecks, List.getElem?_map, List.getElem?_zipIdx, Option.map_map, Nat.zero_add]
  rfl

/-- A definition whose interval is above zero when it is parsed. -/
def CheckDefinition.Ticks (parse : GoString → Option Duration) (d : CheckDefinition) : Prop :=
  Manager.checkType d ≠ .ttl → d.interval ≠ [] →
    ∀ interval, parse d.interval = some interval → 0 < interval

theorem CheckDefinition.ticks_iff (env : Env) (d : CheckDefinition) :
    d.Ticks env.parseDuration ↔
      (Manager.checkType d ≠ .ttl → 0 < (Manager.newCheck env d).interval) := by
  have hdefault : (0 : Duration) < 30 * Manager.second := by decide
  have hinterval : (Manager.newCheck env d).interval =
      Manager.durationOr env d.interval (30 * Manager.second) := rfl
  rw [Ticks, hinterval]
  refine imp_congr_right fun _ => ?_
  unfold Manager.durationOr
  by_cases hempty : d.interval = []
  · rw [if_pos hempty]
    exact iff_of_true (fun hne => absurd hempty hne) hdefault
  · rw [if_neg hempty]
    cases hparse : env.parseDuration d.interval with
    | none => exact iff_of_true (fun _ interval h => nomatch h) hdefault
    | some interval =>
      constructor
      · intro h
        exact h hempty interval rfl
      · intro h _ interval' h'
        cases h'
        exact h

theorem CheckDefinition.ticks_completeCheck_iff (parse : GoString → Option Duration)
    (service : Service) (d : CheckDefinition) (newID : GoString) :
    (completeCheck service d newID).Ticks parse ↔ d.Ticks parse := by
  obtain ⟨id, name, serviceID, heq⟩ := completeCheck_eq service d newID
  rw [heq]
  exact Iff.rfl

namespace ServiceCall

section

variable {env : StoreEnv} {s : ServiceStore} {call : ServiceCall} {service : Service}

theorem getElem?_checksAdded (haccepts : call.registers s = some service) (i : ℕ) :
    (call.checksAdded env s)[i]? =
      service.checks[i]?.map fun d => completeCheck service d (env.newUUID i) := by
  rw [checksAdded, haccepts]
  exact getElem?_completeChecks env.toEnv service i

/-- The goroutine of one of the checks ends the process iff its interval does not tick. -/
theorem crashed_start_iff {m : Monitors} (hrun : m.crashed = false) {i : ℕ} {d : CheckDefinition}
    (hd : (call.checksAdded env s)[i]? = some d) (htype : Manager.checkType d ≠ .ttl) :
    ((m.addChecks env.toEnv (call.checksAdded env s)).start (m.heap.length + i)).crashed = false ↔
      0 < (Manager.newCheck env.toEnv d).interval := by
  refine Monitors.crashed_start_iff ?_ ?_ ?_
  · rw [Monitors.crashed_addChecks]
    exact hrun
  · rw [Monitors.heap_addChecks, List.getElem?_append_right (Nat.le_add_right ..),
      Nat.add_sub_cancel_left, List.getElem?_map, hd]
    rfl
  · exact (Monitors.mem_starting_addChecks_iff _ _).mpr (.inr ⟨i, d, hd, htype, rfl⟩)

/-- The tickers start iff every definition handed on ticks. -/
theorem tickersStart_iff_added :
    call.TickersStart env s ↔ ∀ d ∈ call.checksAdded env s, d.Ticks env.parseDuration := by
  constructor
  · intro h d hd
    rw [CheckDefinition.ticks_iff env.toEnv]
    intro htype
    obtain ⟨i, hi⟩ := List.mem_iff_getElem?.mp hd
    have hmem : Monitors.new.heap.length + i ∈
        (Monitors.new.addChecks env.toEnv (call.checksAdded env s)).starting :=
      (Monitors.mem_starting_addChecks_iff _ _).mpr (.inr ⟨i, d, hi, htype, rfl⟩)
    exact (crashed_start_iff rfl hi htype).mp (h .new rfl _ hmem List.not_mem_nil)
  · intro h m hrun n hn hnew
    rcases (Monitors.mem_starting_addChecks_iff _ _).mp hn with hold | ⟨i, d, hd, htype, rfl⟩
    · exact absurd hold hnew
    · have hticks := h d (List.mem_of_getElem? hd)
      exact (crashed_start_iff hrun hd htype).mpr
        ((CheckDefinition.ticks_iff env.toEnv d).mp hticks htype)

end

/-- Every ticker of an accepted registration starts iff every interval that parses is
above zero. -/
theorem tickersStart_iff (env : StoreEnv) (s : ServiceStore) (call : ServiceCall)
    (service : Service) (haccepts : call.registers s = some service) :
    call.TickersStart env s ↔ ∀ d ∈ service.checks, d.Ticks env.parseDuration := by
  rw [tickersStart_iff_added]
  constructor
  · intro h d hd
    obtain ⟨i, hi⟩ := List.mem_iff_getElem?.mp hd
    have hadded := @getElem?_checksAdded env s call service haccepts i
    rw [hi, Option.map_some] at hadded
    exact (CheckDefinition.ticks_completeCheck_iff ..).mp (h _ (List.mem_of_getElem? hadded))
  · intro h d hd
    obtain ⟨i, hi⟩ := List.mem_iff_getElem?.mp hd
    rw [getElem?_checksAdded haccepts] at hi
    obtain ⟨d', hd', rfl⟩ := Option.map_eq_some_iff.mp hi
    exact (CheckDefinition.ticks_completeCheck_iff ..).mpr (h d' (List.mem_of_getElem? hd'))

/-- A web server checked at an interval. -/
def checkedWeb (interval : GoString) : Service :=
  ⟨str "web", str "10.0.0.1", 80, [], ∅,
    [{ Monitors.httpDefinition (str "http://a") with interval }]⟩

def registerWeb (interval : GoString) : ServiceCall :=
  .register (checkedWeb interval) (GoMap.sorted _)

def libraryStoreEnv : StoreEnv := ⟨Manager.libraryEnv, fun _ => .ok []⟩

theorem registers_web (interval : GoString) :
    (registerWeb interval).registers (.newWithTTL 10) = some (checkedWeb interval) := by
  -- validation does not look at the checks
  have hplain : validateService (checkedWeb []) (GoMap.sorted _) = none := by decide
  have hvalid : (checkedWeb interval).Valid := (Service.valid_iff _ (GoMap.sorted _)).mpr hplain
  simp only [registers, registerWeb, if_pos hvalid]

theorem tickersStart_tenSeconds :
    (registerWeb (str "10s")).TickersStart libraryStoreEnv (.newWithTTL 10) := by
  refine (tickersStart_iff libraryStoreEnv (.newWithTTL 10) _ _ (registers_web _)).mpr ?_
  intro d hd _ _ interval hinterval
  rw [List.mem_singleton.mp hd] at hinterval
  have hparse : libraryStoreEnv.parseDuration (str "10s") = some (10 * Manager.second) := by
    decide +kernel
  have hsome := hparse.symm.trans hinterval
  rw [← Option.some_inj.mp hsome]
  decide

/-- An interval of no time is accepted, and ends the process. -/
theorem zeroInterval_crashes :
    ¬ ∀ (env : StoreEnv) (s : ServiceStore) (call : ServiceCall) (service : Service),
      call.registers s = some service → call.TickersStart env s := by
  intro h
  have hstart := h libraryStoreEnv (.newWithTTL 10) _ _ (registers_web (str "0s")) .new rfl
  have hadded : (registerWeb (str "0s")).checksAdded libraryStoreEnv (.newWithTTL 10) =
      (completeChecks libraryStoreEnv.toEnv (checkedWeb (str "0s"))).checks := by
    rw [checksAdded, registers_web]
  rw [hadded] at hstart
  exact absurd (hstart 0 (by decide) List.not_mem_nil) (by decide +kernel)

end ServiceCall

end Konsul
