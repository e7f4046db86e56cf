import Konsul.Lib.RWMutex
import Konsul.Store.ServiceChecks
import Konsul.Store.ServiceLoad
import Konsul.Store.ServiceQuery

/-!
# The mutex of the service store

Each method as a thread: what it does under the mutex and outside of it. A query without
a filter calls `List` while it holds the read lock, which `List` takes once more.
-/

namespace Konsul

open GoLib

/-! ### The methods as threads -/

namespace ServiceStore

def listThread (now : Time) (range : (m : GoMap GoString ServiceEntry) → m.Order) :
    Thread ServiceStore (List Service) :=
  Thread.reading fun s => s.toServiceTable.list now (range s.data)

def queryByTagsThread (now : Time) (tags : List GoString)
    (range : (m : GoMap GoString ServiceEntry) → m.Order) : Thread ServiceStore (List Service) := do
  Thread.perform .rLock
  if tags = [] then
    let services ← listThread now range
    Thread.perform .rUnlock
    return services
  else
    let s ← Thread.perform (.access id)
    Thread.perform .rUnlock
    return s.toServiceTable.queryByTags now tags (range s.data)

def queryByMetadataThread (now : Time) (filters : GoMap GoString GoString)
    (first rest : filters.Order) (range : (m : GoMap GoString ServiceEntry) → m.Order) :
    Thread ServiceStore (List Service) := do
  Thread.perform .rLock
  if filters.keys.card = 0 then
    let services ← listThread now range
    Thread.perform .rUnlock
    return services
  else
    let s ← Thread.perform (.access id)
    Thread.perform .rUnlock
    return s.toServiceTable.queryByMetadata now filters first rest (range s.data)

def queryByTagsAndMetadataThread (now later : Time) (tags : List GoString)
    (filters : GoMap GoString GoString) (first rest : filters.Order)
    (range : (m : GoMap GoString ServiceEntry) → m.Order) : Thread ServiceStore (List Service) :=
  if tags = [] ∧ filters.keys.card = 0 then listThread now range
  else if filters.keys.card = 0 then queryByTagsThread now tags range
  else if tags = [] then queryByMetadataThread now filters first rest range
  else do
    let tagServices ← queryByTagsThread now tags range
    if tagServices = [] then return []
    else
      let metaServices ← queryByMetadataThread later filters first rest range
      if metaServices = [] then return []
      else
        let tagServiceSet := setOf (tagServices.map Service.name)
        return (metaServices.filter fun svc => has tagServiceSet svc.name).insertionSort
          fun a b => a.name ≤ b.name

end ServiceStore

namespace ServiceCall

/-- The answer of a registration whose service is refused before the mutex is taken. -/
def refused : ServiceCall → Option ServiceAnswer
  | register service range => (validateService service range).map fun err => .done (some err)
  | registerCAS service range _ => (validateService service range).map fun err => .index 0 (some err)
  | registerLocal serviceData range =>
    (validateService serviceData.toService range).map fun err => .done (some err)
  | registerCASLocal serviceData range _ =>
    (validateService serviceData.toService range).map fun err => .index 0 (some err)
  | _ => none

def thread (env : StoreEnv) (call : ServiceCall) : Thread ServiceStore ServiceAnswer :=
  match call with
  | get _ => Thread.reading fun s => (call.apply s env).2
  | getEntry _ => Thread.reading fun s => (call.apply s env).2
  | list range => do return .unordered (← ServiceStore.listThread env.now range)
  | queryByTags tags range => do
    let services ← ServiceStore.queryByTagsThread env.now tags range
    return if tags = [] then .unordered services else .ordered services
  | queryByMetadata filters first rest range => do
    let services ← ServiceStore.queryByMetadataThread env.now filters first rest range
    return if filters.keys.card = 0 then .unordered services else .ordered services
  | queryByTagsAndMetadata later tags filters first rest range => do
    let services ← ServiceStore.queryByTagsAndMetadataThread env.now later tags filters first rest
      range
    return if tags = [] ∧ filters.keys.card = 0 then .unordered services else .ordered services
  | updateTTLCheck _ => Thread.unlocked fun s => call.apply s env
  | _ =>
    match call.refused with
    | some answer => return answer
    | none => Thread.writing fun s => call.apply s env

end ServiceCall

/-- The exported methods of a `ServiceStore`. -/
inductive ServiceMethod where
  | call (env : StoreEnv) (call : ServiceCall)
  | listAll (range : (m : GoMap GoString ServiceEntry) → m.Order)
  | getEntrySnapshot (now : Time) (name : GoString)
  | getAllData
  | restoreFromSnapshot (data : GoMap GoString ServiceEntrySnapshot) (range : data.Order)
  | snapshotState
  | restoreSnapshot (env : Env) (entries : GoMap GoString ServiceEntry) (index : UInt64)
      (range checksRange : entries.Order)
  | getHealthChecks (now : Time) (name : GoString) (range : (m : GoMap GoString Check) → m.Order)
  | getAllHealthChecks (now : Time) (range : (m : GoMap GoString Check) → m.Order)
  | close

inductive MethodAnswer where
  | call (a : ServiceAnswer)
  | entries (l : List ServiceEntry)
  | entry (e : Option ServiceEntrySnapshot)
  | data (m : GoMap GoString ServiceEntrySnapshot)
  | state (entries : GoMap GoString ServiceEntry) (index : UInt64)
  | checks (l : List Check)
  | done

namespace ServiceMethod

/-- What `Close` does to the health manager and the engine is left out. -/
def thread : ServiceMethod → Thread ServiceStore MethodAnswer
  | call env c => do return .call (← c.thread env)
  | listAll range => Thread.reading fun s => .entries (s.toServiceTable.listAll (range s.data))
  | getEntrySnapshot now name => Thread.reading fun s => .entry (s.getEntrySnapshot now name)
  | getAllData => Thread.reading fun s => .data s.getAllData
  | restoreFromSnapshot data range =>
    Thread.writing fun s => (s.restoreFromSnapshot data range, .done)
  | snapshotState => Thread.reading fun s => .state s.data s.globalIndex
  | restoreSnapshot env entries index range checksRange =>
    Thread.writing fun s => (s.restoreSnapshot env entries index range checksRange, .done)
  | getHealthChecks now name range => Thread.unlocked fun s =>
    let r := s.getHealthChecks now name (range s.healthManager.checks)
    (r.1, .checks r.2)
  | getAllHealthChecks now range => Thread.unlocked fun s =>
    let r := s.healthManager.listChecks now (range s.healthManager.checks)
    ({ s with healthManager := r.1 }, .checks r.2)
  | close => Thread.unlocked fun s => (s, .done)

/-- The method takes the read lock while it holds it. -/
def Reenters : ServiceMethod → Prop
  | call _ (.queryByTags tags _) => tags = []
  | call _ (.queryByMetadata filters _ _ _) => filters.keys.card = 0
  | _ => False

/-- The method takes the lock to write. -/
def Writes : ServiceMethod → Prop
  | call _ c =>
    match c with
    | .get _ | .getEntry _ | .list _ | .queryByTags _ _ | .queryByMetadata _ _ _ _ => False
    | .queryByTagsAndMetadata _ _ _ _ _ _ | .updateTTLCheck _ => False
    | c => c.refused = none
  | restoreFromSnapshot _ _ => True
  | restoreSnapshot _ _ _ _ _ => True
  | _ => False

end ServiceMethod

/-! ### One at a time -/

namespace ServiceStore

theorem run_queryByTagsThread (now : Time) (tags : List GoString)
    (range : (m : GoMap GoString ServiceEntry) → m.Order) (s : ServiceStore) :
    (queryByTagsThread now tags range).run Thread.alone s =
      (s, s.toServiceTable.queryByTags now tags (range s.data)) := by
  unfold queryByTagsThread
  by_cases htags : tags = []
  · simp only [htags, ite_true]
    rfl
  · simp only [htags, ite_false]
    rfl

theorem run_queryByMetadataThread (now : Time) (filters : GoMap GoString GoString)
    (first rest : filters.Order) (range : (m : GoMap GoString ServiceEntry) → m.Order)
    (s : ServiceStore) :
    (queryByMetadataThread now filters first rest range).run Thread.alone s =
      (s, s.toServiceTable.queryByMetadata now filters first rest (range s.data)) := by
  unfold queryByMetadataThread
  by_cases hfilters : filters.keys.card = 0
  · have hlist := ServiceTable.queryByMetadata_of_empty hfilters s.toServiceTable now first rest
      (range s.data)
    simp only [hfilters, ite_true]
    rw [hlist]
    rfl
  · simp only [hfilters, ite_false]
    rfl

theorem run_queryByTagsAndMetadataThread (now later : Time) (tags : List GoString)
    (filters : GoMap GoString GoString) (first rest : filters.Order)
    (range : (m : GoMap GoString ServiceEntry) → m.Order) (s : ServiceStore) :
    (queryByTagsAndMetadataThread now later tags filters first rest range).run Thread.alone s =
      (s, s.toServiceTable.queryByTagsAndMetadata now later tags filters first rest
        (range s.data)) := by
  have htagsRun := run_queryByTagsThread now tags range s
  have hmetaRun (now : Time) := run_queryByMetadataThread now filters first rest range s
  unfold queryByTagsAndMetadataThread ServiceTable.queryByTagsAndMetadata
  by_cases htags : tags = []
  · by_cases hfilters : filters.keys.card = 0
    · have hlist := ServiceTable.queryByMetadata_of_empty hfilters s.toServiceTable now first rest
        (range s.data)
      rw [if_pos ⟨htags, hfilters⟩, if_pos htags, hlist]
      rfl
    · rw [if_neg fun h => hfilters h.2, if_neg hfilters, if_pos htags, if_pos htags]
      exact hmetaRun now
  · by_cases hfilters : filters.keys.card = 0
    · rw [if_neg fun h => htags h.1, if_pos hfilters, if_neg htags, if_pos hfilters]
      exact htagsRun
    · rw [if_neg fun h => htags h.1, if_neg hfilters, if_neg htags, if_neg htags, if_neg hfilters,
        Program.run_bind, htagsRun]
      dsimp only
      by_cases htagNil : s.toServiceTable.queryByTags now tags (range s.data) = []
      · rw [if_pos htagNil, if_pos htagNil]
        rfl
      · rw [if_neg htagNil, if_neg htagNil, Program.run_bind, hmetaRun later]
        dsimp only
        by_cases hmetaNil : s.toServiceTable.queryByMetadata later filters first rest (range s.data) = []
        · rw [if_pos hmetaNil, if_pos hmetaNil]
          rfl
        · rw [if_neg hmetaNil, if_neg hmetaNil]
          rfl

end ServiceStore

/-- A call that nothing interleaves with is the operation of the store. -/
theorem ServiceCall.run_thread (env : StoreEnv) (c : ServiceCall) (s : ServiceStore) :
    (c.thread env).run Thread.alone s = c.apply s env := by
  have hrefused (answer : ServiceAnswer) (h : c.refused = some answer) :
      c.apply s env = (s, answer) := by
    cases c with
    | register service range =>
      obtain ⟨err, herr, rfl⟩ := Option.map_eq_some_iff.mp h
      simp only [apply, ServiceStore.register, herr]
    | registerCAS service range expectedIndex =>
      obtain ⟨err, herr, rfl⟩ := Option.map_eq_some_iff.mp h
      simp only [apply, ServiceStore.registerCAS, herr]
    | registerLocal serviceData range =>
      obtain ⟨err, herr, rfl⟩ := Option.map_eq_some_iff.mp h
      simp only [apply, ServiceStore.registerLocal, herr]
    | registerCASLocal serviceData range expectedIndex =>
      obtain ⟨err, herr, rfl⟩ := Option.map_eq_some_iff.mp h
      simp only [apply, ServiceStore.registerCASLocal, herr]
    | _ => cases h
  have hwrite (hthread : c.thread env = match c.refused with
      | some answer => Program.ret answer
      | none => Thread.writing fun s => c.apply s env) :
      (c.thread env).run Thread.alone s = c.apply s env := by
    rw [hthread]
    cases h : c.refused with
    | none => rfl
    | some answer => exact (hrefused answer h).symm
  cases c with
  | queryByTags tags range =>
    rw [thread, Program.run_bind, ServiceStore.run_queryByTagsThread]
    rfl
  | queryByMetadata filters first rest range =>
    rw [thread, Program.run_bind, ServiceStore.run_queryByMetadataThread]
    rfl
  | queryByTagsAndMetadata later tags filters first rest range =>
    rw [thread, Program.run_bind, ServiceStore.run_queryByTagsAndMetadataThread]
    rfl
  | get name => rfl
  | getEntry name => rfl
  | list range => rfl
  | updateTTLCheck checkID => rfl
  | _ => exact hwrite rfl

/-! ### Deadlocks -/

namespace ServiceStore

variable {writes : Prop}

theorem takes_queryByTagsThread (now : Time) (tags : List GoString)
    (range : (m : GoMap GoString ServiceEntry) → m.Order) :
    (queryByTagsThread now tags range).Takes (tags = []) writes .free .free := by
  unfold queryByTagsThread
  by_cases htags : tags = []
  · have hlist : (Thread.reading fun s : ServiceStore =>
        s.toServiceTable.list now (range s.data)).Takes (tags = []) writes (.reading 0) (.reading 0) :=
      Thread.takes_reading_nested htags 0 _
    simp only [if_pos htags]
    exact hlist.bind fun _ => rfl
  · simp only [if_neg htags]
    exact fun _ => rfl

theorem takes_queryByMetadataThread (now : Time) (filters : GoMap GoString GoString)
    (first rest : filters.Order) (range : (m : GoMap GoString ServiceEntry) → m.Order) :
    (queryByMetadataThread now filters first rest range).Takes (filters.keys.card = 0) writes
      .free .free := by
  unfold queryByMetadataThread
  by_cases hfilters : filters.keys.card = 0
  · have hlist : (Thread.reading fun s : ServiceStore =>
        s.toServiceTable.list now (range s.data)).Takes (filters.keys.card = 0) writes (.reading 0)
          (.reading 0) := Thread.takes_reading_nested hfilters 0 _
    simp only [if_pos hfilters]
    exact hlist.bind fun _ => rfl
  · simp only [if_neg hfilters]
    exact fun _ => rfl

theorem takes_queryByTagsAndMetadataThread (now later : Time) (tags : List GoString)
    (filters : GoMap GoString GoString) (first rest : filters.Order)
    (range : (m : GoMap GoString ServiceEntry) → m.Order) :
    (queryByTagsAndMetadataThread now later tags filters first rest range).Takes False writes
      .free .free := by
  have htagsTakes (htags : tags ≠ []) :
      (queryByTagsThread now tags range).Takes False writes .free .free := by
    have h : (queryByTagsThread now tags range).Takes (tags = []) writes .free .free :=
      takes_queryByTagsThread now tags range
    rwa [eq_false htags] at h
  have hmetaTakes (now : Time) (hfilters : filters.keys.card ≠ 0) :
      (queryByMetadataThread now filters first rest range).Takes False writes .free .free := by
    have h : (queryByMetadataThread now filters first rest range).Takes
        (filters.keys.card = 0) writes .free .free :=
      takes_queryByMetadataThread now filters first rest range
    rwa [eq_false hfilters] at h
  unfold queryByTagsAndMetadataThread
  split_ifs with hnone hfilters htags
  · exact Thread.takes_reading _
  · exact htagsTakes fun htags => hnone ⟨htags, hfilters⟩
  · exact hmetaTakes now hfilters
  · refine (htagsTakes htags).bind fun tagServices => ?_
    split_ifs
    · rfl
    · refine (hmetaTakes later hfilters).bind fun metaServices => ?_
      split_ifs <;> rfl

end ServiceStore

namespace ServiceMethod

theorem takes_thread (m : ServiceMethod) : m.thread.Takes m.Reenters m.Writes .free .free := by
  have hwriting (env : StoreEnv) (c : ServiceCall) {nested : Prop}
      (hthread : c.thread env = match c.refused with
        | some answer => Program.ret answer
        | none => Thread.writing fun s => c.apply s env) :
      (c.thread env).Takes nested (c.refused = none) .free .free := by
    rw [hthread]
    cases h : c.refused with
    | none => exact Thread.takes_writing rfl _
    | some answer => rfl
  have hcall {nested writes : Prop} {env : StoreEnv} {c : ServiceCall}
      (h : (c.thread env).Takes nested writes .free .free) :
      (ServiceMethod.thread (.call env c)).Takes nested writes .free .free := h.bind fun _ => rfl
  cases m with
  | call env c =>
    cases c with
    | get name => exact hcall (Thread.takes_reading _)
    | getEntry name => exact hcall (Thread.takes_reading _)
    | list range => exact hcall ((Thread.takes_reading _).bind fun _ => rfl)
    | queryByTags tags range =>
      exact hcall ((ServiceStore.takes_queryByTagsThread ..).bind fun _ => rfl)
    | queryByMetadata filters first rest range =>
      exact hcall ((ServiceStore.takes_queryByMetadataThread ..).bind fun _ => rfl)
    | queryByTagsAndMetadata later tags filters first rest range =>
      exact hcall ((ServiceStore.takes_queryByTagsAndMetadataThread ..).bind fun _ => rfl)
    | updateTTLCheck checkID => exact hcall (Thread.takes_unlocked _ _)
    | _ => exact hcall (hwriting env _ rfl)
  | listAll range => exact Thread.takes_reading _
  | getEntrySnapshot now name => exact Thread.takes_reading _
  | getAllData => exact Thread.takes_reading _
  | restoreFromSnapshot data range => exact Thread.takes_writing trivial _
  | snapshotState => exact Thread.takes_reading _
  | restoreSnapshot env entries index range checksRange => exact Thread.takes_writing trivial _
  | getHealthChecks now name range => exact Thread.takes_unlocked _ _
  | getAllHealthChecks now range => exact Thread.takes_unlocked _ _
  | close => exact Thread.takes_unlocked _ _

/-- A method begins by taking the lock, or makes its one access without it. -/
theorem thread_start (m : ServiceMethod) :
    Threads.AtLock m.thread ∨ ∃ update, m.thread = Thread.unlocked update := by
  have hwriting (env : StoreEnv) (c : ServiceCall)
      (hthread : c.thread env = match c.refused with
        | some answer => Program.ret answer
        | none => Thread.writing fun s => c.apply s env) :
      Threads.AtLock (ServiceMethod.thread (.call env c)) := by
    rw [thread, hthread]
    cases c.refused with
    | none => trivial
    | some answer => trivial
  cases m with
  | call env c =>
    cases c with
    | get name => exact .inl trivial
    | getEntry name => exact .inl trivial
    | list range => exact .inl trivial
    | queryByTags tags range => exact .inl trivial
    | queryByMetadata filters first rest range => exact .inl trivial
    | queryByTagsAndMetadata later tags filters first rest range =>
      left
      rw [thread, ServiceCall.thread, ServiceStore.queryByTagsAndMetadataThread]
      split_ifs <;> trivial
    | updateTTLCheck checkID => exact .inr ⟨fun s => (_, .call _), rfl⟩
    | _ => exact .inl (hwriting env _ rfl)
  | getHealthChecks now name range => exact .inr ⟨_, rfl⟩
  | getAllHealthChecks now range => exact .inr ⟨_, rfl⟩
  | close => exact .inr ⟨_, rfl⟩
  | _ => exact .inl trivial

theorem reenters_thread {m : ServiceMethod} (h : m.Reenters) :
    ∃ rest again, m.thread = .call .rLock rest ∧ rest () = .call .rLock again := by
  cases m with
  | call env c =>
    cases c with
    | queryByTags tags range =>
      have htags : tags = [] := h
      rw [thread, ServiceCall.thread, ServiceStore.queryByTagsThread]
      simp only [if_pos htags]
      exact ⟨_, _, rfl, rfl⟩
    | queryByMetadata filters first rest range =>
      have hfilters : filters.keys.card = 0 := h
      rw [thread, ServiceCall.thread, ServiceStore.queryByMetadataThread]
      simp only [if_pos hfilters]
      exact ⟨_, _, rfl, rfl⟩
    | _ => exact h.elim
  | _ => exact h.elim

theorem writes_thread {m : ServiceMethod} (h : m.Writes) : ∃ rest, m.thread = .call .lock rest := by
  have hwriting (env : StoreEnv) (c : ServiceCall)
      (hthread : c.thread env = match c.refused with
        | some answer => Program.ret answer
        | none => Thread.writing fun s => c.apply s env) (hvalid : c.refused = none) :
      ∃ rest, ServiceMethod.thread (.call env c) = .call .lock rest := by
    rw [thread, hthread, hvalid]
    exact ⟨_, rfl⟩
  cases m with
  | call env c =>
    cases c with
    | get name | getEntry name | list range | queryByTags tags range => exact h.elim
    | queryByMetadata filters first rest range => exact h.elim
    | queryByTagsAndMetadata later tags filters first rest range => exact h.elim
    | updateTTLCheck checkID => exact h.elim
    | _ => exact hwriting env _ rfl h
  | restoreFromSnapshot data range => exact ⟨_, rfl⟩
  | restoreSnapshot env entries index range checksRange => exact ⟨_, rfl⟩
  | _ => exact h.elim

/-- Calls of a store that run at the same time. -/
def together (s : ServiceStore) {n : ℕ} (calls : Fin n → ServiceMethod) :
    Threads ServiceStore (Fin n) MethodAnswer :=
  .start s fun i => (calls i).thread

/-- A call that reads while it reads and one that writes can come into a deadlock. -/
theorem exists_deadlocked (s : ServiceStore) {n : ℕ} {calls : Fin n → ServiceMethod} {i j : Fin n}
    (hi : (calls i).Reenters) (hj : (calls j).Writes) :
    ∃ run, (Threads.machine.run (together s calls) run).1.Deadlocked := by
  classical
  obtain ⟨rest, again, hread, hagain⟩ := reenters_thread hi
  obtain ⟨write, hwrite⟩ := writes_thread hj
  -- the calls that take no lock finish first
  let early := (List.finRange n).filter fun k => decide (¬ Threads.AtLock (calls k).thread)
  have hearly (k : Fin n) : k ∈ early ↔ ¬ Threads.AtLock (calls k).thread := by
    simp [early]
  obtain ⟨hwriter, hdone, hothers⟩ := Threads.run_unlocked (s := together s calls) fun k hk =>
    .inr ((calls k).thread_start.resolve_left ((hearly k).mp hk))
  have hsame (k : Fin n) (hk : Threads.AtLock (calls k).thread) :
      (Threads.machine.run (together s calls) early).1.program k = (calls k).thread :=
    hothers k (.inl fun hmem => (hearly k).mp hmem hk)
  have hat (k : Fin n) :
      Threads.AtLock ((Threads.machine.run (together s calls) early).1.program k) := by
    by_cases hk : Threads.AtLock (calls k).thread
    · rw [hsame k hk]
      exact hk
    · obtain ⟨r, hr⟩ := hdone k ((hearly k).mpr hk)
      rw [hr]
      trivial
  have hi' := (hsame i (by rw [hread]; trivial)).trans hread
  have hj' := (hsame j (by rw [hwrite]; trivial)).trans hwrite
  have hdead := Threads.deadlocked_of_nested hwriter hat hi' hagain hj'
  refine ⟨early ++ [i, j], ?_⟩
  rw [Machine.run_append]
  exact hdead

/-- No order of their steps leads calls into a deadlock iff none of them reads while it reads
or none takes the lock to write. -/
theorem deadlock_free_iff (s : ServiceStore) {n : ℕ} (calls : Fin n → ServiceMethod) :
    (∀ run, ¬ (Threads.machine.run (together s calls) run).1.Deadlocked) ↔
      (∀ i, ¬ (calls i).Reenters) ∨ ∀ i, ¬ (calls i).Writes := by
  constructor
  · intro hfree
    by_contra hboth
    push Not at hboth
    obtain ⟨⟨i, hi⟩, j, hj⟩ := hboth
    obtain ⟨run, hdead⟩ := exists_deadlocked s hi hj
    exact hfree run hdead
  · intro hnone run hdead
    obtain ⟨⟨i, hi⟩, j, hj⟩ := Threads.nested_of_deadlocked s
      (fun i => (calls i).takes_thread) run hdead
    rcases hnone with hnone | hnone
    · exact hnone i hi
    · exact hnone j hj

/-- A query for no tags and a deregistration. -/
def queryAndDeregister : Fin 2 → ServiceMethod
  | 0 => .call (TimedCall.envAt 0) (.queryByTags [] GoMap.sorted)
  | 1 => .call (TimedCall.envAt 0) (.deregister (str "web"))

theorem query_deadlocks : ¬ ∀ run,
    ¬ (Threads.machine.run (together (.newWithTTL 30) queryAndDeregister) run).1.Deadlocked := by
  have hquery : (queryAndDeregister 0).Reenters := rfl
  have hderegister : (queryAndDeregister 1).Writes := rfl
  obtain ⟨run, hdead⟩ := exists_deadlocked (.newWithTTL 30) hquery hderegister
  exact fun hfree => hfree run hdead

end ServiceMethod

end Konsul
