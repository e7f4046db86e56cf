import Konsul.Store.Service
import Konsul.Lib.Machine

/-!
# The monitor loops of a manager

`AddCheck` starts a goroutine for a check with a target, and only the end of the
manager stops one. The goroutine keeps the check it was started for, but asks the
manager for the identifier alone before it probes. A ticker of no interval panics,
which ends the process.
-/

namespace Konsul

open GoLib

/-- The checks are objects, numbered in the order of their creation. -/
structure Monitors where
  /-- The objects the manager's map points to. -/
  checks : GoMap GoString ℕ
  heap : List Check
  /-- The objects whose goroutines have not made their tickers yet. -/
  starting : List ℕ
  /-- The objects whose goroutines have. -/
  loops : List ℕ
  crashed : Bool

inductive MonitorStep where
  | addCheck (env : Env) (d : CheckDefinition)
  | removeCheck (id : GoString)
  /-- The goroutine of an object makes its ticker. -/
  | start (n : ℕ)
  /-- The goroutine of an object calls `performCheck`; the rest is what a probe finds. -/
  | perform (n : ℕ) (status : Status) (output : GoString) (now : Time)

/-- A probe of one object while another may be the registered one. -/
structure Probe where
  object : ℕ
  registered : ℕ
  deriving DecidableEq

/-- `time.NewTicker` panics on an interval that is not above zero. -/
def tickerPanics (interval : Duration) : Bool := interval ≤ 0

namespace Monitors

def new : Monitors := ⟨∅, [], [], [], false⟩

/-- `AddCheck` of a definition that has its identifier. -/
def addIdentified (s : Monitors) (env : Env) (d : CheckDefinition) : Monitors :=
  let n := s.heap.length
  { s with
    checks := s.checks.insert d.id n
    heap := s.heap ++ [Manager.newCheck env d]
    starting := if Manager.checkType d ≠ .ttl then n :: s.starting else s.starting }

def addCheck (s : Monitors) (env : Env) (d : CheckDefinition) : Monitors :=
  s.addIdentified env (Manager.withID d (env.newUUID 0))

/-- The definitions of a service, which have their identifiers. -/
def addChecks (s : Monitors) (env : Env) (ds : List CheckDefinition) : Monitors :=
  ds.foldl (fun s d => s.addIdentified env d) s

def removeCheck (s : Monitors) (id : GoString) : Monitors :=
  { s with checks := s.checks.erase id }

/-- The first line of `runCheck`. -/
def start (s : Monitors) (n : ℕ) : Monitors :=
  match s.heap[n]? with
  | some c =>
    if n ∈ s.starting then
      if tickerPanics c.interval then { s with crashed := true }
      else { s with starting := s.starting.erase n, loops := n :: s.loops }
    else s
  | none => s

/-- `performCheck`, called by the goroutine of the object. -/
def perform (s : Monitors) (n : ℕ) (status : Status) (output : GoString) (now : Time) :
    Monitors × Option Probe :=
  match s.heap[n]? with
  | some c =>
    if n ∈ s.loops then
      match s.checks.lookup c.id with
      | some registered =>
        ({ s with heap := s.heap.set n { c with status, output, lastCheck := now } },
          some ⟨n, registered⟩)
      | none => (s, none)
    else (s, none)
  | none => (s, none)

/-- A process that has crashed takes no step. -/
def step (s : Monitors) (i : MonitorStep) : Monitors × Option Probe :=
  if s.crashed then (s, none)
  else
    match i with
    | .addCheck env d => (s.addCheck env d, none)
    | .removeCheck id => (s.removeCheck id, none)
    | .start n => (s.start n, none)
    | .perform n status output now => s.perform n status output now

def machine : Machine Monitors MonitorStep (Option Probe) := ⟨step⟩

/-- What stays of an object: its identifier and its type. -/
def kind (s : Monitors) (n : ℕ) : Option (GoString × CheckType) :=
  s.heap[n]?.map fun c => (c.id, c.type)

/-- The goroutines that probe under an identifier. -/
def monitorsOf (s : Monitors) (id : GoString) : List ℕ :=
  (s.starting ++ s.loops).filter fun n => (s.kind n).map Prod.fst = some id

/-- Each registered check with a target has one goroutine, its own, and a TTL check none. -/
def OneMonitor (s : Monitors) : Prop :=
  s.crashed = false → ∀ id n, s.checks.lookup id = some n →
    s.monitorsOf id = if (s.kind n).map Prod.snd ≠ some .ttl then [n] else []

/-- No goroutine was started for the identifier before. -/
def Fresh (s : Monitors) : MonitorStep → Prop
  | .addCheck env d =>
    s.crashed = false → s.monitorsOf (Manager.withID d (env.newUUID 0)).id = []
  | _ => True

/-- The map points to objects with the right identifiers, and goroutines have objects with
a target. -/
structure Linked (s : Monitors) : Prop where
  keyed : ∀ id n, s.checks.lookup id = some n → ∃ type, s.kind n = some (id, type)
  targeted : ∀ n ∈ s.starting ++ s.loops, ∃ id type, s.kind n = some (id, type) ∧ type ≠ .ttl

/-- The manager the objects make. -/
def Views (s : Monitors) (m : Manager) : Prop :=
  ∀ id, m.checks.lookup id = (s.checks.lookup id).bind fun n => s.heap[n]?

section

variable {s : Monitors} {env : Env} {d : CheckDefinition}

theorem lt_of_kind {n : ℕ} {p : GoString × CheckType} (h : s.kind n = some p) :
    n < s.heap.length := by
  obtain ⟨c, hc, -⟩ := Option.map_eq_some_iff.mp h
  exact (List.getElem?_eq_some_iff.mp hc).1

theorem Linked.bounded (h : s.Linked) {n : ℕ} (hn : n ∈ s.starting ++ s.loops) :
    n < s.heap.length := by
  obtain ⟨id, type, hkind, -⟩ := h.targeted n hn
  exact lt_of_kind hkind

theorem kind_addIdentified_of_lt {n : ℕ} (h : n < s.heap.length) :
    (s.addIdentified env d).kind n = s.kind n := by
  rw [kind, addIdentified, List.getElem?_append_left h]
  rfl

theorem kind_addIdentified_new :
    (s.addIdentified env d).kind s.heap.length = some (d.id, Manager.checkType d) := by
  rw [kind, addIdentified, List.getElem?_concat_length]
  rfl

/-- A new check under the identifier adds its goroutine to those there are. -/
theorem monitorsOf_addIdentified (h : s.Linked) (id : GoString) :
    (s.addIdentified env d).monitorsOf id =
      (if Manager.checkType d ≠ .ttl ∧ d.id = id then [s.heap.length] else []) ++
        s.monitorsOf id := by
  have hold : (s.starting ++ s.loops).filter
      (fun n => ((s.addIdentified env d).kind n).map Prod.fst = some id) = s.monitorsOf id := by
    refine List.filter_congr fun n hn => ?_
    rw [kind_addIdentified_of_lt (h.bounded hn)]
  rw [← hold]
  by_cases htype : Manager.checkType d ≠ .ttl
  · have hmonitors : (s.addIdentified env d).starting ++ (s.addIdentified env d).loops =
        s.heap.length :: (s.starting ++ s.loops) := by
      simp only [addIdentified, if_pos htype, List.cons_append]
    rw [monitorsOf, hmonitors, List.filter_cons, kind_addIdentified_new]
    by_cases hid : d.id = id
    · simp only [Option.map_some, hid, decide_true, ite_true, htype, ne_eq, not_false_eq_true,
        and_self, List.singleton_append]
    · simp only [Option.map_some, Option.some_inj, hid, decide_false, and_false, ite_false,
        Bool.false_eq_true, List.nil_append]
  · have hmonitors : (s.addIdentified env d).starting ++ (s.addIdentified env d).loops =
        s.starting ++ s.loops := by
      simp only [addIdentified, if_neg htype]
    rw [monitorsOf, hmonitors, if_neg fun hnew => htype hnew.1, List.nil_append]

theorem Linked.addIdentified (h : s.Linked) : (s.addIdentified env d).Linked := by
  constructor
  · intro id n hn
    simp only [Monitors.addIdentified, GoMap.lookup_insert_ite] at hn
    by_cases hid : id = d.id
    · rw [if_pos hid, Option.some_inj] at hn
      rw [← hn, hid]
      exact ⟨_, kind_addIdentified_new⟩
    · rw [if_neg hid] at hn
      obtain ⟨type, hkind⟩ := h.keyed id n hn
      exact ⟨type, (kind_addIdentified_of_lt (lt_of_kind hkind)).trans hkind⟩
  · intro n hn
    have hold : n = s.heap.length ∧ Manager.checkType d ≠ .ttl ∨ n ∈ s.starting ++ s.loops := by
      simp only [Monitors.addIdentified, List.mem_append] at hn ⊢
      split_ifs at hn with htype
      · rw [List.mem_cons, or_assoc] at hn
        exact hn.imp (fun heq => ⟨heq, htype⟩) fun hmem => hmem
      · exact .inr hn
    rcases hold with ⟨rfl, htype⟩ | hold
    · exact ⟨_, _, kind_addIdentified_new, htype⟩
    · rw [kind_addIdentified_of_lt (h.bounded hold)]
      exact h.targeted n hold

theorem Linked.addCheck (h : s.Linked) : (s.addCheck env d).Linked := h.addIdentified

/-- The check added is the only one whose goroutines can be too many. -/
theorem oneMonitor_addIdentified_iff (h : s.Linked) (hone : s.OneMonitor) (hrun : s.crashed = false) :
    (s.addIdentified env d).OneMonitor ↔ s.monitorsOf d.id = [] := by
  have hnew : (s.addIdentified env d).checks.lookup d.id = some s.heap.length :=
    Finmap.lookup_insert _
  constructor
  · intro hafter
    have hmonitors := hafter hrun d.id s.heap.length hnew
    rw [monitorsOf_addIdentified h, kind_addIdentified_new] at hmonitors
    by_cases htype : Manager.checkType d = .ttl
    · simpa [htype] using hmonitors
    · simpa [htype] using hmonitors
  · intro hfresh _ id n hn
    rw [monitorsOf_addIdentified h]
    by_cases hid : id = d.id
    · rw [hid, hnew, Option.some_inj] at hn
      rw [← hn, hid, kind_addIdentified_new, hfresh]
      by_cases htype : Manager.checkType d = .ttl <;> simp [htype]
    · have hlookup : s.checks.lookup id = some n := by
        simpa [addIdentified, GoMap.lookup_insert_ite, hid] using hn
      obtain ⟨type, hkind⟩ := h.keyed id n hlookup
      have hne : ¬ (Manager.checkType d ≠ .ttl ∧ d.id = id) := fun hnew => hid hnew.2.symm
      rw [if_neg hne, List.nil_append, kind_addIdentified_of_lt (lt_of_kind hkind)]
      exact hone hrun id n hlookup

/-- What the steps but `AddCheck` leave of a state. -/
structure Effect (s s' : Monitors) : Prop where
  checks : ∀ id n, s'.checks.lookup id = some n → s.checks.lookup id = some n
  kind : s'.kind = s.kind
  monitors : (s'.starting ++ s'.loops).Perm (s.starting ++ s.loops)
  running : s'.crashed = false → s.crashed = false

theorem Effect.refl (s : Monitors) : Effect s s :=
  ⟨fun _ _ h => h, rfl, List.Perm.refl _, id⟩

theorem effect_removeCheck (id : GoString) : Effect s (s.removeCheck id) := by
  refine ⟨fun id' n hn => ?_, rfl, List.Perm.refl _, fun h => h⟩
  simp only [removeCheck, GoMap.lookup_erase_ite] at hn
  split_ifs at hn with hid
  exact hn

theorem effect_start (n : ℕ) : Effect s (s.start n) := by
  unfold start
  cases hc : s.heap[n]? with
  | none => exact Effect.refl s
  | some c =>
    dsimp only
    split_ifs with hmem htick
    · exact ⟨fun _ _ h => h, rfl, List.Perm.refl _, fun h => (nomatch h)⟩
    · refine ⟨fun _ _ h => h, rfl, ?_, fun h => h⟩
      have hback : s.starting.Perm (n :: s.starting.erase n) := List.perm_cons_erase hmem
      have hmoved : (s.starting.erase n ++ n :: s.loops).Perm
          (n :: (s.starting.erase n ++ s.loops)) := List.perm_middle
      exact hmoved.trans (hback.append_right s.loops).symm
    · exact Effect.refl s

theorem effect_perform (n : ℕ) (status : Status) (output : GoString) (now : Time) :
    Effect s (s.perform n status output now).1 := by
  unfold perform
  cases hc : s.heap[n]? with
  | none => exact Effect.refl s
  | some c =>
    dsimp only
    split_ifs with hmem
    · cases hlookup : s.checks.lookup c.id with
      | none => exact Effect.refl s
      | some registered =>
        refine ⟨fun _ _ h => h, funext fun k => ?_, List.Perm.refl _, fun h => h⟩
        simp only [kind, List.getElem?_set]
        by_cases hk : n = k
        · subst hk
          have hlt : n < s.heap.length := (List.getElem?_eq_some_iff.mp hc).1
          rw [if_pos rfl, if_pos hlt, hc]
          rfl
        · rw [if_neg hk]
    · exact Effect.refl s

theorem Effect.linked {s' : Monitors} (h : Effect s s') (hlinked : s.Linked) : s'.Linked := by
  constructor
  · intro id n hn
    rw [h.kind]
    exact hlinked.keyed id n (h.checks id n hn)
  · intro n hn
    rw [h.kind]
    exact hlinked.targeted n (h.monitors.mem_iff.mp hn)

theorem Effect.oneMonitor {s' : Monitors} (h : Effect s s') (hone : s.OneMonitor) :
    s'.OneMonitor := by
  intro hrun id n hn
  have hbefore := hone (h.running hrun) id n (h.checks id n hn)
  have hperm : (s'.monitorsOf id).Perm (s.monitorsOf id) := by
    rw [monitorsOf, h.kind]
    exact h.monitors.filter _
  rw [hbefore] at hperm
  rw [h.kind]
  split_ifs at hperm ⊢
  · exact List.perm_singleton.mp hperm
  · exact List.perm_nil.mp hperm

/-- Every step but `AddCheck` has no more effect than that. -/
theorem step_cases (s : Monitors) (i : MonitorStep) :
    (∃ env d, i = .addCheck env d ∧ s.crashed = false ∧ (s.step i).1 = s.addCheck env d) ∨
      Effect s (s.step i).1 ∧ (s.Fresh i) := by
  cases hrun : s.crashed with
  | true =>
    refine .inr ⟨?_, ?_⟩
    · unfold step
      rw [if_pos hrun]
      exact Effect.refl s
    · cases i with
      | addCheck env d => exact fun h => by rw [hrun] at h; cases h
      | _ => trivial
  | false =>
    simp only [step, hrun, Bool.false_eq_true, ite_false]
    cases i with
    | addCheck env d => exact .inl ⟨env, d, rfl, trivial, rfl⟩
    | removeCheck id => exact .inr ⟨effect_removeCheck id, trivial⟩
    | start n => exact .inr ⟨effect_start n, trivial⟩
    | perform n status output now => exact .inr ⟨effect_perform n status output now, trivial⟩

theorem Linked.step (h : s.Linked) (i : MonitorStep) : (s.step i).1.Linked := by
  rcases step_cases s i with ⟨env, d, -, -, hstep⟩ | ⟨heffect, -⟩
  · rw [hstep]
    exact h.addIdentified
  · exact heffect.linked h

theorem oneMonitor_step_iff (h : s.Linked) (hone : s.OneMonitor) (i : MonitorStep) :
    (s.step i).1.OneMonitor ↔ s.Fresh i := by
  rcases step_cases s i with ⟨env, d, rfl, hrun, hstep⟩ | ⟨heffect, hfresh⟩
  · rw [hstep, addCheck, oneMonitor_addIdentified_iff h hone hrun]
    exact ⟨fun hnone _ => hnone, fun hfresh => hfresh hrun⟩
  · exact iff_of_true (heffect.oneMonitor hone) hfresh

theorem linked_new : new.Linked := by
  constructor
  · intro id n h
    rw [new, Finmap.lookup_empty] at h
    cases h
  · intro n h
    cases h

theorem oneMonitor_new : new.OneMonitor := by
  intro _ id n h
  rw [new, Finmap.lookup_empty] at h
  cases h

/-- Where each check has its own goroutine, a probe is of the registered check. -/
theorem OneMonitor.probe (hone : s.OneMonitor) {i : MonitorStep} {probe : Probe}
    (h : (s.step i).2 = some probe) : probe.object = probe.registered := by
  cases hrun : s.crashed with
  | true =>
    simp only [step, hrun, ite_true] at h
    cases h
  | false =>
    simp only [step, hrun, Bool.false_eq_true, ite_false] at h
    cases i with
    | perform n status output now =>
      dsimp only [perform] at h
      cases hc : s.heap[n]? with
      | none =>
        rw [hc] at h
        cases h
      | some c =>
        rw [hc] at h
        dsimp only at h
        split_ifs at h with hmem
        cases hlookup : s.checks.lookup c.id with
        | none =>
          rw [hlookup] at h
          cases h
        | some registered =>
          rw [hlookup] at h
          cases h
          have hmonitor : n ∈ s.monitorsOf c.id := by
            refine List.mem_filter.mpr ⟨List.mem_append_right _ hmem, ?_⟩
            rw [kind, hc]
            exact decide_eq_true rfl
          rw [hone hrun c.id registered hlookup] at hmonitor
          split_ifs at hmonitor
          · exact List.mem_singleton.mp hmonitor
          · cases hmonitor
    | _ => cases h

/-! ### The manager is a view of the objects -/

theorem views_addCheck {m : Manager} (h : s.Linked) (hviews : s.Views m) :
    (s.addCheck env d).Views (m.addCheck env (Manager.withID d (env.newUUID 0))) := by
  intro id
  unfold addCheck
  generalize Manager.withID d (env.newUUID 0) = d
  simp only [addIdentified, Manager.addCheck, GoMap.lookup_insert_ite]
  by_cases hid : id = d.id
  · rw [if_pos hid, if_pos hid, Option.bind_some, List.getElem?_concat_length]
  · rw [if_neg hid, if_neg hid, hviews id]
    cases hn : s.checks.lookup id with
    | none => rfl
    | some n =>
      obtain ⟨type, hkind⟩ := h.keyed id n hn
      rw [Option.bind_some, Option.bind_some, List.getElem?_append_left (lt_of_kind hkind)]

/-- The goroutine of the registered check performs it, and one of a replaced check changes
nothing that the manager shows. -/
theorem views_perform {m : Manager} (h : s.Linked) (hviews : s.Views m) {n : ℕ} {c : Check}
    (hc : s.heap[n]? = some c) (hn : n ∈ s.loops) (status : Status) (output : GoString)
    (now : Time) :
    (s.perform n status output now).1.Views
      (if s.checks.lookup c.id = some n then m.performCheck now c.id status output else m) := by
  have hkind : s.kind n = some (c.id, c.type) := by rw [kind, hc, Option.map_some]
  obtain ⟨id', type, hkind', htarget⟩ := h.targeted n (List.mem_append_right _ hn)
  obtain ⟨-, htype⟩ : c.id = id' ∧ c.type = type := by
    rw [hkind] at hkind'
    exact Prod.mk.inj (Option.some.inj hkind')
  have hlt : n < s.heap.length := (List.getElem?_eq_some_iff.mp hc).1
  intro id
  rw [perform, hc]
  simp only [if_pos hn]
  by_cases hregistered : s.checks.lookup c.id = some n
  · have hmanager : m.checks.lookup c.id = some c := by
      rw [hviews, hregistered, Option.bind_some, hc]
    rw [if_pos hregistered]
    simp only [Manager.performCheck, hmanager, hregistered, if_neg (htype ▸ htarget),
      GoMap.lookup_insert_ite]
    by_cases hid : id = c.id
    · rw [if_pos hid, hid, hregistered, Option.bind_some, List.getElem?_set_self hlt]
    · rw [if_neg hid, hviews id]
      cases hlookup : s.checks.lookup id with
      | none => rfl
      | some k =>
        have hne : n ≠ k := by
          rintro rfl
          obtain ⟨type', hkeyed⟩ := h.keyed id n hlookup
          rw [hkind] at hkeyed
          exact hid (Prod.mk.inj (Option.some.inj hkeyed)).1.symm
        rw [Option.bind_some, Option.bind_some, List.getElem?_set_ne hne]
  · rw [if_neg hregistered]
    cases hother : s.checks.lookup c.id with
    | none => exact hviews id
    | some registered =>
      show m.checks.lookup id = _
      rw [hviews id]
      cases hlookup : s.checks.lookup id with
      | none => rfl
      | some k =>
        have hne : n ≠ k := by
          rintro rfl
          obtain ⟨type', hkeyed⟩ := h.keyed id n hlookup
          rw [hkind] at hkeyed
          have hid : c.id = id := (Prod.mk.inj (Option.some.inj hkeyed)).1
          exact hregistered (hid ▸ hlookup)
        rw [Option.bind_some, Option.bind_some, List.getElem?_set_ne hne]

/-! ### The goroutines a list of checks starts -/

theorem crashed_addChecks (ds : List CheckDefinition) :
    (s.addChecks env ds).crashed = s.crashed := by
  induction ds generalizing s with
  | nil => rfl
  | cons d ds ih => exact @ih (s.addIdentified env d)

theorem heap_addChecks (ds : List CheckDefinition) :
    (s.addChecks env ds).heap = s.heap ++ ds.map (Manager.newCheck env) := by
  induction ds generalizing s with
  | nil => exact (List.append_nil _).symm
  | cons d ds ih =>
    have hrest := @ih (s.addIdentified env d)
    simp only [addChecks, List.foldl_cons] at hrest ⊢
    rw [hrest, addIdentified, List.append_assoc, List.map_cons, List.singleton_append]

theorem mem_starting_addChecks_iff (ds : List CheckDefinition) (n : ℕ) :
    n ∈ (s.addChecks env ds).starting ↔
      n ∈ s.starting ∨ ∃ i d, ds[i]? = some d ∧ Manager.checkType d ≠ .ttl ∧
        n = s.heap.length + i := by
  induction ds generalizing s with
  | nil => simp [addChecks]
  | cons d ds ih =>
    have hrest := @ih (s.addIdentified env d)
    have hlength : (s.addIdentified env d).heap.length = s.heap.length + 1 := List.length_append
    have hfirst : n ∈ (s.addIdentified env d).starting ↔
        n ∈ s.starting ∨ Manager.checkType d ≠ .ttl ∧ n = s.heap.length := by
      simp only [addIdentified]
      split_ifs with htype
      · simp [htype, or_comm]
      · simp [htype]
    rw [hfirst, hlength] at hrest
    simp only [addChecks, List.foldl_cons] at hrest ⊢
    rw [hrest, or_assoc]
    refine or_congr_right ⟨?_, ?_⟩
    · rintro (⟨htype, hn⟩ | ⟨i, d', hi, htype, hn⟩)
      · exact ⟨0, d, rfl, htype, hn⟩
      · exact ⟨i + 1, d', hi, htype, by omega⟩
    · rintro ⟨i, d', hi, htype, hn⟩
      cases i with
      | zero =>
        cases hi
        exact .inl ⟨htype, hn⟩
      | succ i => exact .inr ⟨i, d', hi, htype, by omega⟩

/-- A goroutine that starts ends the process iff the ticker panics. -/
theorem crashed_start_iff (hrun : s.crashed = false) {n : ℕ} {c : Check} (hc : s.heap[n]? = some c)
    (hmem : n ∈ s.starting) : (s.start n).crashed = false ↔ 0 < c.interval := by
  have htick : tickerPanics c.interval = true ↔ ¬ 0 < c.interval := by
    rw [tickerPanics, decide_eq_true_iff, not_lt]
  simp only [start, hc, if_pos hmem]
  by_cases hpos : 0 < c.interval
  · rw [if_neg fun h => htick.mp h hpos]
    exact iff_of_true hrun hpos
  · rw [if_pos (htick.mpr hpos)]
    exact iff_of_false Bool.noConfusion hpos

end

/-- In every run, each check has its own goroutine at all times and no probe is of a
check that was replaced, iff no check is added under an identifier, its own or a new one,
for which a goroutine was started before. -/
theorem oneMonitor_iff (steps : List MonitorStep) :
    ((∀ k, (machine.run new (steps.take k)).1.OneMonitor) ∧
      ∀ answer ∈ (machine.run new steps).2, ∀ probe, answer = some probe →
        probe.object = probe.registered) ↔
      machine.Along Fresh new steps := by
  have hlinked : ∀ s i, Linked s → Linked (machine.step s i).1 := fun s i hs => hs.step i
  have hone : ∀ s i, Linked s → OneMonitor s → (OneMonitor (machine.step s i).1 ↔ Fresh s i) :=
    fun s i hs hone => oneMonitor_step_iff hs hone i
  have hstates := machine.forall_take_iff_along hlinked hone linked_new oneMonitor_new steps
  have hboth : ∀ s i, Linked s ∧ OneMonitor s → Fresh s i →
      (Linked (machine.step s i).1 ∧ OneMonitor (machine.step s i).1) ∧
        ∀ probe, (machine.step s i).2 = some probe → probe.object = probe.registered :=
    fun s i hs hfresh => ⟨⟨hlinked s i hs.1, (hone s i hs.1 hs.2).mpr hfresh⟩,
      fun probe hprobe => hs.2.probe hprobe⟩
  constructor
  · intro h
    exact hstates.mp h.1
  · intro h
    exact ⟨hstates.mpr h, machine.forall_answers hboth ⟨linked_new, oneMonitor_new⟩ h⟩

/-- A check of a web page. -/
def httpDefinition (url : GoString) : CheckDefinition where
  id := str "web"
  name := str "web"
  serviceID := []
  http := url
  tcp := []
  grpc := []
  ttl := []
  interval := []
  timeout := []
  method := []
  headers := ∅
  tlsSkipVerify := false
  grpcUseTLS := false

/-- The page moves: the check is added again, and both pages are probed. -/
theorem replaced_check_probed :
    ¬ ∀ steps : List MonitorStep,
      (∀ k, (machine.run new (steps.take k)).1.OneMonitor) ∧
        ∀ answer ∈ (machine.run new steps).2, ∀ probe, answer = some probe →
          probe.object = probe.registered := by
  intro h
  let env : Env := ⟨0, fun _ => [], fun _ => none⟩
  have hprobes := (h [.addCheck env (httpDefinition (str "http://a")), .start 0,
    .addCheck env (httpDefinition (str "http://b")), .perform 0 .passing [] 0]).2
  exact absurd (hprobes (some ⟨0, 1⟩) (by decide) ⟨0, 1⟩ rfl) (by decide)

end Monitors

end Konsul
