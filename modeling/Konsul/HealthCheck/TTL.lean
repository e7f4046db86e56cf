import Konsul.HealthCheck.Listing
import Konsul.Lib.Duration
import Konsul.Lib.Machine

/-!
# How long a TTL check stays passing

The status of a check is stored, and the readers put it right when the time the last
update gave it has run out. A TTL that does not parse, is zero or is negative gives no
such time, and then no reader ever puts the status right. A check that has a target besides
its TTL is no TTL check, and passes by its probes.
-/

namespace Konsul

open GoLib

theorem Check.passing_of_expire {c : Check} {now : Time} (h : (c.expire now).status = .passing) :
    c.status = .passing ∧ (c.type = .ttl → ∀ t ∈ c.expiresAt, now ≤ t) := by
  unfold expire at h
  split_ifs at h with hexpired
  refine ⟨h, fun htype t ht => ?_⟩
  by_contra hlt
  exact hexpired ⟨htype, t, ht, not_le.mp hlt⟩

theorem Check.expire_of_forever {c : Check} (h : c.expiresAt = none) (now : Time) :
    c.expire now = c := by
  unfold expire
  rw [if_neg]
  rintro ⟨-, t, ht, -⟩
  rw [h] at ht
  cases ht

namespace Manager

/-- `GetCheck`: the check it finds is written to under the read lock. -/
def getCheck (m : Manager) (now : Time) (id : GoString) : Manager × Option Check :=
  match m.checks.lookup id with
  | none => (m, none)
  | some c => ({ checks := m.checks.insert id (c.expire now) }, some (c.expire now))

/-- A loop over the checks may visit them in any order. A probe is made by the goroutine of
its check, whatever the callers do. -/
inductive Call where
  | updateTTLCheck (id : GoString)
  | getCheck (id : GoString)
  | listChecks (range : (m : Manager) → m.checks.Order)
  | performCheck (id : GoString) (status : Status) (output : GoString)

inductive Answer where
  | done
  | error (err : Option GoError)
  | check (c : Option Check)
  | checks (cs : List Check)

def Answer.reported : Answer → List Check
  | done => []
  | error _ => []
  | check c => c.toList
  | checks cs => cs

/-- A call, and the time the clock shows during it. -/
abbrev TimedCall := Time × Call

def step (m : Manager) : TimedCall → Manager × Answer
  | (now, .updateTTLCheck id) =>
    let r := m.updateTTLCheck now id
    (r.1, .error r.2)
  | (now, .getCheck id) =>
    let r := m.getCheck now id
    (r.1, .check r.2)
  | (now, .listChecks range) =>
    let r := m.listChecks now (range m)
    (r.1, .checks r.2)
  | (now, .performCheck id status output) => (m.performCheck now id status output, .done)

def machine : Machine Manager TimedCall Answer := ⟨step⟩

/-- The clock does not go back. -/
def Clocked (now : Time) (calls : List TimedCall) : Prop :=
  (now :: calls.map Prod.fst).Pairwise (· ≤ ·)

/-- The check with this identifier is reported passing. -/
def Answer.Passing (id : GoString) (a : Answer) : Prop :=
  ∃ c ∈ a.reported, c.id = id ∧ c.status = .passing

/-- In every run after the check is added, it is reported passing only if it was updated
at most `bound` earlier. -/
def Backed (env : Env) (d : CheckDefinition) (bound : Duration) : Prop :=
  ∀ m : Manager, m.Keyed → ∀ calls before call after, calls = before ++ call :: after →
    Clocked env.now calls →
    ((machine.run (m.addCheck env d) before).1.step call).2.Passing d.id →
    ∃ u, (u, Call.updateTTLCheck d.id) ∈ before ∧ u ≤ call.1 ∧ call.1 - u ≤ bound

/-- The check passes only within its TTL, and one whose TTL cannot be honoured does not
pass for ever. -/
def WithinTTL (env : Env) (d : CheckDefinition) : Prop :=
  let identified := withID d (env.newUUID 0)
  (∀ ttl, env.parseDuration d.ttl = some ttl → Backed env identified ttl) ∧
    ((∀ ttl, env.parseDuration d.ttl = some ttl → ttl ≤ 0) → ∃ bound, Backed env identified bound)

/-- What a run keeps of the check a definition asks for. -/
structure Tracked (env : Env) (d : CheckDefinition) (calls : List TimedCall) (m : Manager) :
    Prop where
  keyed : m.Keyed
  fixed : ∀ c, m.checks.lookup d.id = some c → c.fixed = d.check env.parseDuration
  passing : ∀ c, m.checks.lookup d.id = some c → c.type = .ttl → c.status = .passing →
    ∃ u, (u, Call.updateTTLCheck d.id) ∈ calls ∧ (0 < c.ttl → c.expiresAt = some (u + c.ttl))

section

variable {env : Env} {d : CheckDefinition} {m : Manager} {calls : List TimedCall}

theorem tracked_addCheck (h : m.Keyed) : Tracked env d [] (m.addCheck env d) := by
  have hlookup : (m.addCheck env d).checks.lookup d.id = some (newCheck env d) := by
    rw [addCheck, Finmap.lookup_insert]
  constructor
  · exact addCheck_keyed h d
  · intro c hc
    rw [hlookup, Option.some_inj] at hc
    rw [← hc, newCheck_fixed]
  · intro c hc _ hpassing
    rw [hlookup, Option.some_inj] at hc
    rw [← hc] at hpassing
    cases hpassing

/-- A reader changes nothing but the checks that have run out. -/
theorem Tracked.read (h : Tracked env d calls m) (call : TimedCall) {m' : Manager}
    (hread : ∀ id c', m'.checks.lookup id = some c' →
      ∃ c, m.checks.lookup id = some c ∧ (c' = c ∨ c' = c.expire call.1)) :
    Tracked env d (calls ++ [call]) m' := by
  have hid : ∀ {c c' : Check}, (c' = c ∨ c' = c.expire call.1) → c'.fixed = c.fixed := by
    rintro c c' (rfl | rfl)
    · rfl
    · exact c.expire_fixed call.1
  constructor
  · intro id c' hc'
    obtain ⟨c, hc, hread⟩ := hread id c' hc'
    exact (Check.id_of_fixed (hid hread)).trans (h.keyed id c hc)
  · intro c' hc'
    obtain ⟨c, hc, hread⟩ := hread d.id c' hc'
    exact (hid hread).trans (h.fixed c hc)
  · intro c' hc' htype hpassing
    obtain ⟨c, hc, hread⟩ := hread d.id c' hc'
    have hsame : c' = c := by
      rcases hread with rfl | rfl
      · rfl
      · unfold Check.expire at hpassing ⊢
        split_ifs at hpassing with hexpired
        rw [if_neg hexpired]
    rw [hsame] at htype hpassing ⊢
    obtain ⟨u, hu, hexpires⟩ := h.passing c hc htype hpassing
    exact ⟨u, List.mem_append_left _ hu, hexpires⟩

theorem Tracked.update (h : Tracked env d calls m) (now : Time) (id : GoString) :
    Tracked env d (calls ++ [(now, .updateTTLCheck id)]) (m.updateTTLCheck now id).1 := by
  have hsame : Tracked env d (calls ++ [(now, .updateTTLCheck id)]) m :=
    h.read _ fun id c hc => ⟨c, hc, .inl rfl⟩
  unfold updateTTLCheck
  cases hlookup : m.checks.lookup id with
  | none => exact hsame
  | some c =>
    dsimp only
    by_cases htype : c.type = .ttl
    · rw [if_neg (not_not_intro htype)]
      constructor
      · intro id' c' hc'
        rw [GoMap.lookup_insert_ite] at hc'
        by_cases hid' : id' = id
        · rw [if_pos hid', Option.some_inj] at hc'
          rw [← hc', hid']
          exact h.keyed id c hlookup
        · rw [if_neg hid'] at hc'
          exact h.keyed id' c' hc'
      · intro c' hc'
        rw [GoMap.lookup_insert_ite] at hc'
        by_cases hid' : d.id = id
        · rw [if_pos hid', Option.some_inj] at hc'
          rw [← hid'] at hlookup
          rw [← hc']
          exact h.fixed c hlookup
        · rw [if_neg hid'] at hc'
          exact h.fixed c' hc'
      · intro c' hc' htype' hpassing
        rw [GoMap.lookup_insert_ite] at hc'
        by_cases hid' : d.id = id
        · rw [if_pos hid', Option.some_inj] at hc'
          rw [← hc', hid']
          exact ⟨now, List.mem_append_right _ (List.mem_singleton_self _), fun hpos => if_pos hpos⟩
        · rw [if_neg hid'] at hc'
          exact hsame.passing c' hc' htype' hpassing
    · rw [if_pos htype]
      exact hsame

/-- A probe is of a check that is no TTL check, and leaves what is fixed of it. -/
theorem Tracked.probe (h : Tracked env d calls m) (now : Time) (id : GoString) (status : Status)
    (output : GoString) :
    Tracked env d (calls ++ [(now, .performCheck id status output)])
      (m.performCheck now id status output) := by
  have hsame : Tracked env d (calls ++ [(now, .performCheck id status output)]) m :=
    h.read _ fun id c hc => ⟨c, hc, .inl rfl⟩
  unfold performCheck
  cases hlookup : m.checks.lookup id with
  | none => exact hsame
  | some c =>
    dsimp only
    by_cases htype : c.type = .ttl
    · rw [if_pos htype]
      exact hsame
    · rw [if_neg htype]
      constructor
      · intro id' c' hc'
        rw [GoMap.lookup_insert_ite] at hc'
        by_cases hid : id' = id
        · rw [if_pos hid, Option.some_inj] at hc'
          rw [← hc', hid]
          exact h.keyed id c hlookup
        · rw [if_neg hid] at hc'
          exact h.keyed id' c' hc'
      · intro c' hc'
        rw [GoMap.lookup_insert_ite] at hc'
        by_cases hid : d.id = id
        · rw [if_pos hid, Option.some_inj] at hc'
          rw [← hid] at hlookup
          rw [← hc']
          exact h.fixed c hlookup
        · rw [if_neg hid] at hc'
          exact h.fixed c' hc'
      · intro c' hc' htype' hpassing
        rw [GoMap.lookup_insert_ite] at hc'
        by_cases hid : d.id = id
        · rw [if_pos hid, Option.some_inj] at hc'
          rw [← hc'] at htype'
          exact absurd htype' htype
        · rw [if_neg hid] at hc'
          exact hsame.passing c' hc' htype' hpassing

theorem Tracked.step (h : Tracked env d calls m) (call : TimedCall) :
    Tracked env d (calls ++ [call]) (m.step call).1 := by
  obtain ⟨now, call⟩ := call
  cases call with
  | updateTTLCheck id => exact h.update now id
  | getCheck id =>
    refine h.read (now, .getCheck id) fun id' c' hc' => ?_
    simp only [Manager.step, getCheck] at hc'
    cases hlookup : m.checks.lookup id with
    | none =>
      rw [hlookup] at hc'
      exact ⟨c', hc', .inl rfl⟩
    | some c =>
      rw [hlookup] at hc'
      simp only [GoMap.lookup_insert_ite] at hc'
      split_ifs at hc' with hid
      · cases hc'
        exact ⟨c, hid ▸ hlookup, .inr rfl⟩
      · exact ⟨c', hc', .inl rfl⟩
  | listChecks range =>
    refine h.read (now, .listChecks range) fun id' c' hc' => ?_
    simp only [Manager.step, listChecks, GoMap.lookup_mapVal] at hc'
    obtain ⟨c, hc, rfl⟩ := Option.map_eq_some_iff.mp hc'
    exact ⟨c, hc, .inr rfl⟩
  | performCheck id status output => exact h.probe now id status output

theorem tracked_run (h : m.Keyed) (calls : List TimedCall) :
    Tracked env d calls (machine.run (m.addCheck env d) calls).1 := by
  induction calls using List.reverseRecOn with
  | nil => exact tracked_addCheck h
  | append_singleton calls call ih =>
    rw [Machine.run_snoc]
    exact ih.step call

/-- What a call reports of a check is the check, put right. -/
theorem reported_step (hkeyed : m.Keyed) (call : TimedCall) {c' : Check}
    (h : c' ∈ (m.step call).2.reported) :
    ∃ c, m.checks.lookup c'.id = some c ∧ c' = c.expire call.1 := by
  obtain ⟨now, call⟩ := call
  have hid : ∀ {id : GoString} {c : Check}, m.checks.lookup id = some c →
      (c.expire now).id = id := fun hc =>
    (Check.id_of_fixed (Check.expire_fixed _ now)).trans (hkeyed _ _ hc)
  cases call with
  | updateTTLCheck id => cases h
  | getCheck id =>
    simp only [step, getCheck] at h
    cases hlookup : m.checks.lookup id with
    | none =>
      rw [hlookup] at h
      cases h
    | some c =>
      rw [hlookup] at h
      rw [List.mem_singleton.mp h, hid hlookup]
      exact ⟨c, hlookup, rfl⟩
  | listChecks range =>
    simp only [step, listChecks] at h
    obtain ⟨e, he, rfl⟩ := List.mem_map.mp h
    have hlookup := ((range m).mem_list_iff e.1 e.2).mp he
    rw [hid hlookup]
    exact ⟨e.2, hlookup, rfl⟩
  | performCheck id status output => cases h

/-- A TTL check is reported passing only after an update, and within a TTL above zero. -/
theorem Tracked.reported (h : Tracked env d calls m) (htype : checkType d = .ttl) {call : TimedCall}
    (hpassing : (m.step call).2.Passing d.id) :
    ∃ u, (u, Call.updateTTLCheck d.id) ∈ calls ∧
      (0 < durationOr env d.ttl 0 → call.1 - u ≤ durationOr env d.ttl 0) := by
  obtain ⟨c', hc', hid, hpassing⟩ := hpassing
  obtain ⟨c, hlookup, rfl⟩ := reported_step h.keyed call hc'
  rw [hid] at hlookup
  obtain ⟨hstatus, hexpires⟩ := Check.passing_of_expire hpassing
  have hfixed := h.fixed c hlookup
  have hchecked : c.type = checkType d := congrArg Check.type hfixed
  have httl : c.ttl = durationOr env d.ttl 0 := congrArg Check.ttl hfixed
  obtain ⟨u, hu, hlast⟩ := h.passing c hlookup (hchecked.trans htype) hstatus
  refine ⟨u, hu, fun hpos => ?_⟩
  rw [← httl] at hpos ⊢
  have hbefore : call.1 ≤ u + c.ttl := hexpires (hchecked.trans htype) (u + c.ttl) (hlast hpos)
  exact sub_le_iff_le_add'.mpr hbefore

theorem Clocked.update_le {now : Time} {before after : List TimedCall} {call : TimedCall}
    (h : Clocked now (before ++ call :: after)) {u : Time} {c : Call} (hu : (u, c) ∈ before) :
    u ≤ call.1 := by
  rw [Clocked, List.pairwise_cons, List.map_append, List.pairwise_append] at h
  exact h.2.2.2 u (List.mem_map_of_mem hu) call.1 (by simp)

theorem backed_of_parsed {ttl : Duration} (htype : checkType d = .ttl)
    (hparse : env.parseDuration d.ttl = some ttl) (hne : d.ttl ≠ []) (hpos : 0 < ttl) :
    Backed env d ttl := by
  intro m hkeyed calls before call after hcalls hclock hpassing
  obtain ⟨u, hu, hbound⟩ := (tracked_run hkeyed before).reported htype hpassing
  have hdefault : durationOr env d.ttl 0 = ttl := by
    rw [durationOr, if_neg hne, hparse, Option.getD_some]
  rw [hdefault] at hbound
  rw [hcalls] at hclock
  exact ⟨u, hu, hclock.update_le hu, hbound hpos⟩

/-- A passing check without a time to expire is reported passing. -/
theorem passing_getCheck {late : Time} {c : Check} (hc : m.checks.lookup d.id = some c)
    (hid : c.id = d.id) (hstatus : c.status = .passing) (hexpires : c.expiresAt = none) :
    (m.step (late, .getCheck d.id)).2.Passing d.id := by
  have hreport : (m.step (late, .getCheck d.id)).2.reported = [c] := by
    simp only [step, getCheck, hc, Check.expire_of_forever hexpires]
    rfl
  rw [Answer.Passing, hreport]
  exact ⟨c, List.mem_singleton_self c, hid, hstatus⟩

theorem keyed_new : new.Keyed := by
  intro id c hc
  rw [new, Finmap.lookup_empty] at hc
  cases hc

/-- A check that is probed passes as soon as a probe finds it passing. -/
theorem not_backed_of_probe (htype : checkType d ≠ .ttl) (bound : Duration) :
    ¬ Backed env d bound := by
  intro h
  have hlookup : (new.addCheck env d).checks.lookup d.id = some (newCheck env d) := by
    rw [addCheck, Finmap.lookup_insert]
  have hnew : (newCheck env d).type ≠ .ttl := htype
  have hprobed : ((new.addCheck env d).step
      (env.now, .performCheck d.id .passing [])).1.checks.lookup d.id =
        some { newCheck env d with status := .passing, output := [], lastCheck := env.now } := by
    simp only [step, performCheck, hlookup, if_neg hnew, Finmap.lookup_insert]
  have hexpires : (newCheck env d).expiresAt = none := if_neg fun hpos => htype hpos.1
  have hclock : Clocked env.now
      [(env.now, .performCheck d.id .passing []), (env.now, .getCheck d.id)] := by
    simp [Clocked]
  obtain ⟨u, hu, -⟩ := h new keyed_new _ [(env.now, .performCheck d.id .passing [])] _ [] rfl hclock
    (passing_getCheck hprobed rfl rfl hexpires)
  cases List.mem_singleton.mp hu

theorem lookup_update_of_forever {now : Time} (h : m.checks.lookup d.id = some (newCheck env d))
    (htype : checkType d = .ttl) (httl : durationOr env d.ttl 0 ≤ 0) :
    ∃ c, (m.updateTTLCheck now d.id).1.checks.lookup d.id = some c ∧ c.id = d.id ∧
      c.status = .passing ∧ c.expiresAt = none := by
  have hnew : (newCheck env d).type = .ttl := htype
  have hnot : ¬ 0 < (newCheck env d).ttl := not_lt.mpr httl
  have hexpires : (newCheck env d).expiresAt = none := if_neg fun hpos => hnot hpos.2
  simp only [updateTTLCheck, h, hnew, ne_eq, not_true_eq_false, ite_false, if_neg hnot, hexpires,
    Finmap.lookup_insert]
  exact ⟨_, rfl, rfl, rfl, rfl⟩

/-- One update, and a TTL that gives no time: the check is passing ever after. -/
theorem not_backed (htype : checkType d = .ttl) (hne : d.ttl ≠ [])
    (hparse : ∀ ttl, env.parseDuration d.ttl = some ttl → ttl ≤ 0) (bound : Duration) :
    ¬ Backed env d bound := by
  intro h
  have httl : durationOr env d.ttl 0 ≤ 0 := by
    rw [durationOr, if_neg hne]
    cases hp : env.parseDuration d.ttl with
    | none => exact le_refl 0
    | some ttl => exact hparse ttl hp
  have hlookup : (new.addCheck env d).checks.lookup d.id = some (newCheck env d) := by
    rw [addCheck, Finmap.lookup_insert]
  obtain ⟨c, hc, hid, hstatus, hexpires⟩ :=
    @lookup_update_of_forever env d _ env.now hlookup htype httl
  let late : Time := env.now + (|bound| + 1)
  have hlate : env.now ≤ late := le_add_of_nonneg_right (by positivity)
  have hclock : Clocked env.now [(env.now, .updateTTLCheck d.id), (late, .getCheck d.id)] := by
    simp [Clocked, hlate]
  have hpassing : ((machine.run (new.addCheck env d) [(env.now, .updateTTLCheck d.id)]).1.step
      (late, .getCheck d.id)).2.Passing d.id := passing_getCheck hc hid hstatus hexpires
  obtain ⟨u, hu, -, hwithin⟩ := h new keyed_new _ _ _ [] rfl hclock hpassing
  have hfirst : u = env.now := congrArg Prod.fst (List.mem_singleton.mp hu)
  rw [hfirst] at hwithin
  have hover : |bound| + 1 ≤ bound := by
    rw [← add_sub_cancel_left env.now (|bound| + 1)]
    exact hwithin
  exact absurd (le_abs_self bound) (not_le.mpr (lt_of_lt_of_le (lt_add_one _) hover))

end

/-- Its identifier has no part in what is asked of a definition. -/
theorem withID_same (d : CheckDefinition) (newID : GoString) :
    checkType (withID d newID) = checkType d ∧ (withID d newID).ttl = d.ttl := by
  unfold withID
  split_ifs <;> exact ⟨rfl, rfl⟩

/-- A check passes only within its TTL iff it is a TTL check and its TTL is a duration
above zero. -/
theorem withinTTL_iff (env : Env) (d : CheckDefinition) (hne : d.ttl ≠ []) :
    WithinTTL env d ↔
      checkType d = .ttl ∧ ∃ ttl, env.parseDuration d.ttl = some ttl ∧ 0 < ttl := by
  obtain ⟨hsame, httl⟩ := withID_same d (env.newUUID 0)
  unfold WithinTTL
  rw [← hsame]
  rw [← httl] at hne ⊢
  generalize withID d (env.newUUID 0) = d at hne ⊢
  constructor
  · intro h
    by_cases hparsed : ∃ ttl, env.parseDuration d.ttl = some ttl ∧ 0 < ttl
    · obtain ⟨ttl, hparse, hpos⟩ := hparsed
      refine ⟨?_, ttl, hparse, hpos⟩
      by_contra htype
      exact not_backed_of_probe htype ttl (h.1 ttl hparse)
    · have hparse : ∀ ttl, env.parseDuration d.ttl = some ttl → ttl ≤ 0 := by
        intro ttl httl
        by_contra hpos
        exact hparsed ⟨ttl, httl, not_le.mp hpos⟩
      obtain ⟨bound, hbacked⟩ := h.2 hparse
      by_cases htype : checkType d = .ttl
      · exact absurd hbacked (not_backed htype hne hparse bound)
      · exact absurd hbacked (not_backed_of_probe htype bound)
  · rintro ⟨htype, ttl, hparse, hpos⟩
    constructor
    · intro ttl' hparse'
      rw [hparse, Option.some_inj] at hparse'
      rw [← hparse']
      exact backed_of_parsed htype hparse hne hpos
    · intro hnone
      exact absurd hpos (not_lt.mpr (hnone ttl hparse))

/-- The clock at zero, and the durations of the standard library. -/
def libraryEnv : Env := ⟨0, fun _ => [], parseDuration⟩

/-- A definition with only a TTL. -/
def ttlDefinition (ttl : GoString) : CheckDefinition where
  id := str "ttl"
  name := str "ttl"
  serviceID := []
  http := []
  tcp := []
  grpc := []
  ttl
  interval := []
  timeout := []
  method := []
  headers := ∅
  tlsSkipVerify := false
  grpcUseTLS := false

theorem withinTTL_thirtySeconds : WithinTTL libraryEnv (ttlDefinition (str "30s")) := by
  have hparse : libraryEnv.parseDuration (ttlDefinition (str "30s")).ttl = some (30 * second) := by
    decide +kernel
  exact (withinTTL_iff libraryEnv (ttlDefinition (str "30s")) (by decide)).mpr
    ⟨by decide, 30 * second, hparse, by decide⟩

/-- A TTL of no time keeps the check passing for ever. -/
theorem zeroTTL_passes_forever :
    ¬ ∀ (env : Env) (d : CheckDefinition), d.ttl ≠ [] → WithinTTL env d := by
  intro h
  have hparse : libraryEnv.parseDuration (ttlDefinition (str "0s")).ttl = some 0 := by
    decide +kernel
  have hzero : ∀ ttl, libraryEnv.parseDuration (ttlDefinition (str "0s")).ttl = some ttl →
      ttl ≤ 0 := by
    intro ttl httl
    rw [hparse, Option.some_inj] at httl
    exact httl.symm.le
  obtain ⟨bound, hbacked⟩ := (h libraryEnv (ttlDefinition (str "0s")) (by decide)).2 hzero
  exact not_backed (by decide) (by decide) hzero bound hbacked

end Manager

end Konsul
