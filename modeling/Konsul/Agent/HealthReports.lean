import Konsul.Agent.Health

/-!
# What the agent's health checker reports

A tick begins in some state and ends in a quiet time: does the server then know the status
of every registered check? It does if no status was recorded without being acknowledged; a
status that was is not reported until it changes.
-/

namespace Konsul.Agent.HealthChecker

open GoLib

/-- The status a tick that begins now finds. -/
def statusAt (h : HealthChecker) (now : Time) (id : GoString) : Option Status :=
  (h.registered id).map fun check => (check.expire now).status

/-- A status that is both the last and the present one has been acknowledged. -/
def Acknowledged (h : HealthChecker) (now : Time) : Prop :=
  ∀ id st, h.statusAt now id = some st → h.lastStatus.lookup id = some st → h.Acked id st

/-- No registered check changes its status, none is registered, and the server is reachable. -/
structure Quiet (h : HealthChecker) (i : HealthStep) : Prop where
  keeps : ∀ id st, (h.apply i).status id = some st → h.status id = some st
  noneAdded : ∀ env serviceID d, i ≠ .addCheck env serviceID d
  noneBegun : ∀ obj, i ≠ .firstStatus obj
  reaches : i ≠ .answer false

section

variable {h h' : HealthChecker}

/-- The steps of a tick after its listing, with a server that can be reached. -/
def ContinuesTick : HealthStep → Bool
  | .lock => true
  | .next => true
  | .send => true
  | .answer ok => ok
  | .record => true
  | _ => false

theorem Effect.status_of_continuesTick {i : HealthStep} (he : h.Effect i h')
    (hi : ContinuesTick i = true) (id : GoString) : h'.status id = h.status id := by
  cases he with
  | added env serviceID d => cases hi
  | begun obj => cases hi
  | removed checkID => cases hi
  | rewritten hprobes hr =>
    have hnot : Probes i = false := by cases i <;> first | rfl | cases hi
    rw [hnot] at hprobes
    cases hprobes
  | listed now hticks => cases hi
  | _ => rfl

theorem quiet_of_continuesTick (h : HealthChecker) {i : HealthStep}
    (hi : ContinuesTick i = true) : h.Quiet i where
  keeps id st hst := by
    rw [(h.apply_effect i).status_of_continuesTick hi] at hst
    exact hst
  noneAdded env serviceID d heq := by rw [heq] at hi; cases hi
  noneBegun obj heq := by rw [heq] at hi; cases hi
  reaches heq := by rw [heq] at hi; cases hi

theorem along_quiet (h : HealthChecker) {steps : List HealthStep}
    (hsteps : ∀ i ∈ steps, ContinuesTick i = true) : machine.Along Quiet h steps :=
  (machine.along_of_forall h hsteps).mono _ fun h _ hi => quiet_of_continuesTick h hi

/-! ### A quiet time -/

/-- What the report under way says of its check. -/
def Reporting (h : HealthChecker) : Tick → Prop
  | .sent update obj _ => h.idOf obj = some update.checkID ∧
    ∀ st, h.status update.checkID = some st → update.status = healthStatusFromCheckStatus st
  | .reported obj _ => ∀ id st, h.idOf obj = some id → h.status id = some st → h.Acked id st
  | _ => True

/-- From the listing of a tick on: a recorded status is acknowledged, and a check is, unless
the loop has still to come to it. -/
structure Settling (h : HealthChecker) : Prop where
  keyed : h.Keyed
  reports : h.config.reportOnlyChanges = true
  recorded : ∀ id st, h.status id = some st → h.lastStatus.lookup id = some st → h.Acked id st
  waiting : ∀ id obj st, h.checks.lookup id = some obj → h.status id = some st →
    obj ∈ h.tick.pending ∨ h.Acked id st
  own : ∀ obj ∈ h.tick.pending, ∀ id obj', h.idOf obj = some id →
    h.checks.lookup id = some obj' → obj' = obj
  reporting : h.Reporting h.tick

theorem Settling.shrinks (hs : h.Settling) (hr : h.Shrinks h')
    (hkeeps : ∀ id st, h'.status id = some st → h.status id = some st) : h'.Settling where
  keyed := hs.keyed.shrinks hr
  reports := by rw [hr.config]; exact hs.reports
  recorded id st hst hrec :=
    (hr.acked id st).mpr (hs.recorded id st (hkeeps id st hst) (hr.lastStatus id st hrec))
  waiting id obj st hid hst := by
    rw [hr.tick, hr.acked]
    exact hs.waiting id obj st (hr.checks id obj hid) (hkeeps id st hst)
  own obj hobj id obj' hid hid' := by
    rw [hr.tick] at hobj
    rw [hr.idOf] at hid
    exact hs.own obj hobj id obj' hid (hr.checks id obj' hid')
  reporting := by
    have hold := hs.reporting
    rw [hr.tick]
    cases hphase : h.tick with
    | sent update obj todo =>
      rw [hphase] at hold
      obtain ⟨hupdate, hstatus⟩ := hold
      exact ⟨(hr.idOf obj).trans hupdate, fun st hst => hstatus st (hkeeps _ st hst)⟩
    | reported obj todo =>
      rw [hphase] at hold
      intro id st hid hst
      rw [hr.idOf] at hid
      exact (hr.acked id st).mpr (hold id st hid (hkeeps id st hst))
    | idle => trivial
    | listed todo => trivial
    | looping todo => trivial
    | changed obj todo => trivial

theorem mem_range_iff {checks : GoMap GoString ℕ} {range : List (Σ _ : GoString, ℕ)}
    (hrange : (range : Multiset (Σ _ : GoString, ℕ)) = checks.entries) (obj : ℕ) :
    obj ∈ range.map Sigma.snd ↔ ∃ id, checks.lookup id = some obj := by
  have hmem : ∀ e, e ∈ range ↔ checks.lookup e.1 = some e.2 := by
    intro e
    rw [← Multiset.mem_coe, hrange, ← Finmap.lookup_eq_some_iff]
  constructor
  · intro hobj
    obtain ⟨e, he, heq⟩ := List.mem_map.mp hobj
    exact ⟨e.1, by rw [(hmem e).mp he, heq]⟩
  · rintro ⟨id, hid⟩
    exact List.mem_map.mpr ⟨⟨id, obj⟩, (hmem ⟨id, obj⟩).mpr hid, rfl⟩

theorem Settling.listed {range : List (Σ _ : GoString, ℕ)} (hk : h.Keyed)
    (hreports : h.config.reportOnlyChanges = true)
    (hrange : (range : Multiset (Σ _ : GoString, ℕ)) = h.checks.entries)
    (hrecorded : ∀ id st, h.status id = some st → h.lastStatus.lookup id = some st →
      h.Acked id st) :
    Settling { h with tick := .listed (range.map Sigma.snd) } where
  keyed := hk
  reports := hreports
  recorded := hrecorded
  waiting id obj _ hid _ := Or.inl ((mem_range_iff hrange obj).mpr ⟨id, hid⟩)
  own obj hobj id obj' hid hid' := by
    obtain ⟨id', hlookup⟩ := (mem_range_iff hrange obj).mp hobj
    have hsame : h.idOf obj = some id' := hk id' obj hlookup
    have hid : h.idOf obj = some id := hid
    rw [hsame, Option.some.injEq] at hid
    subst hid
    have hid' : h.checks.lookup id' = some obj' := hid'
    rw [hlookup, Option.some.injEq] at hid'
    exact hid'.symm
  reporting := trivial

/-- The loop goes on, and what it leaves behind is acknowledged. -/
theorem Settling.goOn (hs : h.Settling) {t : Tick}
    (hpending : ∀ obj ∈ t.pending, obj ∈ h.tick.pending)
    (hdone : ∀ id obj st, h.checks.lookup id = some obj → h.status id = some st →
      obj ∈ h.tick.pending → obj ∈ t.pending ∨ h.Acked id st)
    (hreporting : h.Reporting t) : Settling { h with tick := t } where
  keyed := hs.keyed
  reports := hs.reports
  recorded := hs.recorded
  waiting id obj st hid hst := by
    rcases hs.waiting id obj st hid hst with hobj | hacked
    · exact hdone id obj st hid hst hobj
    · exact Or.inr hacked
  own obj hobj := hs.own obj (hpending obj hobj)
  reporting := by
    cases t <;> exact hreporting

theorem Settling.unchanged (hs : h.Settling) {obj : ℕ} {todo : List ℕ} {check : Check}
    (hphase : h.tick = .looping (obj :: todo)) (hobj : h.heap[obj]? = some check)
    (hsame : h.lastStatus.lookup check.id = some check.status) :
    Settling { h with tick := .looping todo } := by
  refine hs.goOn (fun obj' hobj' => ?_) (fun id obj' st hid hst hobj' => ?_) trivial
  · rw [hphase]
    exact List.mem_cons_of_mem obj hobj'
  · rw [hphase] at hobj'
    rcases List.mem_cons.mp hobj' with rfl | hobj'
    · -- the check itself: its recorded status is its present one
      have hkey := hs.keyed id obj' hid
      rw [idOf_of_getElem hobj, Option.some.injEq] at hkey
      subst hkey
      have hnow := status_of_getElem hid hobj
      rw [hst, Option.some.injEq] at hnow
      subst hnow
      exact Or.inr (hs.recorded check.id check.status hst hsame)
    · exact Or.inl hobj'

/-- Rule for a phase with the same checks to deal with. -/
theorem Settling.phase (hs : h.Settling) {t : Tick} (hpending : t.pending = h.tick.pending)
    (hreporting : h.Reporting t) : Settling { h with tick := t } := by
  refine hs.goOn (fun obj hobj => ?_) (fun _ obj _ _ _ hobj => ?_) hreporting
  · rw [← hpending]
    exact hobj
  · rw [hpending]
    exact Or.inl hobj

theorem Settling.reporting_sent (hs : h.Settling) {obj : ℕ} {todo : List ℕ} {check : Check}
    (hphase : h.tick = .changed obj todo) (hobj : h.heap[obj]? = some check) :
    h.Reporting (.sent (healthUpdate check) obj todo) := by
  refine ⟨idOf_of_getElem hobj, fun st hst => ?_⟩
  obtain ⟨obj', check', hid', hobj', rfl⟩ := exists_of_status hst
  have hmem : obj ∈ h.tick.pending := by
    rw [hphase]
    exact List.mem_cons_self ..
  have hsame := hs.own obj hmem check.id obj' (idOf_of_getElem hobj) hid'
  subst hsame
  rw [hobj, Option.some.injEq] at hobj'
  rw [← hobj']
  rfl

theorem acked_insert {update : HealthUpdate} {id : GoString} {st : Status}
    (hupdate : id = update.checkID → update.status = healthStatusFromCheckStatus st)
    (hacked : id ≠ update.checkID → h.Acked id st) :
    Acked { h with acknowledged := h.acknowledged.insert update.checkID update } id st := by
  by_cases hid : id = update.checkID
  · subst hid
    exact ⟨update, Finmap.lookup_insert _, hupdate rfl⟩
  · obtain ⟨old, hold, hstatus⟩ := hacked hid
    exact ⟨old, (Finmap.lookup_insert_of_ne _ hid).trans hold, hstatus⟩

/-- A later acknowledgement says the same while the status is the same. -/
theorem Settling.acked_insert (hs : h.Settling) {update : HealthUpdate} {obj : ℕ}
    {todo : List ℕ} (hphase : h.tick = .sent update obj todo) {id : GoString} {st : Status}
    (hst : h.status id = some st) (hacked : h.Acked id st) :
    Acked { h with acknowledged := h.acknowledged.insert update.checkID update } id st := by
  have hreporting := hs.reporting
  rw [hphase] at hreporting
  refine HealthChecker.acked_insert (fun hid => ?_) fun _ => hacked
  subst hid
  exact hreporting.2 st hst

theorem Settling.acknowledged (hs : h.Settling) {update : HealthUpdate} {obj : ℕ}
    {todo : List ℕ} (hphase : h.tick = .sent update obj todo) :
    Settling { h with
      tick := .reported obj todo
      acknowledged := h.acknowledged.insert update.checkID update } := by
  have hreporting := hs.reporting
  rw [hphase] at hreporting
  obtain ⟨hupdate, hstatus⟩ := hreporting
  have hnew : ∀ id st, h.idOf obj = some id → h.status id = some st →
      Acked { h with acknowledged := h.acknowledged.insert update.checkID update } id st := by
    intro id st hid hst
    rw [hupdate, Option.some.injEq] at hid
    subst hid
    exact HealthChecker.acked_insert (fun _ => hstatus st hst) fun hne => absurd rfl hne
  exact
    { keyed := hs.keyed
      reports := hs.reports
      recorded := fun id st hst hrec => hs.acked_insert hphase hst (hs.recorded id st hst hrec)
      waiting := fun id obj' st hid hst => by
        rcases hs.waiting id obj' st hid hst with hobj | hacked
        · rw [hphase] at hobj
          rcases List.mem_cons.mp hobj with rfl | hobj
          · exact Or.inr (hnew id st (hs.keyed id obj' hid) hst)
          · exact Or.inl hobj
        · exact Or.inr (hs.acked_insert hphase hst hacked)
      own := fun obj' hobj' => by
        refine hs.own obj' ?_
        rw [hphase]
        exact List.mem_cons_of_mem obj hobj'
      reporting := hnew }

theorem Settling.record (hs : h.Settling) {obj : ℕ} {todo : List ℕ} {check : Check}
    (hphase : h.tick = .reported obj todo) (hobj : h.heap[obj]? = some check) :
    Settling { h with
      tick := .looping todo
      lastStatus := h.lastStatus.insert check.id check.status } := by
  have hreporting := hs.reporting
  rw [hphase] at hreporting
  have hnext : Settling { h with tick := .looping todo } :=
    hs.phase (by rw [hphase]; rfl) trivial
  exact
    { hnext with
      recorded := fun id st hst hrec => by
        by_cases hid : id = check.id
        · subst hid
          exact hreporting check.id st (idOf_of_getElem hobj) hst
        · rw [Finmap.lookup_insert_of_ne _ hid] at hrec
          exact hs.recorded id st hst hrec }

theorem Settling.effect (hs : h.Settling) {i : HealthStep} (he : h.Effect i h')
    (hkeeps : ∀ id st, h'.status id = some st → h.status id = some st)
    (hadded : ∀ env serviceID d, i ≠ .addCheck env serviceID d)
    (hbegun : ∀ obj, i ≠ .firstStatus obj) (hreaches : i ≠ .answer false) : h'.Settling := by
  cases he with
  | still => exact hs
  | added env serviceID d => exact absurd rfl (hadded env serviceID d)
  | begun obj => exact absurd rfl (hbegun obj)
  | removed checkID => exact hs.shrinks (shrinks_removeCheck h checkID) hkeeps
  | forgotten checkID => exact hs.shrinks (shrinks_forget h checkID) hkeeps
  | rewritten hi hr => exact hs.shrinks hr.shrinks hkeeps
  | @listed range now hticks =>
    have hexpired := hs.shrinks (rewrites_expire h (range.map Sigma.snd) now).shrinks hkeeps
    exact Settling.listed hexpired.keyed hexpired.reports hticks.2.2.2 hexpired.recorded
  | locked hphase => exact hs.phase (by rw [hphase]; rfl) trivial
  | ended hphase => exact hs.phase (by rw [hphase]; rfl) trivial
  | unchanged hphase hobj hsame => exact hs.unchanged hphase hobj hsame
  | changed hphase hobj hdiffers => exact hs.phase (by rw [hphase]; rfl) trivial
  | untold hphase hobj hdiffers hreports =>
    rw [hs.reports] at hreports
    cases hreports
  | sent hphase hobj => exact hs.phase (by rw [hphase]; rfl) (hs.reporting_sent hphase hobj)
  | failed hphase => exact absurd rfl hreaches
  | acknowledged hphase => exact hs.acknowledged hphase
  | recorded hphase hobj => exact hs.record hphase hobj

theorem Settling.apply (hs : h.Settling) {i : HealthStep} (hq : h.Quiet i) :
    (h.apply i).Settling :=
  hs.effect (h.apply_effect i) hq.keeps hq.noneAdded hq.noneBegun hq.reaches

theorem Settling.acked_effect (hs : h.Settling) {i : HealthStep} (he : h.Effect i h')
    {id : GoString} {st : Status} (hst : h.status id = some st) (hacked : h.Acked id st) :
    h'.Acked id st := by
  cases he with
  | begun obj =>
    unfold firstStatus
    split
    · exact hacked
    · exact hacked
  | removed checkID => exact ((shrinks_removeCheck h checkID).acked id st).mpr hacked
  | rewritten hi hr => exact (hr.shrinks.acked id st).mpr hacked
  | acknowledged hphase => exact hs.acked_insert hphase hst hacked
  | _ => exact hacked

theorem Settling.agreed_apply (hs : h.Settling) {i : HealthStep} (hq : h.Quiet i)
    (hagreed : h.Agreed) : (h.apply i).Agreed := by
  intro id st hst
  have hold := hq.keeps id st hst
  exact hs.acked_effect (h.apply_effect i) hold (hagreed id st hold)

theorem Settling.agreed_of_idle (hs : h.Settling) (hidle : h.tick = .idle) : h.Agreed := by
  intro id st hst
  obtain ⟨obj, check, hid, -, -⟩ := exists_of_status hst
  rcases hs.waiting id obj st hid hst with hobj | hacked
  · rw [hidle] at hobj
    cases hobj
  · exact hacked

theorem status_expire {objs : List ℕ} (hobjs : ∀ id obj, h.checks.lookup id = some obj → obj ∈ objs)
    (now : Time) (id : GoString) : (h.expire objs now).status id = h.statusAt now id := by
  rw [status, statusAt, registered, registered]
  change ((h.checks.lookup id).bind fun obj => (h.expire objs now).heap[obj]?).map _ = _
  cases hid : h.checks.lookup id with
  | none => rfl
  | some obj =>
    rw [Option.bind_some, Option.bind_some, getElem?_expire, Option.map_map]
    cases h.heap[obj]? with
    | none => rfl
    | some check => simp [hobjs id obj hid]

theorem settling_of_ticks {range : List (Σ _ : GoString, ℕ)} {now : Time} (hk : h.Keyed)
    (hticks : h.Ticks range) (hack : h.Acknowledged now) :
    (h.apply (.list range now)).Settling := by
  simp only [HealthChecker.apply, if_pos hticks]
  have hobjs : ∀ id obj, h.checks.lookup id = some obj → obj ∈ range.map Sigma.snd :=
    fun id obj hid => (mem_range_iff hticks.2.2.2 obj).mpr ⟨id, hid⟩
  have hexpired := hk.shrinks (rewrites_expire h (range.map Sigma.snd) now).shrinks
  refine Settling.listed hexpired hticks.2.1 hticks.2.2.2 fun id st hst hrec => ?_
  rw [status_expire hobjs] at hst
  exact hack id st hst hrec

/-! ### What is not reported -/

/-- The status of the check is the recorded one, and the server has not acknowledged it. -/
structure Unreported (id : GoString) (st : Status) (h : HealthChecker) : Prop where
  keyed : h.Keyed
  present : h.status id = some st
  recorded : h.lastStatus.lookup id = some st
  unacked : ¬ h.Acked id st
  own : ∀ obj ∈ h.tick.pending, h.idOf obj = some id → h.checks.lookup id = some obj
  apart : ∀ obj, h.tick.active = some obj → h.idOf obj ≠ some id
  sent : ∀ update obj todo, h.tick = .sent update obj todo → h.idOf obj = some update.checkID

/-- The check keeps its status, and its registration is left alone. -/
structure Holds (id : GoString) (h : HealthChecker) (i : HealthStep) : Prop where
  keeps : (h.apply i).status id = h.status id
  noneAdded : ∀ env serviceID d, i ≠ .addCheck env serviceID d
  noneBegun : ∀ obj, i ≠ .firstStatus obj
  noneForgotten : i ≠ .forget id

section

variable {id : GoString} {st : Status}

theorem Unreported.shrinks (hu : Unreported id st h) (hr : h.Shrinks h')
    (hpresent : h'.status id = some st) (hlast : h'.lastStatus.lookup id = h.lastStatus.lookup id) :
    Unreported id st h' where
  keyed := hu.keyed.shrinks hr
  present := hpresent
  recorded := hlast.trans hu.recorded
  unacked hacked := hu.unacked ((hr.acked id st).mp hacked)
  own obj hobj hid := by
    rw [hr.tick] at hobj
    rw [hr.idOf] at hid
    have hold := hu.own obj hobj hid
    obtain ⟨obj', check, hlookup, -, -⟩ := exists_of_status hpresent
    have hsame := hr.checks id obj' hlookup
    rw [hold, Option.some.injEq] at hsame
    rw [hsame]
    exact hlookup
  apart obj hobj := by
    rw [hr.tick] at hobj
    rw [hr.idOf]
    exact hu.apart obj hobj
  sent update obj todo htick := by
    rw [hr.tick] at htick
    rw [hr.idOf]
    exact hu.sent update obj todo htick

theorem Unreported.listed {range : List (Σ _ : GoString, ℕ)} (hu : Unreported id st h)
    (hrange : (range : Multiset (Σ _ : GoString, ℕ)) = h.checks.entries) :
    Unreported id st { h with tick := .listed (range.map Sigma.snd) } :=
  { hu with
    own := fun obj hobj hid => by
      obtain ⟨id', hlookup⟩ := (mem_range_iff hrange obj).mp hobj
      have hsame : h.idOf obj = some id' := hu.keyed id' obj hlookup
      have hid : h.idOf obj = some id := hid
      rw [hsame, Option.some.injEq] at hid
      rw [← hid]
      exact hlookup
    apart := fun _ hobj => nomatch hobj
    sent := fun _ _ _ htick => nomatch htick }

theorem Unreported.goOn (hu : Unreported id st h) {t : Tick}
    (hpending : ∀ obj ∈ t.pending, obj ∈ h.tick.pending)
    (hapart : ∀ obj, t.active = some obj → h.idOf obj ≠ some id)
    (hsent : ∀ update obj todo, t = .sent update obj todo → h.idOf obj = some update.checkID) :
    Unreported id st { h with tick := t } :=
  { hu with
    own := fun obj hobj => hu.own obj (hpending obj hobj)
    apart := hapart
    sent := hsent }

theorem Unreported.apart_of_differs (hu : Unreported id st h) {obj : ℕ} {todo : List ℕ}
    {check : Check} (hphase : h.tick = .looping (obj :: todo)) (hobj : h.heap[obj]? = some check)
    (hdiffers : h.lastStatus.lookup check.id ≠ some check.status) : h.idOf obj ≠ some id := by
  intro hid
  have hmem : obj ∈ h.tick.pending := by
    rw [hphase]
    exact List.mem_cons_self ..
  have hstatus := status_of_getElem (hu.own obj hmem hid) hobj
  rw [idOf_of_getElem hobj, Option.some.injEq] at hid
  rw [hu.present] at hstatus
  rw [hid, hu.recorded, hstatus] at hdiffers
  exact hdiffers rfl

theorem Unreported.checkID_ne (hu : Unreported id st h) {update : HealthUpdate} {obj : ℕ}
    {todo : List ℕ} (hphase : h.tick = .sent update obj todo) : id ≠ update.checkID := by
  have hother := hu.apart obj (by rw [hphase]; rfl)
  rw [hu.sent update obj todo hphase] at hother
  exact fun heq => hother (by rw [heq])

theorem Unreported.answered (hu : Unreported id st h) {update : HealthUpdate} {obj : ℕ}
    {todo : List ℕ} (hphase : h.tick = .sent update obj todo) :
    Unreported id st { h with tick := .reported obj todo } := by
  refine hu.goOn (fun obj' hobj' => ?_) (fun obj' hobj' => ?_) fun _ _ _ htick => nomatch htick
  · rw [hphase]
    exact List.mem_cons_of_mem obj hobj'
  · refine hu.apart obj' ?_
    rw [hphase]
    exact hobj'

theorem Unreported.effect (hu : Unreported id st h) {i : HealthStep} (he : h.Effect i h')
    (hkeeps : h'.status id = h.status id) (hadded : ∀ env serviceID d, i ≠ .addCheck env serviceID d)
    (hbegun : ∀ obj, i ≠ .firstStatus obj) (hforgotten : i ≠ .forget id) :
    Unreported id st h' := by
  have hpresent := hkeeps.trans hu.present
  cases he with
  | still => exact hu
  | added env serviceID d => exact absurd rfl (hadded env serviceID d)
  | begun obj => exact absurd rfl (hbegun obj)
  | removed checkID =>
    refine hu.shrinks (shrinks_removeCheck h checkID) hpresent ?_
    unfold removeCheck
    split_ifs <;> rfl
  | forgotten checkID =>
    have hne : id ≠ checkID := fun heq => hforgotten (by rw [heq])
    exact hu.shrinks (shrinks_forget h checkID) hpresent (Finmap.lookup_erase_ne hne)
  | rewritten hi hr => exact hu.shrinks hr.shrinks hpresent (congrArg _ hr.lastStatus)
  | @listed range now hticks =>
    have hexpired := hu.shrinks (rewrites_expire h (range.map Sigma.snd) now).shrinks hpresent rfl
    exact hexpired.listed hticks.2.2.2
  | locked hphase =>
    refine hu.goOn (fun obj hobj => ?_) (fun _ hobj => nomatch hobj) fun _ _ _ htick => nomatch htick
    rw [hphase]
    exact hobj
  | ended hphase =>
    exact hu.goOn (fun obj hobj => absurd hobj List.not_mem_nil) (fun _ hobj => nomatch hobj)
      fun _ _ _ htick => nomatch htick
  | @unchanged obj todo check hphase hobj hsame =>
    refine hu.goOn (fun obj' hobj' => ?_) (fun _ hobj' => nomatch hobj')
      fun _ _ _ htick => nomatch htick
    rw [hphase]
    exact List.mem_cons_of_mem obj hobj'
  | changed hphase hobj hdiffers =>
    refine hu.goOn (fun obj' hobj' => ?_) (fun obj' hobj' => ?_) fun _ _ _ htick => nomatch htick
    · rw [hphase]
      exact hobj'
    · cases hobj'
      exact hu.apart_of_differs hphase hobj hdiffers
  | @untold obj todo check hphase hobj hdiffers hreports =>
    refine hu.goOn (fun obj' hobj' => ?_) (fun obj' hobj' => ?_) fun _ _ _ htick => nomatch htick
    · rw [hphase]
      exact List.mem_cons_of_mem obj hobj'
    · cases hobj'
      exact hu.apart_of_differs hphase hobj hdiffers
  | sent hphase hobj =>
    refine hu.goOn (fun obj' hobj' => ?_) (fun obj' hobj' => ?_) fun _ _ _ htick => ?_
    · rw [hphase]
      exact hobj'
    · refine hu.apart obj' ?_
      rw [hphase]
      exact hobj'
    · cases htick
      exact idOf_of_getElem hobj
  | @failed update obj todo hphase => exact hu.answered hphase
  | @acknowledged update obj todo hphase =>
    have hanswered := hu.answered hphase
    exact
      { hanswered with
        unacked := fun ⟨update', hlookup, hstatus⟩ => by
          rw [Finmap.lookup_insert_of_ne _ (hu.checkID_ne hphase)] at hlookup
          exact hu.unacked ⟨update', hlookup, hstatus⟩ }
  | @recorded obj todo check hphase hobj =>
    have hne : id ≠ check.id := by
      have hother := hu.apart obj (by rw [hphase]; rfl)
      rw [idOf_of_getElem hobj] at hother
      exact fun heq => hother (by rw [heq])
    have hnext : Unreported id st { h with tick := .looping todo } := by
      refine hu.goOn (fun obj' hobj' => ?_) (fun _ hobj' => nomatch hobj')
        fun _ _ _ htick => nomatch htick
      rw [hphase]
      exact hobj'
    exact { hnext with recorded := (Finmap.lookup_insert_of_ne _ hne).trans hu.recorded }

theorem Unreported.apply (hu : Unreported id st h) {i : HealthStep} (hi : h.Holds id i) :
    Unreported id st (h.apply i) :=
  hu.effect (h.apply_effect i) hi.keeps hi.noneAdded hi.noneBegun hi.noneForgotten

end

end

/-! ### Runs -/

theorem keyed_after (cfg : HealthCheckConfig) (steps : List HealthStep) : (after cfg steps).Keyed :=
  machine.invariant_run (fun h i hk => hk.effect (h.apply_effect i)) (fun _ _ hid => nomatch hid) steps

theorem after_append (cfg : HealthCheckConfig) (steps steps' : List HealthStep) :
    after cfg (steps ++ steps') = (machine.run (after cfg steps) steps').1 := by
  rw [after, Machine.run_append, after]

/-- A tick that ends in a quiet time leaves the server knowing every status, if it began with
no unacknowledged status recorded as the last one. -/
theorem agreed_of_acknowledged (cfg : HealthCheckConfig) (earlier during later : List HealthStep)
    (range : List (Σ _ : GoString, ℕ)) (now : Time) (hticks : (after cfg earlier).Ticks range)
    (hack : (after cfg earlier).Acknowledged now)
    (hquiet : machine.Along Quiet (after cfg (earlier ++ [.list range now])) (during ++ later))
    (hdone : (after cfg (earlier ++ [.list range now] ++ during)).tick = .idle) :
    (after cfg (earlier ++ [.list range now] ++ during ++ later)).Agreed := by
  have hlisted : (after cfg (earlier ++ [.list range now])).Settling := by
    rw [after_append]
    exact settling_of_ticks (keyed_after cfg earlier) hticks hack
  rw [Machine.along_append] at hquiet
  have hsettled : (after cfg (earlier ++ [.list range now] ++ during)).Settling := by
    rw [after_append]
    exact machine.invariant (fun _ _ hs hq => hs.apply hq) hlisted hquiet.1
  have hagreed := hsettled.agreed_of_idle hdone
  have hlater := hquiet.2
  rw [← after_append] at hlater
  rw [after_append]
  have hstep : ∀ h i, h.Settling ∧ h.Agreed → h.Quiet i →
      (machine.step h i).1.Settling ∧ (machine.step h i).1.Agreed :=
    fun _ _ hs hq => ⟨hs.1.apply hq, hs.1.agreed_apply hq hs.2⟩
  exact (machine.invariant hstep ⟨hsettled, hagreed⟩ hlater).2

/-- What is recorded without an acknowledgement is not reported for as long as it is the
status of the check. -/
theorem not_acked_of_recorded (cfg : HealthCheckConfig) (earlier later : List HealthStep)
    {id : GoString} {st : Status} (hidle : (after cfg earlier).tick = .idle)
    (hpresent : (after cfg earlier).status id = some st)
    (hrecorded : (after cfg earlier).lastStatus.lookup id = some st)
    (hunacked : ¬ (after cfg earlier).Acked id st)
    (hholds : machine.Along (Holds id) (after cfg earlier) later) :
    ¬ (after cfg (earlier ++ later)).Acked id st := by
  have hstart : Unreported id st (after cfg earlier) :=
    { keyed := keyed_after cfg earlier
      present := hpresent
      recorded := hrecorded
      unacked := hunacked
      own := fun obj hobj => by rw [hidle] at hobj; cases hobj
      apart := fun obj hobj => by rw [hidle] at hobj; cases hobj
      sent := fun _ _ _ htick => by rw [hidle] at htick; cases htick }
  rw [after_append]
  exact (machine.invariant (fun _ _ hu hi => hu.apply hi) hstart hholds).unacked

/-- A TTL check is registered, and its TTL updated. -/
def registration : List HealthStep :=
  [.addCheck ⟨0, fun _ => [], fun _ => some 30⟩ (str "web") ⟨str "alive", str "alive", [], [], [],
    [], str "30s", [], [], [], ∅, false, false⟩, .firstStatus 0, .updateTTLCheck (str "alive") 1]

/-- What follows the listing in a tick over one check that has changed. -/
def reporting (ok : Bool) : List HealthStep := [.lock, .next, .send, .answer ok, .record, .next]

def reporter : HealthCheckConfig := ⟨true, str "10s", true, str "5s"⟩

theorem acknowledged_registration : (after reporter registration).Acknowledged 2 := by
  intro id st hst hrec
  have hlast : (after reporter registration).lastStatus =
      Finmap.insert (str "alive") Status.critical ∅ := rfl
  have hnow : (after reporter registration).statusAt 2 (str "alive") = some .passing := by decide
  rw [hlast] at hrec
  by_cases hid : id = str "alive"
  · subst hid
    rw [hnow] at hst
    cases hst
    rw [Finmap.lookup_insert] at hrec
    cases hrec
  · rw [Finmap.lookup_insert_of_ne _ hid] at hrec
    cases hrec

theorem agreed_of_acknowledged_alive :
    (after reporter (registration ++ [.list [⟨str "alive", 0⟩] 2] ++ reporting true ++ [])).Agreed :=
  agreed_of_acknowledged reporter registration (reporting true) [] [⟨str "alive", 0⟩] 2 (by decide)
    acknowledged_registration
    (along_quiet _ (by decide)) (by decide)

/-- The failed report of a status is not made again by the next tick. -/
theorem failed_report_is_lost : ¬ ∀ (cfg : HealthCheckConfig)
    (earlier during later : List HealthStep) (range : List (Σ _ : GoString, ℕ)) (now : Time),
    (after cfg earlier).Ticks range →
    machine.Along Quiet (after cfg (earlier ++ [.list range now])) (during ++ later) →
    (after cfg (earlier ++ [.list range now] ++ during)).tick = .idle →
    (after cfg (earlier ++ [.list range now] ++ during ++ later)).Agreed := by
  intro hclaim
  have hagreed := hclaim reporter (registration ++ .list [⟨str "alive", 0⟩] 2 :: reporting false)
    [.lock, .next, .next] [] [⟨str "alive", 0⟩] 3 (by decide)
    (along_quiet _ (by decide)) (by decide)
  obtain ⟨update, hupdate, -⟩ := hagreed (str "alive") .passing (by decide)
  cases hupdate

end Konsul.Agent.HealthChecker
