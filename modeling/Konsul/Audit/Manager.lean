import Konsul.Lib.Chan
import Konsul.Lib.GoMap
import Konsul.Lib.Machine
import Konsul.Store.Errors

/-!
# The audit manager (internal/audit/manager.go)

Calls of `Record` and `Shutdown` beside the goroutine that writes the events. `Record`
looks at the closed flag and sends later; `Shutdown` sets the flag and closes the channel
later. A manager that is not enabled takes no part.
-/

namespace Konsul.Audit

open GoLib

def errManagerClosed : GoError := .text (str "audit manager closed")

def errNilEvent : GoError := .text (str "audit event is nil")

def errBufferFull : GoError := .text (str "audit buffer full")

def dropPolicyDrop : GoString := str "drop"

/-- `Config`; where the events are written to is left out. -/
structure Config where
  enabled : Bool
  bufferSize : ℤ
  dropPolicy : GoString

/-- `Event`, as far as `Record` looks at it: a zero time and a nil map are `none`. -/
structure Event where
  id : GoString
  timestamp : Option Time
  metadata : Option (GoMap GoString GoString)
  deriving DecidableEq

/-- The event as `Record` sends it. -/
def Event.complete (event : Event) (newID : GoString) (now : Time) : Event where
  id := if event.id = [] then newID else event.id
  timestamp := some (event.timestamp.getD now)
  metadata := some (event.metadata.getD ∅)

/-- A call of `Record`: `checked` has found the flag unset, `blocked` waits for room. -/
inductive RecordCall where
  | ready
  | checked (event : Event)
  | blocked (event : Event)
  | accepted (event : Event)
  | refused (err : GoError)
  | ignored
  | panicked
  deriving DecidableEq

/-- What the call has returned. -/
def RecordCall.result : RecordCall → Option (GoString × Option GoError)
  | accepted event => some (event.id, none)
  | refused err => some ([], some err)
  | ignored => some ([], none)
  | _ => none

/-- The call has passed its check and not yet ended. -/
def RecordCall.Sending : RecordCall → Prop
  | checked _ => True
  | blocked _ => True
  | _ => False

/-- A call of `Shutdown`. -/
inductive ShutdownCall where
  | ready
  | begun
  | returned (err : Option GoError)
  deriving DecidableEq

/-- `holding` is what `run` has received and not yet written; `shutdownDone` is closed with
an error of the writer. -/
structure Manager (R S : Type) where
  enabled : Bool
  dropPolicy : GoString
  closed : Bool
  events : Chan (R × Event)
  holding : Option (R × Event)
  running : Bool
  written : List (R × Event)
  shutdownDone : Option (Option GoError)
  records : R → RecordCall
  shutdowns : S → ShutdownCall

/-- What the scheduler, the clock, a context or the writer decides. -/
inductive Step (R S : Type) where
  | record (k : R) (event : Option Event) (newID : GoString) (now : Time)
  | send (k : R)
  | cancel (k : R) (err : GoError)
  | receive
  | write
  | shutdown (j : S)
  | closeEvents
  | finish (err : Option GoError)
  | awaited (j : S)
  | expire (j : S) (err : GoError)

namespace Manager

variable {R S : Type} [DecidableEq R] [DecidableEq S]

/-- `NewManager`, when its writer can be made. -/
def newManager (cfg : Config) : Manager R S where
  enabled := cfg.enabled
  dropPolicy := if cfg.dropPolicy = [] then dropPolicyDrop else cfg.dropPolicy
  closed := false
  events := ⟨if cfg.bufferSize ≤ 0 then 1024 else cfg.bufferSize.toNat, [], 0, false, [],
    Nat.zero_le _, Or.inl rfl⟩
  holding := none
  running := cfg.enabled
  written := []
  shutdownDone := none
  records _ := .ready
  shutdowns _ := .ready

def setRecord (m : Manager R S) (k : R) (call : RecordCall) : Manager R S :=
  { m with records := Function.update m.records k call }

def setShutdown (m : Manager R S) (j : S) (call : ShutdownCall) : Manager R S :=
  { m with shutdowns := Function.update m.shutdowns j call }

/-- `Record` up to its check of the flag. -/
def record (m : Manager R S) (k : R) (event : Option Event) (newID : GoString) (now : Time) :
    Manager R S :=
  if ¬ m.enabled then m.setRecord k .ignored
  else match event with
    | none => m.setRecord k (.refused errNilEvent)
    | some event =>
      if m.closed then m.setRecord k (.refused errManagerClosed)
      else m.setRecord k (.checked (event.complete newID now))

/-- The send of `Record`; a full buffer refuses the event or makes the call wait. -/
def send (m : Manager R S) (k : R) (event : Event) : Manager R S :=
  match m.events.trySend (k, event) with
  | none => m.setRecord k .panicked
  | some (events, true) => { m with events }.setRecord k (.accepted event)
  | some (events, false) =>
    if m.dropPolicy = dropPolicyDrop then { m with events }.setRecord k (.refused errBufferFull)
    else { m with events }.setRecord k (.blocked event)

/-- `run` takes an event, or leaves its loop when the channel is closed and empty. -/
def receive (m : Manager R S) : Manager R S :=
  match m.events.buffer with
  | event :: _ => { m with events := m.events.receive, holding := some event }
  | [] => if m.events.closed then { m with running := false } else m

/-- `close(m.events)`: senders that wait on the channel panic. -/
def closeEvents (m : Manager R S) : Manager R S :=
  match m.events.close with
  | none => m
  | some events =>
    { m with
      events
      records := fun k =>
        match m.records k with
        | .blocked _ => .panicked
        | call => call }

/-- A step; one that cannot be taken changes nothing. -/
def apply (m : Manager R S) : Step R S → Manager R S
  | .record k event newID now => if m.records k = .ready then m.record k event newID now else m
  | .send k =>
    match m.records k with
    | .checked event => m.send k event
    | .blocked event => m.send k event
    | _ => m
  | .cancel k err =>
    match m.records k with
    | .blocked _ => m.setRecord k (.refused err)
    | _ => m
  | .receive => if m.running ∧ m.holding = none then m.receive else m
  | .write => { m with written := m.written ++ m.holding.toList, holding := none }
  | .shutdown j =>
    if m.shutdowns j = .ready then
      if m.enabled then { m with closed := true }.setShutdown j .begun
      else m.setShutdown j (.returned none)
    else m
  | .closeEvents => if m.closed then m.closeEvents else m
  | .finish err =>
    if m.events.closed ∧ ¬ m.running ∧ m.shutdownDone = none then { m with shutdownDone := some err }
    else m
  | .awaited j =>
    match m.shutdowns j, m.shutdownDone with
    | .begun, some err => m.setShutdown j (.returned err)
    | _, _ => m
  | .expire j err =>
    if m.shutdowns j = .begun ∧ m.events.closed then m.setShutdown j (.returned (some err)) else m

def machine : Machine (Manager R S) (Step R S) Unit := ⟨fun m i => (m.apply i, ())⟩

/-! ### What every step keeps -/

/-- The channel is open until the flag is set, `run` until the channel is closed and drained,
and an accepted event is in the channel or on its way to the writer. -/
structure Kept (m : Manager R S) : Prop where
  enabled : m.enabled = true
  idle : m.events.waiting = 0
  taken : m.events.received = m.written ++ m.holding.toList
  accepted : ∀ k event, m.records k = .accepted event → (k, event) ∈ m.events.sent
  closed : m.events.closed = true → m.closed = true
  stopped : m.running = false → m.events.closed = true ∧ m.events.buffer = [] ∧ m.holding = none
  done : ∀ err, m.shutdownDone = some err → m.running = false
  begun : ∀ j, m.shutdowns j ≠ .ready → m.closed = true
  returned : ∀ j, m.shutdowns j = .returned none → m.shutdownDone = some none

section

variable {m : Manager R S}

omit [DecidableEq R] [DecidableEq S] in
theorem kept_newManager (cfg : Config) (h : cfg.enabled = true) :
    (newManager cfg : Manager R S).Kept where
  enabled := h
  idle := rfl
  taken := rfl
  accepted _ _ hcall := nomatch hcall
  closed hclosed := nomatch hclosed
  stopped hstopped := by
    change cfg.enabled = false at hstopped
    rw [h] at hstopped
    cases hstopped
  done _ hdone := nomatch hdone
  begun _ hcall := absurd rfl hcall
  returned _ hcall := nomatch hcall

omit [DecidableEq S] in
theorem Kept.setRecord (h : m.Kept) {k : R} {call : RecordCall}
    (hcall : ∀ event, call = .accepted event → (k, event) ∈ m.events.sent) :
    (m.setRecord k call).Kept :=
  { h with
    accepted := fun k' event hk' => by
      by_cases hk : k' = k
      · subst hk
        have hnew : call = .accepted event := by simpa [Manager.setRecord] using hk'
        exact hcall event hnew
      · have hold : m.records k' = .accepted event := by simpa [Manager.setRecord, hk] using hk'
        exact h.accepted k' event hold }

omit [DecidableEq R] in
theorem Kept.setShutdown (h : m.Kept) {j : S} {call : ShutdownCall} (hflag : m.closed = true)
    (hcall : call = .returned none → m.shutdownDone = some none) : (m.setShutdown j call).Kept :=
  { h with
    begun := fun _ _ => hflag
    returned := fun j' hj' => by
      by_cases hj : j' = j
      · subst hj
        have hnew : call = .returned none := by simpa [Manager.setShutdown] using hj'
        exact hcall hnew
      · have hold : m.shutdowns j' = .returned none := by simpa [Manager.setShutdown, hj] using hj'
        exact h.returned j' hold }

omit [DecidableEq S] in
theorem Kept.record (h : m.Kept) (k : R) (event : Option Event) (newID : GoString) (now : Time) :
    (m.record k event newID now).Kept := by
  have hother {call : RecordCall} (hcall : ∀ event, call ≠ .accepted event) :
      (m.setRecord k call).Kept := h.setRecord fun event heq => absurd heq (hcall event)
  unfold Manager.record
  rw [if_neg (not_not.mpr h.enabled)]
  cases event with
  | none => exact hother fun _ hno => nomatch hno
  | some event =>
    dsimp only
    split_ifs
    · exact hother fun _ hno => nomatch hno
    · exact hother fun _ hno => nomatch hno

omit [DecidableEq S] in
theorem Kept.send (h : m.Kept) (k : R) (event : Event) : (m.send k event).Kept := by
  unfold Manager.send
  cases hsend : m.events.trySend (k, event) with
  | none => exact h.setRecord fun _ hno => by cases hno
  | some r =>
    obtain ⟨events, accepted⟩ := r
    obtain ⟨hopen, hopen', hidle, hreceived, hbuffer⟩ := Chan.trySend_of_idle h.idle hsend
    have hsent : ∀ p ∈ m.events.sent, p ∈ events.sent := by
      intro p hp
      rw [Chan.sent, hreceived, hbuffer]
      split_ifs
      · rw [← List.append_assoc]
        exact List.mem_append_left _ hp
      · exact hp
    have hkept : ({ m with events } : Manager R S).Kept :=
      { h with
        idle := hidle
        taken := hreceived.trans h.taken
        accepted := fun k' event' hk' => hsent _ (h.accepted k' event' hk')
        closed := fun hclosed => by rw [hopen'] at hclosed; cases hclosed
        stopped := fun hstopped => by
          have hclosed := (h.stopped hstopped).1
          rw [hopen] at hclosed
          cases hclosed }
    cases accepted with
    | true =>
      refine hkept.setRecord fun event' heq => ?_
      cases heq
      change (k, event) ∈ events.sent
      rw [Chan.sent, hbuffer]
      exact List.mem_append_right _ (List.mem_append_right _ (List.mem_singleton_self _))
    | false =>
      dsimp only
      split_ifs
      · exact hkept.setRecord fun _ hno => by cases hno
      · exact hkept.setRecord fun _ hno => by cases hno

omit [DecidableEq R] [DecidableEq S] in
theorem Kept.receive (h : m.Kept) (hrunning : m.running = true) (hholding : m.holding = none) :
    m.receive.Kept := by
  unfold Manager.receive
  cases hbuffer : m.events.buffer with
  | nil =>
    dsimp only
    split_ifs with hclosed
    · exact { h with
        stopped := fun _ => ⟨hclosed, hbuffer, hholding⟩
        done := fun err hdone => rfl }
    · exact h
  | cons event rest =>
    obtain ⟨hreceived, -, hwaiting⟩ := Chan.receive_of_cons hbuffer
    have htaken := h.taken
    rw [hholding] at htaken
    exact { h with
      idle := hwaiting.trans h.idle
      taken := by
        change m.events.receive.received = m.written ++ [event]
        rw [hreceived, htaken]
        simp
      accepted := fun k event hk => by
        change (k, event) ∈ m.events.receive.sent
        rw [Chan.receive_sent]
        exact h.accepted k event hk
      closed := fun hclosed => h.closed (by simpa using hclosed)
      stopped := fun hstopped => by
        change m.running = false at hstopped
        rw [hrunning] at hstopped
        cases hstopped }

omit [DecidableEq R] [DecidableEq S] in
theorem Kept.closeEvents (h : m.Kept) (hflag : m.closed = true) : m.closeEvents.Kept := by
  unfold Manager.closeEvents
  cases hclose : m.events.close with
  | none => exact h
  | some events =>
    have hopen : m.events.closed = false := by
      cases hclosed : m.events.closed with
      | false => rfl
      | true => simp [Chan.close, hclosed] at hclose
    have hevents : events.waiting = 0 ∧ events.received = m.events.received ∧
        events.sent = m.events.sent ∧ events.closed = true := by
      simp only [Chan.close, hopen, Bool.false_eq_true, ite_false, Option.some.injEq] at hclose
      subst hclose
      exact ⟨rfl, rfl, rfl, rfl⟩
    obtain ⟨hidle, hreceived, hsent, hclosed⟩ := hevents
    exact { h with
      idle := hidle
      taken := hreceived.trans h.taken
      accepted := fun k event hk => by
        change (match m.records k with | .blocked _ => RecordCall.panicked | call => call) = _ at hk
        change (k, event) ∈ events.sent
        rw [hsent]
        refine h.accepted k event ?_
        cases hcall : m.records k <;> rw [hcall] at hk <;> first | exact hk | cases hk
      closed := fun _ => hflag
      stopped := fun hstopped => by
        have hclosed := (h.stopped hstopped).1
        rw [hopen] at hclosed
        cases hclosed }

theorem Kept.apply (h : m.Kept) (i : Step R S) : (m.apply i).Kept := by
  cases i with
  | record k event newID now =>
    simp only [Manager.apply]
    split_ifs
    · exact h.record k event newID now
    · exact h
  | send k =>
    simp only [Manager.apply]
    split
    · exact h.send k _
    · exact h.send k _
    · exact h
  | cancel k err =>
    simp only [Manager.apply]
    split
    · exact h.setRecord fun _ hno => nomatch hno
    · exact h
  | receive =>
    simp only [Manager.apply]
    split_ifs with hrun
    · exact h.receive hrun.1 hrun.2
    · exact h
  | write =>
    exact { h with
      taken := by
        change m.events.received = (m.written ++ m.holding.toList) ++ []
        rw [List.append_nil]
        exact h.taken
      stopped := fun hstopped => ⟨(h.stopped hstopped).1, (h.stopped hstopped).2.1, rfl⟩ }
  | shutdown j =>
    have hkept : ({ m with closed := true } : Manager R S).Kept :=
      { h with closed := fun _ => rfl, begun := fun _ _ => rfl }
    simp only [Manager.apply, if_pos h.enabled]
    split_ifs
    · exact hkept.setShutdown rfl fun hno => nomatch hno
    · exact h
  | closeEvents =>
    simp only [Manager.apply]
    split_ifs with hflag
    · exact h.closeEvents hflag
    · exact h
  | finish err =>
    simp only [Manager.apply]
    split_ifs with hfinish
    · obtain ⟨-, hstopped, hnone⟩ := hfinish
      exact { h with
        done := fun _ _ => by simpa using hstopped
        returned := fun j hj => by
          have hdone := h.returned j hj
          rw [hnone] at hdone
          cases hdone }
    · exact h
  | awaited j =>
    simp only [Manager.apply]
    split
    · next err hcall hdone =>
      have hflag := h.begun j (by rw [hcall]; exact fun hno => nomatch hno)
      exact h.setShutdown hflag fun heq => by cases heq; exact hdone
    · exact h
  | expire j err =>
    simp only [Manager.apply]
    split_ifs with hexpired
    · have hflag := h.closed hexpired.2
      exact h.setShutdown hflag fun hno => nomatch hno
    · exact h

omit [DecidableEq R] [DecidableEq S] in
/-- Once a `Shutdown` has returned nil, everything accepted has been written. -/
theorem Kept.written_of_returned (h : m.Kept) {j : S} (hj : m.shutdowns j = .returned none) {k : R}
    {event : Event} (hk : m.records k = .accepted event) : (k, event) ∈ m.written := by
  have hstopped := h.done none (h.returned j hj)
  obtain ⟨-, hbuffer, hholding⟩ := h.stopped hstopped
  have hsent := h.accepted k event hk
  rw [Chan.sent, hbuffer, h.taken, hholding] at hsent
  simpa using hsent

/-! ### Runs -/

/-- The channel is closed only while no call is between its check of the flag and its end. -/
def ClosesQuietly (m : Manager R S) (i : Step R S) : Prop :=
  i = .closeEvents → ∀ k, ¬ (m.records k).Sending

/-- No call has panicked, and none is about to. -/
structure Calm (m : Manager R S) : Prop where
  calm : ∀ k, m.records k ≠ .panicked
  sending : ∀ k, (m.records k).Sending → m.events.closed = false

omit [DecidableEq S] in
theorem Calm.setRecord (h : m.Calm) {k : R} {call : RecordCall} (hcall : call ≠ .panicked)
    (hsending : call.Sending → m.events.closed = false) : (m.setRecord k call).Calm where
  calm k' := by
    by_cases hk : k' = k
    · subst hk
      simpa [Manager.setRecord] using hcall
    · simpa [Manager.setRecord, hk] using h.calm k'
  sending k' hk' := by
    by_cases hk : k' = k
    · subst hk
      exact hsending (by simpa [Manager.setRecord] using hk')
    · exact h.sending k' (by simpa [Manager.setRecord, hk] using hk')

omit [DecidableEq S] in
theorem Calm.send (h : m.Calm) (hkept : m.Kept) (k : R) (event : Event)
    (hopen : m.events.closed = false) : (m.send k event).Calm := by
  unfold Manager.send
  cases hsend : m.events.trySend (k, event) with
  | none =>
    rw [Chan.trySend_eq_none_iff, hopen] at hsend
    cases hsend
  | some r =>
    obtain ⟨events, accepted⟩ := r
    obtain ⟨-, hopen', -⟩ := Chan.trySend_of_idle hkept.idle hsend
    have hcalm : ({ m with events } : Manager R S).Calm := ⟨h.calm, fun _ _ => hopen'⟩
    cases accepted with
    | true => exact hcalm.setRecord (fun hno => nomatch hno) fun hno => nomatch hno
    | false =>
      dsimp only
      split_ifs
      · exact hcalm.setRecord (fun hno => nomatch hno) fun hno => nomatch hno
      · exact hcalm.setRecord (fun hno => nomatch hno) fun _ => hopen'

theorem Calm.apply (h : m.Calm) (hkept : m.Kept) {i : Step R S} (hquiet : m.ClosesQuietly i) :
    (m.apply i).Calm := by
  cases i with
  | record k event newID now =>
    have hrecord : (m.record k event newID now).Calm := by
      unfold Manager.record
      rw [if_neg (not_not.mpr hkept.enabled)]
      cases event with
      | none => exact h.setRecord (fun hno => nomatch hno) fun hno => nomatch hno
      | some event =>
        dsimp only
        split_ifs with hflag
        · exact h.setRecord (fun hno => nomatch hno) fun hno => nomatch hno
        · refine h.setRecord (fun hno => nomatch hno) fun _ => ?_
          exact Bool.eq_false_iff.mpr fun hclosed => hflag (hkept.closed hclosed)
    simp only [Manager.apply]
    split
    · exact hrecord
    · exact h
  | send k =>
    simp only [Manager.apply]
    split
    · next event hk => exact h.send hkept k event (h.sending k (by rw [hk]; trivial))
    · next event hk => exact h.send hkept k event (h.sending k (by rw [hk]; trivial))
    · exact h
  | cancel k err =>
    simp only [Manager.apply]
    split
    · exact h.setRecord (fun hno => nomatch hno) fun hno => nomatch hno
    · exact h
  | receive =>
    simp only [Manager.apply]
    split_ifs
    · unfold Manager.receive
      split
      · refine ⟨h.calm, fun k hk => ?_⟩
        change m.events.receive.closed = false
        rw [Chan.receive_closed]
        exact h.sending k hk
      · split_ifs
        · exact ⟨h.calm, h.sending⟩
        · exact h
    · exact h
  | write => exact ⟨h.calm, h.sending⟩
  | shutdown j =>
    simp only [Manager.apply]
    split_ifs <;> exact ⟨h.calm, h.sending⟩
  | closeEvents =>
    have hnone := hquiet rfl
    simp only [Manager.apply]
    split_ifs
    · unfold Manager.closeEvents
      cases m.events.close with
      | none => exact h
      | some events =>
        -- nobody waits on the channel
        have hsame : (fun k => match m.records k with
            | .blocked _ => RecordCall.panicked
            | call => call) = m.records := by
          funext k
          have hk := hnone k
          cases hcall : m.records k with
          | blocked event =>
            rw [hcall] at hk
            exact absurd trivial hk
          | _ => rfl
        refine ⟨fun k => ?_, fun k hk => ?_⟩
        · change (fun k => match m.records k with
            | .blocked _ => RecordCall.panicked
            | call => call) k ≠ _
          rw [hsame]
          exact h.calm k
        · change ((fun k => match m.records k with
            | .blocked _ => RecordCall.panicked
            | call => call) k).Sending at hk
          rw [hsame] at hk
          exact absurd hk (hnone k)
    · exact h
  | finish err =>
    simp only [Manager.apply]
    split_ifs <;> exact ⟨h.calm, h.sending⟩
  | awaited j =>
    simp only [Manager.apply]
    split <;> exact ⟨h.calm, h.sending⟩
  | expire j err =>
    simp only [Manager.apply]
    split_ifs <;> exact ⟨h.calm, h.sending⟩

/-- A manager that is not enabled ignores every call. -/
structure Off (m : Manager R S) : Prop where
  enabled : m.enabled = false
  closed : m.closed = false
  running : m.running = false
  records : ∀ k, m.records k = .ready ∨ m.records k = .ignored

theorem Off.apply (h : m.Off) (i : Step R S) : (m.apply i).Off := by
  have hshutdown (j : S) (call : ShutdownCall) : (m.setShutdown j call).Off := { h with }
  cases i with
  | record k event newID now =>
    have hrecord : m.record k event newID now = m.setRecord k .ignored :=
      if_pos (by rw [h.enabled]; exact Bool.false_ne_true)
    simp only [Manager.apply, hrecord]
    split
    · refine { h with records := fun k' => ?_ }
      by_cases hk : k' = k
      · simp [Manager.setRecord, hk]
      · simpa [Manager.setRecord, hk] using h.records k'
    · exact h
  | send k =>
    rcases h.records k with hk | hk <;> simp only [Manager.apply, hk] <;> exact h
  | cancel k err =>
    rcases h.records k with hk | hk <;> simp only [Manager.apply, hk] <;> exact h
  | receive => simpa [Manager.apply, h.running] using h
  | write => exact { h with }
  | shutdown j =>
    have hoff : ¬ m.enabled = true := by rw [h.enabled]; exact Bool.false_ne_true
    simp only [Manager.apply, if_neg hoff]
    split
    · exact hshutdown j _
    · exact h
  | closeEvents => simpa [Manager.apply, h.closed] using h
  | finish err =>
    simp only [Manager.apply]
    split_ifs
    · exact { h with }
    · exact h
  | awaited j =>
    simp only [Manager.apply]
    split
    · exact hshutdown j _
    · exact h
  | expire j err =>
    simp only [Manager.apply]
    split_ifs
    · exact hshutdown j _
    · exact h

theorem refused_apply {k : R} {err : GoError} (h : m.records k = .refused err) (i : Step R S) :
    (m.apply i).records k = .refused err := by
  have hset (m' : Manager R S) (hm' : m'.records = m.records) {k' : R} (call : RecordCall)
      (hk' : m.records k' ≠ .refused err) : (m'.setRecord k' call).records k = .refused err := by
    have hne : k ≠ k' := fun heq => hk' (heq ▸ h)
    simpa [Manager.setRecord, hne, hm'] using h
  have hsend (k' : R) (event : Event) (hk' : m.records k' ≠ .refused err) :
      (m.send k' event).records k = .refused err := by
    unfold Manager.send
    split
    · exact hset m rfl _ hk'
    · exact hset _ rfl _ hk'
    · split_ifs
      · exact hset _ rfl _ hk'
      · exact hset _ rfl _ hk'
  cases i with
  | record k' event newID now =>
    simp only [Manager.apply]
    by_cases hready : m.records k' = .ready
    · have hk' : m.records k' ≠ .refused err := by rw [hready]; exact fun hno => nomatch hno
      rw [if_pos hready]
      unfold Manager.record
      cases event <;> dsimp only <;> split_ifs <;> exact hset m rfl _ hk'
    · rw [if_neg hready]
      exact h
  | send k' =>
    simp only [Manager.apply]
    split
    · next event hk => exact hsend k' event (by rw [hk]; exact fun hno => nomatch hno)
    · next event hk => exact hsend k' event (by rw [hk]; exact fun hno => nomatch hno)
    · exact h
  | cancel k' err' =>
    simp only [Manager.apply]
    split
    · next event hk => exact hset m rfl _ (by rw [hk]; exact fun hno => nomatch hno)
    · exact h
  | receive =>
    have hreceive : m.receive.records = m.records := by
      unfold Manager.receive
      split
      · rfl
      · split_ifs <;> rfl
    simp only [Manager.apply]
    split
    · rw [hreceive]
      exact h
    · exact h
  | write => exact h
  | shutdown j =>
    simp only [Manager.apply]
    split_ifs <;> exact h
  | closeEvents =>
    simp only [Manager.apply, Manager.closeEvents]
    split_ifs
    · split
      · exact h
      · dsimp only
        rw [h]
    · exact h
  | finish err' =>
    simp only [Manager.apply]
    split_ifs <;> exact h
  | awaited j =>
    simp only [Manager.apply]
    split <;> exact h
  | expire j err' =>
    simp only [Manager.apply]
    split_ifs <;> exact h

theorem refused_run {k : R} {err : GoError} (h : m.records k = .refused err)
    (run : List (Step R S)) : (machine.run m run).1.records k = .refused err :=
  @Machine.invariant_run _ _ _ machine (fun m => m.records k = .refused err)
    (fun _ i hrefused => refused_apply hrefused i) _ h run

end

theorem kept_run (cfg : Config) (h : cfg.enabled = true) (run : List (Step R S)) :
    (machine.run (newManager cfg) run).1.Kept :=
  @Machine.invariant_run _ _ _ machine Kept (fun _ i hkept => hkept.apply i) _
    (kept_newManager cfg h) run

theorem off_run (cfg : Config) (h : cfg.enabled = false) (run : List (Step R S)) :
    (machine.run (newManager cfg) run).1.Off :=
  @Machine.invariant_run _ _ _ machine Off (fun _ i hoff => hoff.apply i) _
    ⟨h, rfl, h, fun _ => .inl rfl⟩ run

/-- Nothing is sent on the closed channel, what was accepted has been written when a `Shutdown`
returns nil, and a `Record` that starts after a `Shutdown` has begun is refused. -/
structure SafeRun (cfg : Config) (run : List (Step R S)) : Prop where
  sends : ∀ k, (machine.run (newManager cfg) run).1.records k ≠ .panicked
  written : ∀ j, (machine.run (newManager cfg) run).1.shutdowns j = .returned none →
    ∀ k event, (machine.run (newManager cfg) run).1.records k = .accepted event →
      (k, event) ∈ (machine.run (newManager cfg) run).1.written
  refused : cfg.enabled = true → ∀ before k event newID now after j,
    run = before ++ .record k (some event) newID now :: after →
    (machine.run (newManager cfg) before).1.shutdowns j ≠ .ready →
    (machine.run (newManager cfg) before).1.records k = .ready →
    (machine.run (newManager cfg) run).1.records k = .refused errManagerClosed

/-- A run that closes the channel only while no `Record` is under way is safe. -/
theorem safe_of_closesQuietly (cfg : Config) (run : List (Step R S))
    (h : machine.Along ClosesQuietly (newManager cfg) run) : SafeRun cfg run := by
  by_cases henabled : cfg.enabled = true
  · have hkept := kept_run cfg henabled run
    have hcalm : (machine.run (newManager cfg) run).1.Calm := by
      have hstep (m : Manager R S) (i : Step R S) (hm : m.Kept ∧ m.Calm) (hquiet : m.ClosesQuietly i) :
          (m.apply i).Kept ∧ (m.apply i).Calm := ⟨hm.1.apply i, hm.2.apply hm.1 hquiet⟩
      have hstart : (newManager cfg : Manager R S).Calm :=
        ⟨fun _ hno => (nomatch hno), fun _ hno => False.elim hno⟩
      have hboth := @Machine.invariant _ _ _ machine _ (fun m => m.Kept ∧ m.Calm) hstep _ _
        ⟨kept_newManager cfg henabled, hstart⟩ h
      exact hboth.2
    refine ⟨hcalm.calm, fun j hj k event hk => hkept.written_of_returned hj hk, ?_⟩
    intro _ before k event newID now after j hrun hbegun hready
    have hkept' := kept_run (S := S) cfg henabled before
    have hflag := hkept'.begun j hbegun
    have hrefused : ((machine.run (newManager cfg) before).1.apply
        (.record k (some event) newID now)).records k = .refused errManagerClosed := by
      simp only [Manager.apply, if_pos hready, Manager.record,
        if_neg (not_not.mpr hkept'.enabled), if_pos hflag]
      simp [Manager.setRecord]
    rw [hrun, Machine.run_middle]
    exact refused_run hrefused after
  · have hoff := off_run cfg (Bool.eq_false_iff.mpr henabled) run
    refine ⟨fun k hk => ?_, fun j hj k event hk => ?_, fun hno => absurd hno henabled⟩
    · rcases hoff.records k with hk' | hk' <;> rw [hk'] at hk <;> cases hk
    · rcases hoff.records k with hk' | hk' <;> rw [hk'] at hk <;> cases hk

def defaultConfig : Config := ⟨true, 0, []⟩

def login : Event := ⟨str "login", some 1, some ∅⟩

/-- One event recorded, written and then shut down. -/
def recordThenShutdown : List (Step ℕ ℕ) :=
  [.record 0 (some login) [] 1, .send 0, .receive, .write, .shutdown 0, .closeEvents, .receive,
    .finish none, .awaited 0]

theorem safe_recordThenShutdown :
    machine.Along ClosesQuietly (newManager defaultConfig) recordThenShutdown ∧
      SafeRun defaultConfig recordThenShutdown := by
  have hquiet : machine.Along ClosesQuietly (newManager defaultConfig) recordThenShutdown := by
    refine ⟨?_, ?_, ?_, ?_, ?_, fun _ k hk => ?_, ?_, ?_, ?_, trivial⟩
    case refine_6 =>
      match k with
      | 0 => exact hk
      | k + 1 => exact hk
    all_goals exact fun hno => nomatch hno
  exact ⟨hquiet, safe_of_closesQuietly defaultConfig recordThenShutdown hquiet⟩

/-- The manager is shut down between the check of a `Record` and its send. -/
theorem send_on_closed : ¬ SafeRun defaultConfig
    [.record 0 (some login) [] 1, .shutdown 0, .closeEvents, (.send 0 : Step ℕ ℕ)] :=
  fun h => h.sends 0 rfl

end Manager

end Konsul.Audit
