import Konsul.Agent.Protocol
import Konsul.Lib.Machine

/-!
# The sync engine of an agent

`QueueServiceUpdate` sends into a channel that `Run` empties into a buffer; a full
buffer is copied, cleared and sent to the server, with retries. The two histories say
what the channel took and what the server acknowledged. A step that loses an update
is the last attempt of a batch.
-/

namespace Konsul.Agent

open GoLib

structure SyncConfig where
  batchSize : ℤ
  retryAttempts : ℤ

/-- The batch `flushBatch` has copied, the attempt it is at, and whether it is the
flush before `Run` returns. -/
structure Flush where
  updates : List ServiceUpdate
  attempt : ℤ
  stopping : Bool

/-- Where `Run` stands. -/
inductive Loop where
  | selecting
  | flushing (f : Flush)
  | returned

structure SyncEngine where
  config : SyncConfig
  lastIndex : ℤ
  pendingQueue : List ServiceUpdate
  batchBuffer : List ServiceUpdate
  syncCount : UInt64
  syncErrors : UInt64
  loop : Loop
  /-- The context is cancelled. -/
  cancelled : Bool
  /-- What `QueueServiceUpdate` put on the channel so far. -/
  accepted : List ServiceUpdate
  /-- What the server acknowledged so far. -/
  acknowledged : List ServiceUpdate

/-- The capacity of the channel. -/
def queueCapacity : ℕ := 1000

inductive SyncStep where
  | queueServiceUpdate (update : ServiceUpdate)
  | cancel
  /-- `select` picks the cancelled context. -/
  | done
  /-- A ticker fires; `none` when the sync request fails. -/
  | tick (currentIndex : Option ℤ)
  /-- `select` picks the channel. -/
  | receive
  /-- One `BatchUpdate` request is answered, or fails. -/
  | attempt (acknowledged : Bool)
  deriving DecidableEq

namespace SyncEngine

def newSyncEngine (config : SyncConfig) : SyncEngine :=
  { config := config, lastIndex := 0, pendingQueue := [], batchBuffer := [], syncCount := 0,
    syncErrors := 0, loop := .selecting, cancelled := false, accepted := [], acknowledged := [] }

/-- A full channel drops the update. -/
def queueServiceUpdate (s : SyncEngine) (update : ServiceUpdate) : SyncEngine :=
  if s.pendingQueue.length < queueCapacity then
    { s with pendingQueue := s.pendingQueue ++ [update], accepted := s.accepted ++ [update] }
  else s

/-- `flushBatch` is over, with or without an error. -/
def flushed (s : SyncEngine) (stopping : Bool) : SyncEngine :=
  { s with loop := if stopping then .returned else .selecting }

/-- `flushBatch` up to its first attempt, if there is one. -/
def flushBatch (s : SyncEngine) (stopping : Bool) : SyncEngine :=
  if s.batchBuffer = [] then s.flushed stopping
  else if 0 ≤ s.config.retryAttempts then
    { s with batchBuffer := [], loop := .flushing ⟨s.batchBuffer, 0, stopping⟩ }
  else { s with batchBuffer := [] }.flushed stopping

def performSync (s : SyncEngine) (currentIndex : Option ℤ) : SyncEngine :=
  match currentIndex with
  | some i => { s with lastIndex := i, syncCount := s.syncCount + 1 }
  | none => { s with syncErrors := s.syncErrors + 1 }

def receive (s : SyncEngine) : SyncEngine :=
  match s.pendingQueue with
  | [] => s
  | update :: rest =>
    let s' := { s with pendingQueue := rest, batchBuffer := s.batchBuffer ++ [update] }
    if s.config.batchSize ≤ s'.batchBuffer.length then s'.flushBatch false else s'

/-- A request under a cancelled context is not answered. -/
def attempt (s : SyncEngine) (f : Flush) (acknowledged : Bool) : SyncEngine :=
  if acknowledged && !s.cancelled then
    { s with acknowledged := s.acknowledged ++ f.updates }.flushed f.stopping
  else if f.attempt + 1 ≤ s.config.retryAttempts then
    { s with loop := .flushing { f with attempt := f.attempt + 1 } }
  else s.flushed f.stopping

def step (s : SyncEngine) : SyncStep → SyncEngine
  | .queueServiceUpdate update => s.queueServiceUpdate update
  | .cancel => { s with cancelled := true }
  | .done =>
    match s.loop with
    | .selecting => if s.cancelled then s.flushBatch true else s
    | _ => s
  | .tick currentIndex =>
    match s.loop with
    | .selecting => s.performSync currentIndex
    | _ => s
  | .receive =>
    match s.loop with
    | .selecting => s.receive
    | _ => s
  | .attempt acknowledged =>
    match s.loop with
    | .flushing f => s.attempt f acknowledged
    | _ => s

def machine : Machine SyncEngine SyncStep Unit := ⟨fun s e => (s.step e, ())⟩

/-- The batch being sent. -/
def sending (s : SyncEngine) : List ServiceUpdate :=
  match s.loop with
  | .flushing f => f.updates
  | _ => []

/-- How often an update is in the queue, in the buffer, in the batch being sent, or
acknowledged. -/
def stock (s : SyncEngine) (u : ServiceUpdate) : ℕ :=
  (s.pendingQueue ++ s.batchBuffer ++ s.sending ++ s.acknowledged).count u

/-- Every accepted update is in one of these places, as often as it was accepted. -/
def Held (s : SyncEngine) : Prop := ∀ u, s.accepted.count u ≤ s.stock u

/-- What a flush that starts needs: a first attempt. -/
def Attempts (s : SyncEngine) (buffer : List ServiceUpdate) : Prop :=
  buffer = [] ∨ 0 ≤ s.config.retryAttempts

/-- The steps that keep every update: a flush makes an attempt, and a batch's last
attempt is acknowledged, which takes a context not cancelled yet. -/
def Keeps (s : SyncEngine) : SyncStep → Prop
  | .done => s.loop = .selecting → s.cancelled = true → s.Attempts s.batchBuffer
  | .receive => ∀ update rest, s.loop = .selecting → s.pendingQueue = update :: rest →
      s.config.batchSize ≤ (s.batchBuffer ++ [update]).length →
        s.Attempts (s.batchBuffer ++ [update])
  | .attempt acknowledged => ∀ f, s.loop = .flushing f →
      (acknowledged = true ∧ s.cancelled = false) ∨ f.attempt + 1 ≤ s.config.retryAttempts
  | _ => True

/-- Nothing is held or acknowledged that was not accepted, and no batch is empty. -/
structure Counted (s : SyncEngine) : Prop where
  bounded : ∀ u, s.stock u ≤ s.accepted.count u
  nonempty : ∀ f, s.loop = .flushing f → f.updates ≠ []

theorem stock_eq (s : SyncEngine) (u : ServiceUpdate) :
    s.stock u = s.pendingQueue.count u + s.batchBuffer.count u + s.sending.count u +
      s.acknowledged.count u := by
  unfold stock
  simp only [List.count_append]

/-! ### What the parts of a step do to the stock -/

section

variable (s : SyncEngine)

@[simp] theorem flushed_sending (stopping : Bool) : (s.flushed stopping).sending = [] := by
  cases stopping <;> rfl

theorem flushed_stock (stopping : Bool) (u : ServiceUpdate) :
    (s.flushed stopping).stock u + s.sending.count u = s.stock u := by
  simp only [stock_eq, flushed_sending, List.count_nil]
  simp only [flushed]
  omega

theorem flushed_not_flushing (stopping : Bool) (f : Flush) :
    (s.flushed stopping).loop ≠ .flushing f := by
  cases stopping <;> exact fun h => nomatch h

theorem flushBatch_stock (hloop : s.loop = .selecting) (stopping : Bool) (u : ServiceUpdate) :
    (s.flushBatch stopping).accepted = s.accepted ∧
      (s.flushBatch stopping).stock u +
        (if 0 ≤ s.config.retryAttempts then 0 else s.batchBuffer.count u) = s.stock u := by
  have hsending : s.sending = [] := by
    unfold sending
    rw [hloop]
  unfold flushBatch
  by_cases hempty : s.batchBuffer = []
  · rw [if_pos hempty]
    have hflushed := s.flushed_stock stopping u
    rw [hsending, List.count_nil] at hflushed
    rw [hempty, List.count_nil, ite_self]
    exact ⟨rfl, hflushed⟩
  · rw [if_neg hempty]
    by_cases hretry : 0 ≤ s.config.retryAttempts
    · rw [if_pos hretry, if_pos hretry]
      refine ⟨rfl, ?_⟩
      simp only [stock_eq, sending, hloop, List.count_nil]
      omega
    · rw [if_neg hretry, if_neg hretry]
      refine ⟨rfl, ?_⟩
      simp only [stock_eq, flushed_sending, hsending, List.count_nil]
      simp only [flushed, List.count_nil]
      omega

theorem flushBatch_nonempty (stopping : Bool) (f : Flush)
    (h : (s.flushBatch stopping).loop = .flushing f) : f.updates ≠ [] := by
  unfold flushBatch at h
  split_ifs at h with hempty hretry
  · exact absurd h (s.flushed_not_flushing stopping f)
  · cases h
    exact hempty
  · exact absurd h (flushed_not_flushing _ stopping f)

end

/-! ### Steps -/

/-- What a step takes in. -/
def gained (s : SyncEngine) : SyncStep → List ServiceUpdate
  | .queueServiceUpdate update => if s.pendingQueue.length < queueCapacity then [update] else []
  | _ => []

/-- What a flush that starts drops, when it makes no attempt. -/
def dropped (s : SyncEngine) (buffer : List ServiceUpdate) : List ServiceUpdate :=
  if 0 ≤ s.config.retryAttempts then [] else buffer

/-- What a step loses. -/
def lost (s : SyncEngine) : SyncStep → List ServiceUpdate
  | .done =>
    match s.loop with
    | .selecting => if s.cancelled then s.dropped s.batchBuffer else []
    | _ => []
  | .receive =>
    match s.loop, s.pendingQueue with
    | .selecting, update :: _ =>
      if s.config.batchSize ≤ (s.batchBuffer ++ [update]).length then
        s.dropped (s.batchBuffer ++ [update])
      else []
    | _, _ => []
  | .attempt acknowledged =>
    match s.loop with
    | .flushing f =>
      if acknowledged && !s.cancelled then []
      else if f.attempt + 1 ≤ s.config.retryAttempts then [] else f.updates
    | _ => []
  | _ => []

theorem dropped_eq_nil_iff (s : SyncEngine) (buffer : List ServiceUpdate) :
    s.dropped buffer = [] ↔ s.Attempts buffer := by
  unfold dropped Attempts
  split_ifs with h
  · exact iff_of_true rfl (.inr h)
  · exact (or_iff_left h).symm

theorem lost_eq_nil_iff {s : SyncEngine} (h : s.Counted) (e : SyncStep) :
    s.lost e = [] ↔ s.Keeps e := by
  cases e with
  | queueServiceUpdate update => exact iff_of_true rfl trivial
  | cancel => exact iff_of_true rfl trivial
  | tick currentIndex => exact iff_of_true rfl trivial
  | done =>
    unfold lost Keeps
    cases hloop : s.loop with
    | selecting =>
      cases hcancelled : s.cancelled with
      | false => exact iff_of_true rfl fun _ hc => nomatch hc
      | true =>
        simp only [if_true, dropped_eq_nil_iff, true_implies]
    | flushing f => exact iff_of_true rfl fun hl => nomatch hl
    | returned => exact iff_of_true rfl fun hl => nomatch hl
  | receive =>
    unfold lost Keeps
    cases hloop : s.loop with
    | selecting =>
      cases hqueue : s.pendingQueue with
      | nil => exact iff_of_true rfl fun _ _ _ hq => nomatch hq
      | cons update rest =>
        simp only [List.cons.injEq, true_implies, and_imp]
        split_ifs with hfull
        · rw [dropped_eq_nil_iff]
          constructor
          · rintro hattempts _ _ rfl rfl -
            exact hattempts
          · intro hall
            exact hall update rest rfl rfl hfull
        · refine iff_of_true rfl ?_
          rintro _ _ rfl rfl hfull'
          exact absurd hfull' hfull
    | flushing f => exact iff_of_true rfl fun _ _ hl => nomatch hl
    | returned => exact iff_of_true rfl fun _ _ hl => nomatch hl
  | attempt acknowledged =>
    unfold lost Keeps
    cases hloop : s.loop with
    | flushing f =>
      have hbatch := h.nonempty f hloop
      simp only [Loop.flushing.injEq, forall_eq']
      by_cases hsent : (acknowledged && !s.cancelled) = true
      · rw [if_pos hsent]
        have hpair : acknowledged = true ∧ s.cancelled = false := by simpa using hsent
        exact iff_of_true rfl (.inl hpair)
      · rw [if_neg hsent]
        have hpair : ¬ (acknowledged = true ∧ s.cancelled = false) := by simpa using hsent
        split_ifs with hmore
        · exact iff_of_true rfl (.inr hmore)
        · exact iff_of_false hbatch (not_or.mpr ⟨hpair, hmore⟩)
    | selecting => exact iff_of_true rfl fun _ hl => nomatch hl
    | returned => exact iff_of_true rfl fun _ hl => nomatch hl

/-- The books of one step: what it takes in and what it loses, nothing else. -/
theorem step_stock (s : SyncEngine) (e : SyncStep) (u : ServiceUpdate) :
    (s.step e).accepted = s.accepted ++ s.gained e ∧
      (s.step e).stock u + (s.lost e).count u = s.stock u + (s.gained e).count u := by
  cases e with
  | queueServiceUpdate update =>
    simp only [step, queueServiceUpdate, gained, lost]
    split_ifs
    · refine ⟨rfl, ?_⟩
      simp only [stock_eq, sending, List.count_append, List.count_nil]
      omega
    · exact ⟨(List.append_nil _).symm, rfl⟩
  | cancel => exact ⟨(List.append_nil _).symm, rfl⟩
  | tick currentIndex =>
    simp only [step, gained, lost]
    cases s.loop with
    | selecting =>
      cases currentIndex <;> exact ⟨(List.append_nil _).symm, rfl⟩
    | flushing f => exact ⟨(List.append_nil _).symm, rfl⟩
    | returned => exact ⟨(List.append_nil _).symm, rfl⟩
  | done =>
    simp only [step, gained, lost]
    cases hloop : s.loop with
    | selecting =>
      cases s.cancelled with
      | false => exact ⟨(List.append_nil _).symm, rfl⟩
      | true =>
        obtain ⟨haccepted, hstock⟩ := s.flushBatch_stock hloop true u
        simp only [if_true, dropped]
        refine ⟨by rw [haccepted, List.append_nil], ?_⟩
        split_ifs at hstock ⊢ <;> simpa using hstock
    | flushing f => exact ⟨(List.append_nil _).symm, rfl⟩
    | returned => exact ⟨(List.append_nil _).symm, rfl⟩
  | receive =>
    simp only [step, gained, lost]
    cases hloop : s.loop with
    | selecting =>
      simp only [receive]
      cases hqueue : s.pendingQueue with
      | nil => exact ⟨(List.append_nil _).symm, rfl⟩
      | cons update rest =>
        -- the update moves from the queue to the buffer, and the buffer may be flushed
        have hmoved : ∀ s' : SyncEngine, s' = { s with
            pendingQueue := rest, batchBuffer := s.batchBuffer ++ [update] } →
            s'.stock u = s.stock u := by
          rintro s' rfl
          simp only [stock_eq, sending, hqueue, List.count_append, List.count_cons, List.count_nil]
          omega
        simp only
        split_ifs with hfull
        · obtain ⟨haccepted, hstock⟩ := flushBatch_stock { s with
            pendingQueue := rest, batchBuffer := s.batchBuffer ++ [update] } hloop false u
          rw [hmoved _ rfl] at hstock
          simp only [dropped]
          refine ⟨by rw [haccepted, List.append_nil], ?_⟩
          simp only at hstock
          split_ifs at hstock ⊢ <;> simpa using hstock
        · refine ⟨(List.append_nil _).symm, ?_⟩
          rw [hmoved _ rfl]
    | flushing f => exact ⟨(List.append_nil _).symm, rfl⟩
    | returned => exact ⟨(List.append_nil _).symm, rfl⟩
  | attempt acknowledged =>
    simp only [step, gained, lost]
    cases hloop : s.loop with
    | flushing f =>
      have hsending : s.sending = f.updates := by
        unfold sending
        rw [hloop]
      simp only [attempt]
      split_ifs
      · refine ⟨(List.append_nil _).symm, ?_⟩
        simp only [stock_eq, flushed_sending, hsending, List.count_nil]
        simp only [flushed, List.count_append]
        omega
      · refine ⟨(List.append_nil _).symm, ?_⟩
        simp only [stock_eq, hsending]
        rfl
      · have hflushed := s.flushed_stock f.stopping u
        rw [hsending] at hflushed
        exact ⟨(List.append_nil _).symm, by rw [List.count_nil]; exact hflushed⟩
    | selecting => exact ⟨(List.append_nil _).symm, rfl⟩
    | returned => exact ⟨(List.append_nil _).symm, rfl⟩

theorem step_nonempty {s : SyncEngine} (h : ∀ f, s.loop = .flushing f → f.updates ≠ [])
    (e : SyncStep) : ∀ f, (s.step e).loop = .flushing f → f.updates ≠ [] := by
  intro f hf
  cases e with
  | queueServiceUpdate update =>
    simp only [step, queueServiceUpdate] at hf
    split_ifs at hf <;> exact h f hf
  | cancel => exact h f hf
  | tick currentIndex =>
    cases hloop : s.loop with
    | selecting => cases currentIndex <;> simp [step, performSync, hloop] at hf
    | flushing f' =>
      simp only [step, hloop] at hf
      exact h f (by rw [hloop]; exact hf)
    | returned => simp [step, hloop] at hf
  | done =>
    cases hloop : s.loop with
    | selecting =>
      simp only [step, hloop] at hf
      split_ifs at hf
      · exact s.flushBatch_nonempty true f hf
      · rw [hloop] at hf
        cases hf
    | flushing f' =>
      simp only [step, hloop] at hf
      exact h f (by rw [hloop]; exact hf)
    | returned => simp [step, hloop] at hf
  | receive =>
    cases hloop : s.loop with
    | selecting =>
      simp only [step, hloop, receive] at hf
      cases hqueue : s.pendingQueue with
      | nil =>
        simp only [hqueue, hloop] at hf
        cases hf
      | cons update rest =>
        simp only [hqueue] at hf
        split_ifs at hf
        exact flushBatch_nonempty _ false f hf
    | flushing f' =>
      simp only [step, hloop] at hf
      exact h f (by rw [hloop]; exact hf)
    | returned => simp [step, hloop] at hf
  | attempt acknowledged =>
    cases hloop : s.loop with
    | flushing f' =>
      simp only [step, hloop, attempt] at hf
      split_ifs at hf
      · exact absurd hf (flushed_not_flushing _ _ f)
      · cases hf
        exact h f' hloop
      · exact absurd hf (flushed_not_flushing _ _ f)
    | selecting => simp [step, hloop] at hf
    | returned => simp [step, hloop] at hf

theorem counted_step {s : SyncEngine} (h : s.Counted) (e : SyncStep) : (s.step e).Counted where
  bounded u := by
    obtain ⟨haccepted, hstock⟩ := s.step_stock e u
    have := h.bounded u
    rw [haccepted, List.count_append]
    omega
  nonempty := step_nonempty h.nonempty e

theorem held_step_iff {s : SyncEngine} (h : s.Counted) (hheld : s.Held) (e : SyncStep) :
    (s.step e).Held ↔ s.Keeps e := by
  rw [← lost_eq_nil_iff h e, List.eq_nil_iff_forall_not_mem]
  refine forall_congr' fun u => ?_
  obtain ⟨haccepted, hstock⟩ := s.step_stock e u
  have hle := h.bounded u
  have hge := hheld u
  rw [haccepted, List.count_append, ← List.count_eq_zero]
  omega

/-- In every state a run passes through every accepted update is held or
acknowledged, iff every step of the run keeps its updates. -/
theorem no_update_lost_iff (config : SyncConfig) (es : List SyncStep) :
    (∀ n, (machine.run (newSyncEngine config) (es.take n)).1.Held) ↔
      machine.Along Keeps (newSyncEngine config) es := by
  have hstart : (newSyncEngine config).Counted :=
    ⟨fun _ => le_rfl, fun _ h => nomatch h⟩
  have hheld : (newSyncEngine config).Held := fun _ => le_rfl
  exact @Machine.forall_take_iff_along _ _ _ machine Keeps Counted Held
    (fun _ e h => counted_step h e) (fun _ e h hh => held_step_iff h hh e) _ hstart hheld es

/-- The default configuration. -/
def defaultConfig : SyncConfig := ⟨100, 3⟩

/-- An update waits in the buffer when the agent stops: the flush before `Run` returns
uses the cancelled context, and every attempt fails although the server is up. -/
theorem buffer_lost_at_shutdown :
    ¬ ∀ (config : SyncConfig) (es : List SyncStep) (n : ℕ),
      (machine.run (newSyncEngine config) (es.take n)).1.Held := by
  intro h
  have hrun := h defaultConfig
    [.queueServiceUpdate ⟨str "delete", str "web", none, none⟩, .receive, .cancel, .done,
      .attempt true, .attempt true, .attempt true, .attempt true] 8
    ⟨str "delete", str "web", none, none⟩
  revert hrun
  decide +kernel

end SyncEngine

end Konsul.Agent
