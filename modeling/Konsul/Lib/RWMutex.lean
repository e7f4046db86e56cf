import Mathlib.Data.Multiset.AddSub
import Konsul.Lib.Machine
import Konsul.Lib.Program

/-!
# Threads that share a state under a readers-writer mutex

A thread is a program of lock operations and accesses to the shared state. A writer
first announces itself, once no other writer does, and holds the lock when the readers
are gone; while one waits or holds the lock no thread starts reading. Which of the
waiting threads goes first is left open. A state in which every unfinished thread waits
takes a thread that reads again while it reads, and another that writes.
-/

namespace GoLib

inductive LockStep (S : Type) where
  | rLock
  | rUnlock
  | lock
  | unlock
  /-- Changes the shared state, and answers what it was. -/
  | access (f : S → S)

abbrev LockStep.Answer {S : Type} : LockStep S → Type
  | .access _ => S
  | _ => Unit

abbrev Thread (S R : Type) := Program (LockStep S) LockStep.Answer R

namespace Thread

variable {S R T : Type}

def perform (step : LockStep S) : Thread S step.Answer := Program.perform step

def reading (read : S → R) : Thread S R := do
  perform .rLock
  let s ← perform (.access id)
  perform .rUnlock
  return read s

def writing (update : S → S × R) : Thread S R := do
  perform .lock
  let s ← perform (.access fun s => (update s).1)
  perform .unlock
  return (update s).2

/-- An access that takes no lock of this mutex. -/
def unlocked (update : S → S × R) : Thread S R := do
  let s ← perform (.access fun s => (update s).1)
  return (update s).2

/-- What a step does when no other thread runs. -/
def alone (s : S) : (step : LockStep S) → S × step.Answer
  | .access f => (f s, s)
  | .rLock => (s, ())
  | .rUnlock => (s, ())
  | .lock => (s, ())
  | .unlock => (s, ())

/-- What a thread holds; `reading n` are n + 1 read locks. -/
inductive Mode where
  | free
  | reading (n : ℕ)
  | writing
  deriving DecidableEq

/-- The thread takes and releases the lock in turn, from one mode to another. It reads while
it reads only if `nested`, and writes only if `writes`. -/
def Takes (nested writes : Prop) (last : Mode) : Mode → Thread S R → Prop
  | m, .ret _ => m = last
  | m, .call .rLock next =>
    match m with
    | .free => Takes nested writes last (.reading 0) (next ())
    | .reading n => nested ∧ Takes nested writes last (.reading (n + 1)) (next ())
    | .writing => False
  | m, .call .rUnlock next =>
    match m with
    | .reading 0 => Takes nested writes last .free (next ())
    | .reading (n + 1) => Takes nested writes last (.reading n) (next ())
    | _ => False
  | m, .call .lock next => m = .free ∧ writes ∧ Takes nested writes last .writing (next ())
  | m, .call .unlock next => m = .writing ∧ Takes nested writes last .free (next ())
  | m, .call (.access _) next => ∀ s, Takes nested writes last m (next s)

variable {nested writes : Prop}

theorem Takes.bind {m middle last : Mode} {p : Thread S R} {f : R → Thread S T}
    (hp : p.Takes nested writes middle m) (hf : ∀ r, (f r).Takes nested writes last middle) :
    (p >>= f : Thread S T).Takes nested writes last m := by
  induction p generalizing m with
  | ret r =>
    have hmode : m = middle := hp
    rw [hmode]
    exact hf r
  | call step next ih =>
    cases step with
    | rLock =>
      cases m with
      | free => exact ih () hp
      | reading n => exact ⟨hp.1, ih () hp.2⟩
      | writing => exact hp.elim
    | rUnlock =>
      cases m with
      | free => exact hp.elim
      | reading n =>
        cases n with
        | zero => exact ih () hp
        | succ n => exact ih () hp
      | writing => exact hp.elim
    | lock => exact ⟨hp.1, hp.2.1, ih () hp.2.2⟩
    | unlock => exact ⟨hp.1, ih () hp.2⟩
    | access f => exact fun s => ih s (hp s)

theorem takes_reading (read : S → R) :
    (reading read).Takes nested writes .free .free := fun _ => rfl

theorem takes_reading_nested (h : nested) (n : ℕ) (read : S → R) :
    (reading read).Takes nested writes (.reading n) (.reading n) := ⟨h, fun _ => rfl⟩

theorem takes_writing (h : writes) (update : S → S × R) :
    (writing update).Takes nested writes .free .free := ⟨rfl, h, fun _ => ⟨rfl, rfl⟩⟩

theorem takes_unlocked (m : Mode) (update : S → S × R) :
    (unlocked update).Takes nested writes m m := fun _ => rfl

end Thread

inductive Writer (I : Type) where
  | none
  | waiting (i : I)
  | holding (i : I)
  deriving DecidableEq

/-- `readers` has a thread once for each of its read locks. -/
structure Threads (S I R : Type) where
  shared : S
  readers : Multiset I
  writer : Writer I
  program : I → Thread S R

namespace Threads

variable {S I R : Type} [DecidableEq I]

/-- A thread goes on with what is left of its program. -/
def advance (s : Threads S I R) (i : I) (rest : Thread S R) : Threads S I R :=
  { s with program := Function.update s.program i rest }

/-- The next step of a thread; `none` where it has to wait or has finished. -/
def next (s : Threads S I R) (i : I) : Option (Threads S I R) :=
  match s.program i with
  | .ret _ => none
  | .call .rLock rest =>
    match s.writer with
    | .none => some ({ s with readers := i ::ₘ s.readers }.advance i (rest ()))
    | _ => none
  | .call .rUnlock rest => some ({ s with readers := s.readers.erase i }.advance i (rest ()))
  | .call .lock rest =>
    match s.writer with
    | .none => some { s with writer := .waiting i }
    | .waiting j =>
      if j = i ∧ s.readers = 0 then some ({ s with writer := .holding i }.advance i (rest ()))
      else none
    | .holding _ => none
  | .call .unlock rest => some ({ s with writer := .none }.advance i (rest ()))
  | .call (.access f) rest => some ({ s with shared := f s.shared }.advance i (rest s.shared))

def machine : Machine (Threads S I R) I Unit := ⟨fun s i => ((s.next i).getD s, ())⟩

def Finished (s : Threads S I R) (i : I) : Prop := ∃ r, s.program i = .ret r

/-- Some thread has not finished, and every one that has not waits. -/
def Deadlocked (s : Threads S I R) : Prop :=
  (∃ i, ¬ s.Finished i) ∧ ∀ i, ¬ s.Finished i → s.next i = none

/-- Threads that are about to start. -/
def start (shared : S) (program : I → Thread S R) : Threads S I R := ⟨shared, 0, .none, program⟩

/-! ### Which threads a deadlock takes -/

section

variable {nested writes : I → Prop} {s s' : Threads S I R} {i : I}

/-- The read locks of a mode. -/
def held : Thread.Mode → ℕ
  | .reading n => n + 1
  | _ => 0

/-- What each thread holds, as the mutex has it. -/
structure Sound (nested writes : I → Prop) (s : Threads S I R) (mode : I → Thread.Mode) : Prop where
  takes : ∀ i, (s.program i).Takes (nested i) (writes i) .free (mode i)
  readers : ∀ i, s.readers.count i = held (mode i)
  holding : ∀ i, s.writer = .holding i → mode i = .writing
  waiting : ∀ i, s.writer = .waiting i → ∃ rest, s.program i = .call .lock rest

theorem sound_start (shared : S) {program : I → Thread S R}
    (h : ∀ i, (program i).Takes (nested i) (writes i) .free .free) :
    (start shared program).Sound nested writes fun _ => .free where
  takes := h
  readers _ := Multiset.count_zero _
  holding _ h := nomatch h
  waiting _ h := nomatch h

/-- What a step that advances thread `i` needs to keep the threads sound. -/
theorem Sound.advance {mode : I → Thread.Mode} (h : s.Sound nested writes mode) (readers : Multiset I)
    (writer : Writer I) (shared : S) {rest : Thread S R} {m : Thread.Mode}
    (htakes : rest.Takes (nested i) (writes i) .free m)
    (hself : readers.count i = held m) (hothers : ∀ j ≠ i, readers.count j = s.readers.count j)
    (hholding : ∀ j, writer = .holding j → (j = i ∧ m = .writing) ∨ (j ≠ i ∧ s.writer = .holding j))
    (hwaiting : ∀ j, writer = .waiting j → j ≠ i ∧ s.writer = .waiting j) :
    ({ s with readers, writer, shared }.advance i rest).Sound nested writes
      (Function.update mode i m) where
  takes j := by
    by_cases hj : j = i
    · subst hj
      simpa [Threads.advance] using htakes
    · simpa [Threads.advance, hj] using h.takes j
  readers j := by
    by_cases hj : j = i
    · subst hj
      simpa [Threads.advance] using hself
    · simpa [Threads.advance, hj] using (hothers j hj).trans (h.readers j)
  holding j hj := by
    rcases hholding j hj with ⟨rfl, hm⟩ | ⟨hne, hold⟩
    · simpa using hm
    · simpa [hne] using h.holding j hold
  waiting j hj := by
    obtain ⟨hne, hold⟩ := hwaiting j hj
    simpa [Threads.advance, hne] using h.waiting j hold

theorem Sound.next {mode : I → Thread.Mode} (h : s.Sound nested writes mode)
    (hnext : s.next i = some s') : ∃ mode', s'.Sound nested writes mode' := by
  have htakes := h.takes i
  have hcount := h.readers i
  -- a thread that takes a step other than `lock` is not the one that waits to write
  have hself {step : LockStep S} {rest : step.Answer → Thread S R}
      (hprogram : s.program i = .call step rest) (hstep : step ≠ .lock) (j : I)
      (hj : s.writer = .waiting j) : j ≠ i ∧ s.writer = .waiting j := by
    refine ⟨?_, hj⟩
    rintro rfl
    obtain ⟨rest', hlock⟩ := h.waiting j hj
    rw [hprogram] at hlock
    cases hlock
    exact hstep rfl
  cases hprogram : s.program i with
  | ret r =>
    simp only [Threads.next, hprogram] at hnext
    cases hnext
  | call step rest =>
    have hwaiting := hself hprogram
    rw [hprogram] at htakes
    cases step with
    | rLock =>
      simp only [Threads.next, hprogram] at hnext
      cases hwriter : s.writer with
      | none =>
        simp only [hwriter, Option.some.injEq] at hnext
        subst hnext
        have hrest : ∃ m, Thread.Takes (nested i) (writes i) .free m (rest ()) ∧
            (i ::ₘ s.readers).count i = held m := by
          rw [Multiset.count_cons_self, hcount]
          cases hmode : mode i with
          | free =>
            rw [hmode] at htakes
            exact ⟨_, htakes, rfl⟩
          | reading n =>
            rw [hmode] at htakes
            exact ⟨_, htakes.2, rfl⟩
          | writing =>
            rw [hmode] at htakes
            exact htakes.elim
        obtain ⟨m, hm, hheld⟩ := hrest
        have hsound := h.advance (i ::ₘ s.readers) .none s.shared hm hheld
          (fun j hj => Multiset.count_cons_of_ne hj _) (fun j hj => nomatch hj) (fun j hj => nomatch hj)
        exact ⟨_, hsound⟩
      | waiting j =>
        simp only [hwriter] at hnext
        cases hnext
      | holding j =>
        simp only [hwriter] at hnext
        cases hnext
    | rUnlock =>
      simp only [Threads.next, hprogram, Option.some.injEq] at hnext
      subst hnext
      have hrest : ∃ m, Thread.Takes (nested i) (writes i) .free m (rest ()) ∧
          (s.readers.erase i).count i = held m ∧ mode i ≠ .writing := by
        rw [Multiset.count_erase_self, hcount]
        cases hmode : mode i with
        | free =>
          rw [hmode] at htakes
          exact htakes.elim
        | reading n =>
          rw [hmode] at htakes
          cases n with
          | zero => exact ⟨.free, htakes, rfl, fun hno => nomatch hno⟩
          | succ n => exact ⟨.reading n, htakes, rfl, fun hno => nomatch hno⟩
        | writing =>
          rw [hmode] at htakes
          exact htakes.elim
      obtain ⟨m, hm, hheld, hnot⟩ := hrest
      have hsound := h.advance (s.readers.erase i) s.writer s.shared hm hheld
        (fun j hj => Multiset.count_erase_of_ne hj _)
        (fun j hj => .inr ⟨fun heq => hnot (heq ▸ h.holding j hj), hj⟩)
        (hwaiting fun hno => nomatch hno)
      exact ⟨_, hsound⟩
    | lock =>
      obtain ⟨hfree, -, hrest⟩ := htakes
      simp only [Threads.next, hprogram] at hnext
      cases hwriter : s.writer with
      | none =>
        simp only [hwriter, Option.some.injEq] at hnext
        subst hnext
        refine ⟨mode, h.takes, h.readers, (fun j hj => nomatch hj), fun j hj => ?_⟩
        cases hj
        exact ⟨rest, hprogram⟩
      | waiting j =>
        simp only [hwriter] at hnext
        split_ifs at hnext with hgrant
        obtain ⟨rfl, hempty⟩ := hgrant
        cases hnext
        have hzero : s.readers.count j = held .writing := by
          rw [hempty]
          exact Multiset.count_zero _
        have hsound := h.advance s.readers (.holding j) s.shared hrest hzero (fun _ _ => rfl)
          (fun k hk => by cases hk; exact .inl ⟨rfl, rfl⟩) (fun k hk => nomatch hk)
        exact ⟨_, hsound⟩
      | holding j =>
        simp only [hwriter] at hnext
        cases hnext
    | unlock =>
      obtain ⟨hmode, hrest⟩ := htakes
      simp only [Threads.next, hprogram, Option.some.injEq] at hnext
      subst hnext
      have hzero : s.readers.count i = held .free := by rw [hcount, hmode]; rfl
      have hsound := h.advance s.readers .none s.shared hrest hzero (fun _ _ => rfl)
        (fun j hj => nomatch hj) (fun j hj => nomatch hj)
      exact ⟨_, hsound⟩
    | access f =>
      simp only [Threads.next, hprogram, Option.some.injEq] at hnext
      subst hnext
      have hsound := h.advance s.readers s.writer (f s.shared) (htakes s.shared) hcount
        (fun _ _ => rfl)
        (fun j hj => (em (j = i)).imp (fun heq => ⟨heq, heq ▸ h.holding j hj⟩) fun hne => ⟨hne, hj⟩)
        (hwaiting fun hno => nomatch hno)
      exact ⟨_, hsound⟩

theorem sound_step (h : ∃ mode, s.Sound nested writes mode) (i : I) :
    ∃ mode, (machine.step s i).1.Sound nested writes mode := by
  obtain ⟨mode, hsound⟩ := h
  cases hnext : s.next i with
  | none =>
    have hstay : (machine.step s i).1 = s := by simp only [machine, hnext, Option.getD_none]
    rw [hstay]
    exact ⟨mode, hsound⟩
  | some s' =>
    have hmove : (machine.step s i).1 = s' := by simp only [machine, hnext, Option.getD_some]
    rw [hmove]
    exact hsound.next hnext

theorem Sound.not_finished {mode : I → Thread.Mode} (h : s.Sound nested writes mode)
    (hmode : mode i ≠ .free) : ¬ s.Finished i := by
  rintro ⟨r, hr⟩
  have htakes := h.takes i
  rw [hr] at htakes
  exact hmode htakes

theorem Sound.of_deadlocked {mode : I → Thread.Mode} (h : s.Sound nested writes mode)
    (hdead : s.Deadlocked) : (∃ i, nested i) ∧ ∃ i, writes i := by
  obtain ⟨⟨i, hi⟩, hblocked⟩ := hdead
  cases hwriter : s.writer with
  | none =>
    -- without a writer nobody waits
    have hnext := hblocked i hi
    cases hprogram : s.program i with
    | ret r => exact absurd ⟨r, hprogram⟩ hi
    | call step rest =>
      cases step <;> simp only [Threads.next, hprogram, hwriter] at hnext <;> cases hnext
  | holding j =>
    -- a writer that holds the lock does not wait
    have hmode := h.holding j hwriter
    have hnext := hblocked j (h.not_finished (by rw [hmode]; exact fun hno => nomatch hno))
    have htakes := h.takes j
    rw [hmode] at htakes
    cases hprogram : s.program j with
    | ret r =>
      rw [hprogram] at htakes
      cases htakes
    | call step rest =>
      rw [hprogram] at htakes
      cases step with
      | rLock => exact htakes.elim
      | lock => exact absurd htakes.1 fun hno => nomatch hno
      | rUnlock => exact htakes.elim
      | unlock =>
        simp only [Threads.next, hprogram] at hnext
        cases hnext
      | access f =>
        simp only [Threads.next, hprogram] at hnext
        cases hnext
  | waiting j =>
    -- the writer waits for a reader, which waits only to read again
    obtain ⟨rest, hprogram⟩ := h.waiting j hwriter
    have hj : ¬ s.Finished j := by
      rintro ⟨r, hr⟩
      rw [hprogram] at hr
      cases hr
    have hwrites := h.takes j
    rw [hprogram] at hwrites
    have hnext := hblocked j hj
    simp only [Threads.next, hprogram, hwriter, true_and] at hnext
    split_ifs at hnext with hempty
    obtain ⟨k, hk⟩ := Multiset.exists_mem_of_ne_zero hempty
    have hcount := h.readers k
    have hpos := Multiset.count_pos.mpr hk
    have hnested : nested k := by
      have htakes := h.takes k
      cases hmode : mode k with
      | free =>
        have hzero : held .free = 0 := rfl
        rw [hmode, hzero] at hcount
        omega
      | writing =>
        have hzero : held .writing = 0 := rfl
        rw [hmode, hzero] at hcount
        omega
      | reading n =>
        have hblock := hblocked k (h.not_finished (by rw [hmode]; exact fun hno => nomatch hno))
        rw [hmode] at htakes
        cases hprogram' : s.program k with
        | ret r =>
          rw [hprogram'] at htakes
          cases htakes
        | call step rest =>
          rw [hprogram'] at htakes
          cases step with
          | rLock => exact htakes.1
          | lock => exact absurd htakes.1 fun hno => nomatch hno
          | unlock => exact absurd htakes.1 fun hno => nomatch hno
          | rUnlock =>
            simp only [Threads.next, hprogram'] at hblock
            cases hblock
          | access f =>
            simp only [Threads.next, hprogram'] at hblock
            cases hblock
    exact ⟨⟨k, hnested⟩, j, hwrites.2.1⟩

/-- A run of threads that take the locks in turn reaches a deadlock only where one of them
reads while it reads and one of them writes. -/
theorem nested_of_deadlocked (shared : S) {program : I → Thread S R}
    (h : ∀ i, (program i).Takes (nested i) (writes i) .free .free) (run : List I)
    (hdead : (machine.run (start shared program) run).1.Deadlocked) :
    (∃ i, nested i) ∧ ∃ i, writes i := by
  have hinv := @Machine.invariant_run _ _ _ (machine (S := S) (I := I) (R := R))
    (fun s => ∃ mode, s.Sound nested writes mode) (fun s i h => sound_step h i) _
    ⟨_, sound_start shared h⟩ run
  obtain ⟨mode, hsound⟩ := hinv
  exact hsound.of_deadlocked hdead

end

/-- Threads that only have one access to make, without the lock, can all make it. -/
theorem run_unlocked {l : List I} {s : Threads S I R}
    (h : ∀ i ∈ l, s.Finished i ∨ ∃ update, s.program i = Thread.unlocked update) :
    let s' := (machine.run s l).1
    s'.writer = s.writer ∧ (∀ i ∈ l, s'.Finished i) ∧
      ∀ i, (i ∉ l ∨ s.Finished i) → s'.program i = s.program i := by
  induction l generalizing s with
  | nil => exact ⟨rfl, fun i hi => absurd hi List.not_mem_nil, fun _ _ => rfl⟩
  | cons i l ih =>
    let s₁ := (machine.step s i).1
    have hstep : s₁.writer = s.writer ∧ s₁.Finished i ∧
        ∀ j, (j ≠ i ∨ s.Finished j) → s₁.program j = s.program j := by
      rcases h i (List.mem_cons_self ..) with ⟨r, hr⟩ | ⟨update, hprogram⟩
      · have hnone : s.next i = none := by simp only [next, hr]
        have hstay : s₁ = s := by simp only [s₁, machine, hnone, Option.getD_none]
        rw [hstay]
        exact ⟨rfl, ⟨r, hr⟩, fun _ _ => rfl⟩
      · have hnext : s.next i = some ({ s with shared := (update s.shared).1 }.advance i
            (.ret (update s.shared).2)) := by
          simp only [next, hprogram, Thread.unlocked]
          rfl
        have hmove : s₁ = { s with shared := (update s.shared).1 }.advance i
            (.ret (update s.shared).2) := by
          simp only [s₁, machine, hnext, Option.getD_some]
        rw [hmove]
        refine ⟨rfl, ⟨(update s.shared).2, by simp [advance]⟩, fun j hj => ?_⟩
        have hne : j ≠ i := by
          rcases hj with hne | ⟨r, hr⟩
          · exact hne
          · rintro rfl
            rw [hprogram] at hr
            cases hr
        simp [advance, hne]
    obtain ⟨hwriter, hdone, hothers⟩ := hstep
    have hrest : ∀ j ∈ l, s₁.Finished j ∨ ∃ update, s₁.program j = Thread.unlocked update := by
      intro j hj
      by_cases hij : j = i
      · exact .inl (hij ▸ hdone)
      · have hsame := hothers j (.inl hij)
        refine (h j (List.mem_cons_of_mem i hj)).imp ?_ ?_
        · exact fun ⟨r, hr⟩ => ⟨r, hsame.trans hr⟩
        · exact fun ⟨update, hupdate⟩ => ⟨update, hsame.trans hupdate⟩
    obtain ⟨hwriter', hdone', hothers'⟩ := ih hrest
    refine ⟨hwriter'.trans hwriter, fun j hj => ?_, fun j hj => ?_⟩
    · rcases List.mem_cons.mp hj with rfl | hj
      · obtain ⟨r, hr⟩ := hdone
        exact ⟨r, (hothers' j (.inr ⟨r, hr⟩)).trans hr⟩
      · exact hdone' j hj
    · have hfirst : s₁.program j = s.program j := hothers j (hj.imp_left fun hnot heq =>
        hnot (heq ▸ List.mem_cons_self ..))
      refine (hothers' j (hj.imp (fun hnot hmem => hnot (List.mem_cons_of_mem i hmem)) ?_)).trans hfirst
      exact fun ⟨r, hr⟩ => ⟨r, hfirst.trans hr⟩

/-! ### A deadlock of two threads -/

/-- The thread has finished or begins by taking the lock. -/
def AtLock : Thread S R → Prop
  | .ret _ => True
  | .call .rLock _ => True
  | .call .lock _ => True
  | _ => False

/-- A reader that reads again, after a writer has announced itself in between. -/
theorem deadlocked_of_nested {s : Threads S I R} (hwriter : s.writer = .none)
    (hat : ∀ i, AtLock (s.program i)) {i j : I} {rest again : Unit → Thread S R}
    (hi : s.program i = .call .rLock rest) (hagain : rest () = .call .rLock again)
    {write : Unit → Thread S R} (hj : s.program j = .call .lock write) :
    (machine.run s [i, j]).1.Deadlocked := by
  have hij : j ≠ i := by
    rintro rfl
    rw [hi] at hj
    cases hj
  let reading : Threads S I R :=
    { s with readers := i ::ₘ s.readers, writer := .none }.advance i (rest ())
  have hread : s.next i = some reading := by simp only [next, hi, hwriter, reading]
  have hprogram : reading.program j = .call .lock write := by
    simpa [reading, advance, hij] using hj
  have hannounce : reading.next j = some { reading with writer := .waiting j } := by
    have hnone : reading.writer = .none := rfl
    simp only [next, hprogram, hnone]
  have hrun : (machine.run s [i, j]).1 = { reading with writer := .waiting j } := by
    simp only [Machine.run, machine, hread, Option.getD_some, hannounce]
  rw [hrun]
  have hat' (k : I) : AtLock (reading.program k) := by
    by_cases hk : k = i
    · subst hk
      simp [reading, advance, hagain, AtLock]
    · simpa [reading, advance, hk] using hat k
  have hsome : reading.readers ≠ 0 := Multiset.cons_ne_zero
  refine ⟨⟨j, ?_⟩, fun k hk => ?_⟩
  · rintro ⟨r, hr⟩
    rw [show ({ reading with writer := .waiting j } : Threads S I R).program j = _ from hprogram] at hr
    cases hr
  · have hatk := hat' k
    unfold next
    cases hprogram' : reading.program k with
    | ret r => exact absurd ⟨r, hprogram'⟩ hk
    | call step rest =>
      rw [hprogram'] at hatk
      cases step with
      | rLock => rfl
      | lock => simp only [hsome, and_false, ite_false]
      | rUnlock => exact hatk.elim
      | unlock => exact hatk.elim
      | access f => exact hatk.elim

end Threads

end GoLib
