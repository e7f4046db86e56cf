import Mathlib.Data.Int.Basic
import Mathlib.Data.List.Basic
import Mathlib.Tactic.SplitIfs

/-!
# Buffered channels

A channel has a buffer of fixed capacity, receivers that wait on it while it is
empty, and a closed flag. `sent` is everything the channel ever accepted, in
order: what receivers have taken and what is still buffered. A closed channel
panics when it is sent on or closed.
-/

namespace GoLib

/-- `received` is what receivers have taken, oldest first. -/
structure Chan (A : Type) where
  capacity : ℕ
  buffer : List A
  waiting : ℕ
  closed : Bool
  received : List A
  fits : buffer.length ≤ capacity
  idle : waiting = 0 ∨ buffer = []
  deriving DecidableEq

namespace Chan

variable {A : Type}

/-- `make(chan A, size)`, which panics on a negative size. -/
def make (size : ℤ) : Option (Chan A) :=
  if 0 ≤ size then
    some ⟨size.toNat, [], 0, false, [], Nat.zero_le _, Or.inl rfl⟩
  else none

def sent (c : Chan A) : List A := c.received ++ c.buffer

/-- A send would not block. -/
def hasRoom (c : Chan A) : Bool := 0 < c.waiting || c.buffer.length < c.capacity

/-- A send in a `select` with a default branch: whether the value was accepted,
or the panic of a closed channel. -/
def trySend (c : Chan A) (a : A) : Option (Chan A × Bool) :=
  if c.closed then none
  else if h : 0 < c.waiting then
    some ({ c with
      waiting := c.waiting - 1
      received := c.received ++ [a]
      idle := Or.inr (c.idle.resolve_left (Nat.pos_iff_ne_zero.mp h)) }, true)
  else if hroom : c.buffer.length < c.capacity then
    some ({ c with
      buffer := c.buffer ++ [a]
      fits := by
        rw [List.length_append]
        exact hroom
      idle := Or.inl (Nat.eq_zero_of_not_pos h) }, true)
  else some (c, false)

/-- `close(c)`: waiting receivers are released. -/
def close (c : Chan A) : Option (Chan A) :=
  if c.closed then none
  else some { c with waiting := 0, closed := true, idle := Or.inl rfl }

/-- One receive: the oldest value, or nothing from a closed channel, or a wait. -/
def receive (c : Chan A) : Chan A :=
  match h : c.buffer with
  | a :: rest =>
    { c with
      buffer := rest
      received := c.received ++ [a]
      fits := by
        have := c.fits
        simp only [h, List.length_cons] at this
        omega
      idle := Or.inl (c.idle.resolve_right (by simp [h])) }
  | [] =>
    if c.closed then c
    else { c with waiting := c.waiting + 1, buffer := [], fits := Nat.zero_le _, idle := Or.inr rfl }

variable {c c' : Chan A}

theorem make_sent {size : ℤ} (h : make size = some c) : c.sent = [] ∧ c.closed = false := by
  rw [make] at h
  split_ifs at h
  cases h
  exact ⟨rfl, rfl⟩

/-- A send on an open channel succeeds iff there is room. -/
theorem trySend_spec (hopen : c.closed = false) (a : A) :
    ∃ c', c.trySend a = some (c', c.hasRoom) ∧ c'.closed = false ∧
      c'.sent = if c.hasRoom then c.sent ++ [a] else c.sent := by
  rw [trySend, if_neg (by simp [hopen])]
  by_cases h : 0 < c.waiting
  · have hroom : c.hasRoom = true := by simp [hasRoom, h]
    have hempty : c.buffer = [] := c.idle.resolve_left (Nat.pos_iff_ne_zero.mp h)
    rw [dif_pos h, hroom]
    exact ⟨_, rfl, hopen, by simp [sent, hempty]⟩
  · rw [dif_neg h]
    by_cases hlen : c.buffer.length < c.capacity
    · have hroom : c.hasRoom = true := by simp [hasRoom, hlen]
      rw [dif_pos hlen, hroom]
      exact ⟨_, rfl, hopen, by simp [sent]⟩
    · have hroom : c.hasRoom = false := by simp [hasRoom, h, hlen]
      rw [dif_neg hlen, hroom]
      exact ⟨c, rfl, hopen, rfl⟩

theorem trySend_eq_none_iff {a : A} : c.trySend a = none ↔ c.closed = true := by
  rw [trySend]
  split_ifs with hclosed
  · exact iff_of_true rfl hclosed
  · exact iff_of_false (fun h => nomatch h) hclosed
  · exact iff_of_false (fun h => nomatch h) hclosed
  · exact iff_of_false (fun h => nomatch h) hclosed

theorem trySend_of_idle {a : A} {accepted : Bool} (hidle : c.waiting = 0)
    (h : c.trySend a = some (c', accepted)) :
    c.closed = false ∧ c'.closed = false ∧ c'.waiting = 0 ∧ c'.received = c.received ∧
      c'.buffer = if accepted then c.buffer ++ [a] else c.buffer := by
  rw [trySend] at h
  have hnone : ¬ 0 < c.waiting := by omega
  split_ifs at h with hclosed hroom
  · have hopen : c.closed = false := by simpa using hclosed
    cases h
    exact ⟨hopen, hopen, hidle, rfl, rfl⟩
  · have hopen : c.closed = false := by simpa using hclosed
    cases h
    exact ⟨hopen, hopen, hidle, rfl, rfl⟩

theorem receive_of_cons {a : A} {rest : List A} (h : c.buffer = a :: rest) :
    c.receive.received = c.received ++ [a] ∧ c.receive.buffer = rest ∧
      c.receive.waiting = c.waiting := by
  rw [receive]
  split
  · next a' rest' h' =>
    rw [h] at h'
    cases h'
    exact ⟨rfl, rfl, rfl⟩
  · next h' =>
    rw [h] at h'
    cases h'

theorem close_spec (hopen : c.closed = false) :
    ∃ c', c.close = some c' ∧ c'.closed = true ∧ c'.sent = c.sent := by
  rw [close, if_neg (by simp [hopen])]
  exact ⟨_, rfl, rfl, rfl⟩

@[simp] theorem receive_sent (c : Chan A) : c.receive.sent = c.sent := by
  rw [receive]
  split
  · next a rest h => simp [sent, h]
  · next h =>
    split_ifs
    · rfl
    · simp [sent, h]

@[simp] theorem receive_closed (c : Chan A) : c.receive.closed = c.closed := by
  rw [receive]
  split
  · rfl
  · split_ifs
    · rfl
    · rfl

end Chan

end GoLib
