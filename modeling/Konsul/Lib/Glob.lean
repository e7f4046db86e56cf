import Konsul.Lib.Path

/-!
# Globs

A glob is a list of items: a literal, or a run of any number of letters of a kind. The
leftmost place of a literal text behind a run loses no match, when what follows the text
is a run of the same kind.
-/

namespace GoLib

namespace Glob

inductive Item (α : Type*) where
  | lit (a : α)
  | run (ok : α → Bool)

variable {α : Type*}

/-- Some number of letters of a kind, and then `next`. -/
def skip (ok : α → Bool) (next : List α → Bool) : List α → Bool
  | [] => next []
  | a :: k => next (a :: k) || (ok a && skip ok next k)

def accepts [DecidableEq α] : List (Item α) → List α → Bool
  | [] => List.isEmpty
  | .lit a :: is => fun
    | [] => false
    | b :: k => decide (a = b) && accepts is k
  | .run ok :: is => skip ok (accepts is)

/-- The text of a glob whose runs are left out. -/
def literals : List (Item α) → List α
  | [] => []
  | .lit a :: is => a :: literals is
  | .run _ :: is => literals is

theorem skip_iff (ok : α → Bool) (next : List α → Bool) (k : List α) :
    skip ok next k ↔ ∃ u v, k = u ++ v ∧ (∀ a ∈ u, ok a) ∧ next v := by
  induction k with
  | nil =>
    constructor
    · intro h
      exact ⟨[], [], rfl, fun a ha => absurd ha List.not_mem_nil, h⟩
    · rintro ⟨u, v, huv, -, hv⟩
      obtain ⟨rfl, rfl⟩ := List.append_eq_nil_iff.mp huv.symm
      exact hv
  | cons a k ih =>
    rw [skip, Bool.or_eq_true, Bool.and_eq_true, ih]
    constructor
    · rintro (h | ⟨ha, u, v, rfl, hu, hv⟩)
      · exact ⟨[], a :: k, rfl, fun b hb => absurd hb List.not_mem_nil, h⟩
      · exact ⟨a :: u, v, rfl, List.forall_mem_cons.mpr ⟨ha, hu⟩, hv⟩
    · rintro ⟨u, v, huv, hu, hv⟩
      cases u with
      | nil => exact .inl (huv ▸ hv)
      | cons b u =>
        obtain ⟨rfl, rfl⟩ := List.cons.inj huv
        rw [List.forall_mem_cons] at hu
        exact .inr ⟨hu.1, u, v, rfl, hu.2, hv⟩

section

variable [DecidableEq α]

theorem accepts_nil_iff (k : List α) : accepts [] k ↔ k = [] := List.isEmpty_iff

theorem accepts_run_iff (ok : α → Bool) (is : List (Item α)) (k : List α) :
    accepts (.run ok :: is) k ↔ ∃ u v, k = u ++ v ∧ (∀ a ∈ u, ok a) ∧ accepts is v :=
  skip_iff ok (accepts is) k

theorem accepts_lit_iff (a : α) (is : List (Item α)) (k : List α) :
    accepts (.lit a :: is) k ↔ ∃ v, k = a :: v ∧ accepts is v := by
  cases k with
  | nil => exact iff_of_false Bool.false_ne_true fun ⟨v, h, _⟩ => nomatch h
  | cons b k =>
    rw [accepts, Bool.and_eq_true, decide_eq_true_iff]
    constructor
    · rintro ⟨rfl, h⟩
      exact ⟨k, rfl, h⟩
    · rintro ⟨v, heq, h⟩
      obtain ⟨rfl, rfl⟩ := List.cons.inj heq
      exact ⟨rfl, h⟩

theorem accepts_lits_iff (w : List α) (is : List (Item α)) (k : List α) :
    accepts (w.map .lit ++ is) k ↔ ∃ v, k = w ++ v ∧ accepts is v := by
  induction w generalizing k with
  | nil =>
    constructor
    · intro h
      exact ⟨k, rfl, h⟩
    · rintro ⟨v, rfl, h⟩
      exact h
  | cons a w ih =>
    rw [List.map_cons, List.cons_append, accepts_lit_iff]
    constructor
    · rintro ⟨v, rfl, h⟩
      obtain ⟨v', hv, hrest⟩ := (ih v).mp h
      exact ⟨v', congrArg (a :: ·) hv, hrest⟩
    · rintro ⟨v, rfl, h⟩
      exact ⟨w ++ v, rfl, (ih _).mpr ⟨v, rfl, h⟩⟩

/-- The runs may all be empty. -/
theorem accepts_literals (is : List (Item α)) : accepts is (literals is) := by
  induction is with
  | nil => rfl
  | cons i is ih =>
    cases i with
    | lit a => exact (accepts_lit_iff a is _).mpr ⟨_, rfl, ih⟩
    | run ok => exact (accepts_run_iff ok is _).mpr ⟨[], _, rfl, by simp, ih⟩

/-- The literals stand in what is accepted, in order. -/
theorem literals_sublist {is : List (Item α)} {k : List α} (h : accepts is k) :
    (literals is).Sublist k := by
  induction is generalizing k with
  | nil => exact List.nil_sublist k
  | cons i is ih =>
    cases i with
    | lit a =>
      obtain ⟨v, rfl, hv⟩ := (accepts_lit_iff a is k).mp h
      exact (ih hv).cons_cons a
    | run ok =>
      obtain ⟨u, v, rfl, -, hv⟩ := (accepts_run_iff ok is k).mp h
      exact (ih hv).trans (List.sublist_append_right u v)

end

/-- A text that overlaps its own shift is made of the letters it is shifted by. -/
theorem mem_of_shift {w v v' d : List α} (h : w ++ v = d ++ (w ++ v')) (hd : d ≠ []) :
    ∀ a ∈ w, a ∈ d := by
  have hpos : 0 < d.length := List.length_pos_of_ne_nil hd
  have hall : ∀ n (hn : n < w.length), w[n] ∈ d := by
    intro n
    induction n using Nat.strong_induction_on with
    | _ n ih =>
      intro hn
      have hleft : (w ++ v)[n]? = some w[n] := by
        rw [List.getElem?_append_left hn, List.getElem?_eq_getElem hn]
      rw [h] at hleft
      by_cases hlt : n < d.length
      · rw [List.getElem?_append_left hlt] at hleft
        exact List.mem_of_getElem? hleft
      · rw [List.getElem?_append_right (by omega),
          List.getElem?_append_left (by omega : n - d.length < w.length),
          List.getElem?_eq_getElem (by omega), Option.some_inj] at hleft
        rw [← hleft]
        exact ih (n - d.length) (by omega) (by omega)
  intro a ha
  obtain ⟨n, hn, rfl⟩ := List.mem_iff_getElem.mp ha
  exact hall n hn

/-- What is left behind the first place of a text and behind a later one differ by letters
of the kind that is skipped between them. -/
theorem rest_of_later {ok : α → Bool} {u u' c v v' : List α}
    (h : u ++ (c ++ v) = u' ++ (c ++ v')) (hlen : u.length ≤ u'.length) (hok : ∀ a ∈ u', ok a) :
    ∃ z, v = z ++ v' ∧ ∀ a ∈ z, ok a := by
  obtain ⟨d, rfl⟩ : ∃ d, u' = u ++ d := by
    have hpre : u <+: u' :=
      List.prefix_of_prefix_length_le (List.prefix_append u (c ++ v))
        (h ▸ List.prefix_append u' (c ++ v')) hlen
    obtain ⟨d, hd⟩ := hpre
    exact ⟨d, hd.symm⟩
  rw [List.append_assoc, List.append_cancel_left_eq] at h
  by_cases hd : d = []
  · rw [hd, List.nil_append, List.append_cancel_left_eq] at h
    exact ⟨[], h, fun a ha => absurd ha List.not_mem_nil⟩
  · have hmem := mem_of_shift h hd
    rw [← List.append_assoc] at h
    have hpre : c <+: d ++ c :=
      List.prefix_of_prefix_length_le (List.prefix_append c v)
        (h ▸ List.prefix_append (d ++ c) v') (by rw [List.length_append]; omega)
    obtain ⟨z, hz⟩ := hpre
    refine ⟨z, ?_, fun a ha => hok a (List.mem_append_right u ?_)⟩
    · rw [← hz, List.append_assoc, List.append_cancel_left_eq] at h
      exact h
    · have hdc : a ∈ d ++ c := hz ▸ List.mem_append_right c ha
      rcases List.mem_append.mp hdc with hin | hin
      · exact hin
      · exact hmem a hin

/-- A run takes in more letters of its kind. -/
theorem accepts_run_append [DecidableEq α] {ok : α → Bool} {is : List (Item α)} {z k : List α}
    (hz : ∀ a ∈ z, ok a) (h : accepts (.run ok :: is) k) : accepts (.run ok :: is) (z ++ k) := by
  obtain ⟨u, v, rfl, hu, hv⟩ := (accepts_run_iff ok is k).mp h
  refine (accepts_run_iff ok is _).mpr ⟨z ++ u, v, (List.append_assoc z u v).symm, ?_, hv⟩
  intro a ha
  rcases List.mem_append.mp ha with ha | ha
  · exact hz a ha
  · exact hu a ha

/-! ### Written globs -/

/-- The bytes of one element of a path. -/
def inElement (b : UInt8) : Bool := b ≠ Path.slash

def anyByte (_ : UInt8) : Bool := true

/-- `**` stands for any text, `*` for a text without slashes, and every other byte for
itself. -/
def path : Bytes → List (Item UInt8)
  | [] => []
  | [b] => if b = Path.star then [.run inElement] else [.lit b]
  | b :: c :: p =>
    if b = Path.star then
      if c = Path.star then .run anyByte :: path p else .run inElement :: path (c :: p)
    else .lit b :: path (c :: p)

/-- `*` stands for any text. -/
def name (p : Bytes) : List (Item UInt8) :=
  p.map fun b => if b = Path.star then .run anyByte else .lit b

end Glob

end GoLib
