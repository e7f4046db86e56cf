import Mathlib.Data.List.Basic
import Mathlib.Logic.Basic

/-!
# Deterministic machines, their runs, and machines with a choice

A `Machine` consumes one input per step and answers it. A run is a list of
inputs; the rules below lift a fact about one step to every run: an invariant,
a simulation between two machines, and both again for runs whose every step
meets a condition on the state it starts from (`Along`).

A `Chooser` is a machine whose step also consumes a choice the environment
makes. `agree_prefix_iff` says when no choice can be observed.
-/

namespace GoLib

/-- A state machine: one input, one next state, one answer. -/
structure Machine (S I O : Type*) where
  step : S → I → S × O

namespace Machine

variable {S I O : Type*} (M : Machine S I O)

/-- The state a run ends in, and the answers in order. -/
def run : S → List I → S × List O
  | s, [] => (s, [])
  | s, i :: is =>
    let r := M.step s i
    let q := run r.1 is
    (q.1, r.2 :: q.2)

@[simp] theorem run_nil (s : S) : M.run s [] = (s, []) := rfl

@[simp] theorem run_cons (s : S) (i : I) (is : List I) :
    M.run s (i :: is) =
      ((M.run (M.step s i).1 is).1, (M.step s i).2 :: (M.run (M.step s i).1 is).2) := rfl

theorem run_append (s : S) (is js : List I) :
    M.run s (is ++ js) =
      ((M.run (M.run s is).1 js).1, (M.run s is).2 ++ (M.run (M.run s is).1 js).2) := by
  induction is generalizing s with
  | nil => rfl
  | cons i is ih => simp only [List.cons_append, run_cons, ih]

theorem run_snoc (s : S) (is : List I) (i : I) :
    M.run s (is ++ [i]) =
      ((M.step (M.run s is).1 i).1, (M.run s is).2 ++ [(M.step (M.run s is).1 i).2]) := by
  rw [run_append]
  rfl

theorem length_answers (s : S) (is : List I) : (M.run s is).2.length = is.length := by
  induction is generalizing s with
  | nil => rfl
  | cons i is ih => simp only [run_cons, List.length_cons, ih]

/-- The states a run passes through satisfy `P` with the input consumed there. -/
def Along (P : S → I → Prop) : S → List I → Prop
  | _, [] => True
  | s, i :: is => P s i ∧ Along P (M.step s i).1 is

@[simp] theorem along_nil (P : S → I → Prop) (s : S) : M.Along P s [] := trivial

@[simp] theorem along_cons (P : S → I → Prop) (s : S) (i : I) (is : List I) :
    M.Along P s (i :: is) ↔ P s i ∧ M.Along P (M.step s i).1 is := Iff.rfl

theorem along_append (P : S → I → Prop) (s : S) (is js : List I) :
    M.Along P s (is ++ js) ↔ M.Along P s is ∧ M.Along P (M.run s is).1 js := by
  induction is generalizing s with
  | nil => simp
  | cons i is ih => simp only [List.cons_append, along_cons, ih, run_cons, and_assoc]

/-- The state before a step in the middle of a run, and the run after it. -/
theorem run_middle (s : S) (before after : List I) (i : I) :
    (M.run s (before ++ i :: after)).1 =
      (M.run (M.step (M.run s before).1 i).1 after).1 := by
  rw [run_append, run_cons]

theorem along_middle (P : S → I → Prop) (s : S) (before after : List I) (i : I) :
    M.Along P s (before ++ i :: after) ↔ M.Along P s before ∧ P (M.run s before).1 i ∧
      M.Along P (M.step (M.run s before).1 i).1 after := by
  rw [along_append, along_cons]

theorem Along.mono {P Q : S → I → Prop} (hPQ : ∀ s i, P s i → Q s i) {s : S} {is : List I}
    (h : M.Along P s is) : M.Along Q s is := by
  induction is generalizing s with
  | nil => trivial
  | cons i is ih => exact ⟨hPQ s i h.1, ih h.2⟩

theorem Along.and {P Q : S → I → Prop} {s : S} {is : List I} (hP : M.Along P s is)
    (hQ : M.Along Q s is) : M.Along (fun s i => P s i ∧ Q s i) s is := by
  induction is generalizing s with
  | nil => trivial
  | cons i is ih => exact ⟨⟨hP.1, hQ.1⟩, ih hP.2 hQ.2⟩

theorem along_of_forall {P : I → Prop} (s : S) {is : List I} (h : ∀ i ∈ is, P i) :
    M.Along (fun _ i => P i) s is := by
  induction is generalizing s with
  | nil => trivial
  | cons i is ih =>
    exact ⟨h i (List.mem_cons_self ..), ih _ fun j hj => h j (List.mem_cons_of_mem _ hj)⟩

/-- Invariant rule: what every admissible step preserves holds after the run. -/
theorem invariant {P : S → I → Prop} {Inv : S → Prop}
    (hstep : ∀ s i, Inv s → P s i → Inv (M.step s i).1) {s : S} {is : List I}
    (hs : Inv s) (h : M.Along P s is) : Inv (M.run s is).1 := by
  induction is generalizing s with
  | nil => exact hs
  | cons i is ih => exact ih (hstep s i hs h.1) h.2

/-- Invariant rule without a condition on the steps. -/
theorem invariant_run {Inv : S → Prop} (hstep : ∀ s i, Inv s → Inv (M.step s i).1)
    {s : S} (hs : Inv s) (is : List I) : Inv (M.run s is).1 := by
  induction is generalizing s with
  | nil => exact hs
  | cons i is ih => exact ih (hstep s i hs)

/-- Where an invariant and one condition give another, the other holds along the same runs. -/
theorem along_of_invariant {P Q : S → I → Prop} {Inv : S → Prop}
    (hstep : ∀ s i, Inv s → P s i → Inv (M.step s i).1) (hPQ : ∀ s i, Inv s → P s i → Q s i)
    {s : S} {is : List I} (hs : Inv s) (h : M.Along P s is) : M.Along Q s is := by
  induction is generalizing s with
  | nil => trivial
  | cons i is ih => exact ⟨hPQ s i hs h.1, ih (hstep s i hs h.1) h.2⟩

/-- Two conditions that an invariant makes equivalent hold along the same runs. -/
theorem along_congr {P Q : S → I → Prop} {Inv : S → Prop}
    (hstep : ∀ s i, Inv s → Inv (M.step s i).1) (hPQ : ∀ s i, Inv s → (P s i ↔ Q s i)) {s : S}
    (hs : Inv s) (is : List I) : M.Along P s is ↔ M.Along Q s is := by
  induction is generalizing s with
  | nil => exact Iff.rfl
  | cons i is ih => exact and_congr (hPQ s i hs) (ih (hstep s i hs))

/-- Exact invariant rule: where `P` is just what a step needs to keep `Inv`, every state
a run passes through is as `Inv` says iff every step it takes meets `P`. -/
theorem forall_take_iff_along {P : S → I → Prop} {Aux Inv : S → Prop}
    (haux : ∀ s i, Aux s → Aux (M.step s i).1)
    (hstep : ∀ s i, Aux s → Inv s → (Inv (M.step s i).1 ↔ P s i)) {s : S} (hs : Aux s)
    (hinv : Inv s) (is : List I) : (∀ n, Inv (M.run s (is.take n)).1) ↔ M.Along P s is := by
  induction is generalizing s with
  | nil => exact ⟨fun _ => trivial, fun _ n => by rw [List.take_nil]; exact hinv⟩
  | cons i is ih =>
    constructor
    · intro hall
      have hnext : Inv (M.step s i).1 := hall 1
      exact ⟨(hstep s i hs hinv).mp hnext,
        (ih (haux s i hs) hnext).mp fun n => hall (n + 1)⟩
    · rintro ⟨hP, halong⟩ n
      have hnext : Inv (M.step s i).1 := (hstep s i hs hinv).mpr hP
      cases n with
      | zero => exact hinv
      | succ n => exact (ih (haux s i hs) hnext).mpr halong n

/-- The same for runs whose steps also meet a condition of their own. -/
theorem along_and_forall_take_iff {A P : S → I → Prop} {Aux Inv : S → Prop}
    (haux : ∀ s i, Aux s → Aux (M.step s i).1)
    (hstep : ∀ s i, Aux s → Inv s → (A s i ∧ Inv (M.step s i).1 ↔ P s i)) {s : S} (hs : Aux s)
    (hinv : Inv s) (is : List I) :
    (M.Along A s is ∧ ∀ n, Inv (M.run s (is.take n)).1) ↔ M.Along P s is := by
  induction is generalizing s with
  | nil => exact ⟨fun _ => trivial, fun _ => ⟨trivial, fun n => by rw [List.take_nil]; exact hinv⟩⟩
  | cons i is ih =>
    constructor
    · rintro ⟨hA, hall⟩
      have hnext : Inv (M.step s i).1 := hall 1
      exact ⟨(hstep s i hs hinv).mp ⟨hA.1, hnext⟩,
        (ih (haux s i hs) hnext).mp ⟨hA.2, fun n => hall (n + 1)⟩⟩
    · rintro ⟨hP, halong⟩
      obtain ⟨hA, hnext⟩ := (hstep s i hs hinv).mpr hP
      obtain ⟨hrest, hall⟩ := (ih (haux s i hs) hnext).mpr halong
      refine ⟨⟨hA, hrest⟩, fun n => ?_⟩
      cases n with
      | zero => exact hinv
      | succ n => exact hall n

/-- Invariant rule for answers: what every admissible step says is so of every answer. -/
theorem forall_answers {P : S → I → Prop} {Inv : S → Prop} {Q : O → Prop}
    (hstep : ∀ s i, Inv s → P s i → Inv (M.step s i).1 ∧ Q (M.step s i).2) {s : S} {is : List I}
    (hs : Inv s) (h : M.Along P s is) : ∀ o ∈ (M.run s is).2, Q o := by
  induction is generalizing s with
  | nil => exact fun o ho => absurd ho List.not_mem_nil
  | cons i is ih =>
    obtain ⟨hinv, hq⟩ := hstep s i hs h.1
    intro o ho
    rcases List.mem_cons.mp ho with rfl | ho
    · exact hq
    · exact ih hinv h.2 o ho

/-- Exact rule for answers: where `P` is just what a step needs to answer as `Q` says,
every answer of a run is so iff every step meets `P`. -/
theorem forall_answers_iff {A P : S → I → Prop} {Q : O → Prop}
    (hstep : ∀ s i, A s i → (Q (M.step s i).2 ↔ P s i)) {s : S} {is : List I}
    (h : M.Along A s is) : (∀ o ∈ (M.run s is).2, Q o) ↔ M.Along P s is := by
  induction is generalizing s with
  | nil => exact iff_of_true (fun o ho => absurd ho List.not_mem_nil) trivial
  | cons i is ih =>
    have hrest := ih h.2
    rw [run_cons, along_cons, ← hstep s i h.1, ← hrest]
    exact List.forall_mem_cons

/-- What the steps of a run cost together. -/
def total (cost : S → I → ℕ) : S → List I → ℕ
  | _, [] => 0
  | s, i :: is => cost s i + total cost (M.step s i).1 is

/-- A run that costs less than there is room for has room at each of its steps. -/
theorem along_of_total {cost : S → I → ℕ} {used : S → ℕ} {room : ℕ}
    (hstep : ∀ s i, used s + cost s i < room → used (M.step s i).1 ≤ used s + cost s i)
    {s : S} {is : List I} (h : used s + M.total cost s is < room) :
    M.Along (fun s i => used s + cost s i < room) s is := by
  induction is generalizing s with
  | nil => trivial
  | cons i is ih =>
    rw [total] at h
    have hhead : used s + cost s i < room := by omega
    have hnext := hstep s i hhead
    exact ⟨hhead, ih (by omega)⟩

/-- Invariant rule with two counts of what the run has cost so far. -/
theorem invariant_totals {P : S → I → Prop} {cost cost' : S → I → ℕ} {Inv : ℕ → ℕ → S → Prop}
    (hstep : ∀ n n' s i, Inv n n' s → P s i →
      Inv (n + cost s i) (n' + cost' s i) (M.step s i).1) {n n' : ℕ} {s : S} {is : List I}
    (hs : Inv n n' s) (h : M.Along P s is) :
    Inv (n + M.total cost s is) (n' + M.total cost' s is) (M.run s is).1 := by
  induction is generalizing s n n' with
  | nil => exact hs
  | cons i is ih =>
    have hrest := ih (hstep n n' s i hs h.1) h.2
    rw [total, total, ← Nat.add_assoc, ← Nat.add_assoc]
    exact hrest

/-- A machine seen through maps of its states, inputs and answers. -/
theorem run_map {S' I' O' : Type*} (M' : Machine S' I' O') (view : S → S') (input : I → I')
    (answer : O → O')
    (hstep : ∀ s i, M'.step (view s) (input i) = (view (M.step s i).1, answer (M.step s i).2))
    (s : S) (is : List I) :
    M'.run (view s) (is.map input) = (view (M.run s is).1, (M.run s is).2.map answer) := by
  induction is generalizing s with
  | nil => rfl
  | cons i is ih => simp only [List.map_cons, run_cons, hstep, ih]

theorem along_map {S' I' O' : Type*} (M' : Machine S' I' O') (view : S → S') (input : I → I')
    (hstep : ∀ s i, (M'.step (view s) (input i)).1 = view (M.step s i).1) (P : S' → I' → Prop)
    (s : S) (is : List I) :
    M'.Along P (view s) (is.map input) ↔ M.Along (fun s i => P (view s) (input i)) s is := by
  induction is generalizing s with
  | nil => exact Iff.rfl
  | cons i is ih => rw [List.map_cons, along_cons, along_cons, hstep, ih]

/-- Two machines side by side on the same inputs. -/
def pair {S' O' : Type*} (M' : Machine S' I O') : Machine (S × S') I (O × O') where
  step s i := (((M.step s.1 i).1, (M'.step s.2 i).1), (M.step s.1 i).2, (M'.step s.2 i).2)

/-- Simulation rule: related states take an admissible step to related states, with answers
as `Same` says, and so does a run. -/
theorem simulation {S' O' : Type*} {M' : Machine S' I O'} {P : S × S' → I → Prop}
    {R : S → S' → Prop} {Same : O → O' → Prop}
    (hstep : ∀ s s' i, R s s' → P (s, s') i →
      R (M.step s i).1 (M'.step s' i).1 ∧ Same (M.step s i).2 (M'.step s' i).2)
    {s : S} {s' : S'} {is : List I} (hs : R s s') (h : (M.pair M').Along P (s, s') is) :
    R (M.run s is).1 (M'.run s' is).1 ∧ List.Forall₂ Same (M.run s is).2 (M'.run s' is).2 := by
  induction is generalizing s s' with
  | nil => exact ⟨hs, .nil⟩
  | cons i is ih =>
    obtain ⟨hnext, hsame⟩ := hstep s s' i hs h.1
    obtain ⟨hend, hanswers⟩ := ih hnext h.2
    exact ⟨hend, .cons hsame hanswers⟩

/-- Reflection rule: a relation that equal answers carry back over a step is
carried back over a run by equal answers. -/
theorem reflect {R : S → S → Prop}
    (hstep : ∀ s s' i, (M.step s i).2 = (M.step s' i).2 → R (M.step s i).1 (M.step s' i).1 →
      R s s')
    {s s' : S} {is : List I} (hanswers : (M.run s is).2 = (M.run s' is).2)
    (hend : R (M.run s is).1 (M.run s' is).1) : R s s' := by
  induction is generalizing s s' with
  | nil => exact hend
  | cons i is ih =>
    simp only [run_cons, List.cons.injEq] at hanswers hend
    exact hstep s s' i hanswers.1 (ih hanswers.2 hend)

end Machine

/-- A machine whose step on `c` is settled by a choice in `Choice c`. -/
structure Chooser (S C O : Type*) (Choice : C → Type*) where
  step : S → (c : C) → Choice c → S × O

namespace Chooser

variable {S C O : Type*} {Choice : C → Type*} (M : Chooser S C O Choice)

/-- The machine that reads each input together with the choice made for it. -/
def machine : Machine S (Σ c, Choice c) O := ⟨fun s e => M.step s e.1 e.2⟩

/-- The step on `c` does not depend on the choice. -/
def Free (s : S) (c : C) : Prop := ∀ ch ch' : Choice c, M.step s c ch = M.step s c ch'

/-- Any two runs of the same log from `s` end alike and answer alike. -/
def Agree (s : S) (log : List C) : Prop :=
  ∀ r r' : List (Σ c, Choice c), r.map Sigma.fst = log → r'.map Sigma.fst = log →
    M.machine.run s r = M.machine.run s r'

theorem run_eq_of_free {s : S} {r r' : List (Σ c, Choice c)}
    (hlog : r.map Sigma.fst = r'.map Sigma.fst)
    (h : M.machine.Along (fun s e => M.Free s e.1) s r) :
    M.machine.run s r = M.machine.run s r' := by
  induction r generalizing r' s with
  | nil =>
    have : r' = [] := List.map_eq_nil_iff.mp hlog.symm
    rw [this]
  | cons e r ih =>
    cases r' with
    | nil => simp at hlog
    | cons e' r' =>
      obtain ⟨c, ch⟩ := e
      obtain ⟨c', ch'⟩ := e'
      simp only [List.map_cons, List.cons.injEq] at hlog
      obtain ⟨rfl, hlog⟩ := hlog
      obtain ⟨hfree, h⟩ := h
      have he : M.machine.step s ⟨c, ch⟩ = M.machine.step s ⟨c, ch'⟩ := hfree ch ch'
      have hr := ih hlog h
      rw [Machine.run_cons, Machine.run_cons, hr, he]

/-- A run of a prefix extends to a run of the log. -/
theorem exists_extension [∀ c, Nonempty (Choice c)] {log : List C} {n : ℕ}
    {r : List (Σ c, Choice c)} (hr : r.map Sigma.fst = log.take n) :
    ∃ r', (r ++ r').map Sigma.fst = log := by
  refine ⟨(log.drop n).map fun c => ⟨c, Classical.arbitrary (Choice c)⟩, ?_⟩
  rw [List.map_append, List.map_map, hr]
  have : (Sigma.fst ∘ fun c => (⟨c, Classical.arbitrary (Choice c)⟩ : Σ c, Choice c)) = id := rfl
  rw [this, List.map_id, List.take_append_drop]

theorem take_succ_map_fst {log : List C} {r : List (Σ c, Choice c)}
    (hr : r.map Sigma.fst = log) {k : ℕ} (hk : k < r.length) (ch : Choice (r[k]).1) :
    (r.take k ++ [(⟨(r[k]).1, ch⟩ : Σ c, Choice c)]).map Sigma.fst = log.take (k + 1) := by
  subst hr
  rw [List.map_append, List.map_take, List.take_add_one, List.getElem?_map,
    List.getElem?_eq_getElem hk]
  rfl

/-- No prefix of the log can be told apart by its choices iff every step a run
takes is free of its choice. -/
theorem agree_prefix_iff [∀ c, Nonempty (Choice c)] (s : S) (log : List C) :
    (∀ n, M.Agree s (log.take n)) ↔
      ∀ r : List (Σ c, Choice c), r.map Sigma.fst = log →
        M.machine.Along (fun s e => M.Free s e.1) s r := by
  constructor
  · intro hagree r hr
    -- induct on the part of the run already known to be free
    suffices ∀ k, M.machine.Along (fun s e => M.Free s e.1) s (r.take k) by
      simpa using this r.length
    intro k
    induction k with
    | zero => trivial
    | succ k ih =>
      by_cases hk : k < r.length
      · rw [List.take_add_one, List.getElem?_eq_getElem hk, Option.toList_some,
          Machine.along_append]
        refine ⟨ih, fun ch ch' => ?_, trivial⟩
        have heq := hagree (k + 1) _ _ (take_succ_map_fst hr hk ch) (take_succ_map_fst hr hk ch')
        rw [Machine.run_snoc, Machine.run_snoc, Prod.mk.injEq] at heq
        obtain ⟨h1, h2⟩ := heq
        have h3 := List.append_cancel_left h2
        exact Prod.ext h1 (List.cons.inj h3).1
      · rw [List.take_of_length_le (by omega)] at ih ⊢
        exact ih
  · intro hfree n r r' hr hr'
    obtain ⟨q, hq⟩ := exists_extension hr
    have hall := (Machine.along_append _ _ _ _ _).mp (hfree (r ++ q) hq)
    exact M.run_eq_of_free (hr.trans hr'.symm) hall.1

end Chooser

end GoLib
