import Mathlib.Logic.Basic

/-!
# Programs over operations

A `Program` performs operations one at a time and goes on with their answers;
what an operation does is left to whoever runs the program. `run` runs it on a
state, and `Only` bounds the operations it can perform whatever they answer.

A run of a program is the list of its operations with their answers, begun but
perhaps not finished. `Heeds` says that every step of every run is justified by
the steps before it.
-/

namespace GoLib

inductive Program (Op : Type) (Answer : Op → Type) (R : Type) where
  | ret (r : R)
  | call (op : Op) (next : Answer op → Program Op Answer R)

namespace Program

variable {Op : Type} {Answer : Op → Type} {R T : Type}

def bind : Program Op Answer R → (R → Program Op Answer T) → Program Op Answer T
  | ret r, f => f r
  | call op next, f => call op fun a => (next a).bind f

instance : Monad (Program Op Answer) where
  pure := ret
  bind := bind

/-- One operation, whose answer is the result. -/
def perform (op : Op) : Program Op Answer (Answer op) := call op ret

@[simp] theorem pure_eq (r : R) : (pure r : Program Op Answer R) = ret r := rfl

@[simp] theorem ret_bind (r : R) (f : R → Program Op Answer T) : (ret r >>= f) = f r := rfl

/-- A program whose operations are themselves programs. -/
def interpret {Op' : Type} {Answer' : Op' → Type} (f : (op : Op) → Program Op' Answer' (Answer op)) :
    Program Op Answer R → Program Op' Answer' R
  | ret r => ret r
  | call op next => (f op).bind fun a => (next a).interpret f

/-! ### Running -/

section

variable {S : Type} (exec : S → (op : Op) → S × Answer op)

def run : Program Op Answer R → S → S × R
  | ret r, s => (s, r)
  | call op next, s => run (next (exec s op).2) (exec s op).1

@[simp] theorem run_ret (r : R) (s : S) : (ret r : Program Op Answer R).run exec s = (s, r) := rfl

theorem run_bind (p : Program Op Answer R) (f : R → Program Op Answer T) (s : S) :
    (p >>= f).run exec s = (f (p.run exec s).2).run exec (p.run exec s).1 := by
  induction p generalizing s with
  | ret r => rfl
  | call op next ih => exact ih _ _

theorem run_perform_bind (op : Op) (f : Answer op → Program Op Answer T) (s : S) :
    (perform op >>= f).run exec s = (f (exec s op).2).run exec (exec s op).1 := rfl

theorem run_map (f : R → T) (p : Program Op Answer R) (s : S) :
    (f <$> p).run exec s = ((p.run exec s).1, f (p.run exec s).2) :=
  run_bind exec p (fun r => ret (f r)) s

end

/-! ### The operations of a program -/

/-- Whatever the answers, the program performs only operations of `P`. -/
def Only (P : Op → Prop) : Program Op Answer R → Prop
  | ret _ => True
  | call op next => P op ∧ ∀ a, Only P (next a)

variable {P : Op → Prop}

theorem only_perform {op : Op} (h : P op) :
    (perform op : Program Op Answer (Answer op)).Only P := ⟨h, fun _ => trivial⟩

theorem only_bind {p : Program Op Answer R} {f : R → Program Op Answer T} (hp : p.Only P)
    (hf : ∀ r, (f r).Only P) : (p >>= f).Only P := by
  induction p with
  | ret r => exact hf r
  | call op next ih => exact ⟨hp.1, fun a => ih a (hp.2 a)⟩

theorem only_interpret {Op' : Type} {Answer' : Op' → Type} {P : Op' → Prop}
    {f : (op : Op) → Program Op' Answer' (Answer op)} (hf : ∀ op, (f op).Only P)
    (p : Program Op Answer R) : (p.interpret f).Only P := by
  induction p with
  | ret r => trivial
  | call op next ih => exact only_bind (hf op) ih

theorem Only.of_bind {p : Program Op Answer R} {f : R → Program Op Answer T}
    (h : (p >>= f).Only P) : p.Only P := by
  induction p with
  | ret r => trivial
  | call op next ih => exact ⟨h.1, fun a => ih a (h.2 a)⟩

theorem Only.run_eq {S V : Type} {exec : S → (op : Op) → S × Answer op} {f : S → V}
    (hstep : ∀ s op, P op → f (exec s op).1 = f s) {p : Program Op Answer R} (hp : p.Only P)
    (s : S) : f (p.run exec s).1 = f s := by
  induction p generalizing s with
  | ret r => rfl
  | call op next ih => exact (ih _ (hp.2 _) _).trans (hstep s op hp.1)

theorem Only.mono {Q : Op → Prop} (hPQ : ∀ op, P op → Q op) {p : Program Op Answer R}
    (hp : p.Only P) : p.Only Q := by
  induction p with
  | ret r => trivial
  | call op next ih => exact ⟨hPQ op hp.1, fun a => ih a (hp.2 a)⟩

/-! ### What a program has done before -/

/-- An operation that was performed, with its answer. -/
abbrev Event (Answer : Op → Type) := Σ op, Answer op

section

variable (can : (op : Op) → Answer op → Prop)

/-- The program can begin with these steps, if `can` says which answers there are. -/
def Begins : Program Op Answer R → List (Event Answer) → Prop
  | _, [] => True
  | ret _, _ :: _ => False
  | call op next, e :: t => ∃ a, e = ⟨op, a⟩ ∧ can op a ∧ (next a).Begins t

theorem begins_nil (p : Program Op Answer R) : p.Begins can [] := by
  cases p <;> trivial

variable (justified : List (Event Answer) → Event Answer → Prop)

/-- Whatever has been done before and is answered now, each step is justified. -/
def Heeds (past : List (Event Answer)) : Program Op Answer R → Prop
  | ret _ => True
  | call op next =>
    ∀ a, can op a → justified past ⟨op, a⟩ ∧ (next a).Heeds (past ++ [⟨op, a⟩])

theorem heeds_iff (p : Program Op Answer R) (past : List (Event Answer)) :
    p.Heeds can justified past ↔ ∀ before e after, p.Begins can (before ++ e :: after) →
      justified (past ++ before) e := by
  induction p generalizing past with
  | ret r =>
    refine iff_of_true trivial fun before e after h => ?_
    cases before <;> exact h.elim
  | call op next ih =>
    constructor
    · intro h before e after hbegins
      cases before with
      | nil =>
        obtain ⟨a, rfl, hcan, -⟩ := hbegins
        rw [List.append_nil]
        exact (h a hcan).1
      | cons first before =>
        obtain ⟨a, rfl, hcan, hrest⟩ := hbegins
        have hnext := (ih a (past ++ [⟨op, a⟩])).mp (h a hcan).2 before e after hrest
        rw [List.append_assoc] at hnext
        exact hnext
    · intro h a hcan
      refine ⟨?_, (ih a _).mpr fun before e after hbegins => ?_⟩
      · have hfirst := h [] ⟨op, a⟩ [] ⟨a, rfl, hcan, begins_nil ..⟩
        rw [List.append_nil] at hfirst
        exact hfirst
      · have hlater := h (⟨op, a⟩ :: before) e after ⟨a, rfl, hcan, hbegins⟩
        rw [List.append_assoc]
        exact hlater

variable {can justified}

theorem heeds_bind {p : Program Op Answer R} {f : R → Program Op Answer T}
    {past : List (Event Answer)} (hp : p.Heeds can justified past)
    (hf : ∀ r past, (f r).Heeds can justified past) : (p >>= f).Heeds can justified past := by
  induction p generalizing past with
  | ret r => exact hf r past
  | call op next ih => exact fun a hcan => ⟨(hp a hcan).1, ih a (hp a hcan).2⟩

theorem heeds_bind_ret_iff (p : Program Op Answer R) (f : R → T) (past : List (Event Answer)) :
    (p >>= fun r => ret (f r)).Heeds can justified past ↔ p.Heeds can justified past := by
  induction p generalizing past with
  | ret r => exact Iff.rfl
  | call op next ih =>
    refine forall_congr' fun a => forall_congr' fun hcan => ?_
    exact and_congr_right fun _ => ih a _

end

theorem only_bind_ret_iff {P : Op → Prop} (p : Program Op Answer R) (f : R → T) :
    (p >>= fun r => ret (f r)).Only P ↔ p.Only P := by
  induction p with
  | ret r => exact Iff.rfl
  | call op next ih => exact and_congr_right fun _ => forall_congr' ih

end Program

end GoLib
