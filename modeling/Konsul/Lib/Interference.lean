import Konsul.Lib.RWMutex

/-!
# What a thread ensures while others run

Between two accesses of a thread the others change the shared state. The thread relies
on a preorder that their accesses follow, and guarantees the same of its own; both may
use an invariant that every access keeps. `Ensures` is what is left to show of a program
from a state on, and the lock operations do not matter to it.
-/

namespace GoLib

namespace Thread

variable {S R T : Type}

/-- Whatever the others do along `rely`, the accesses of the program keep the guarantee
and the invariant, and its result is as `post` says from then on. -/
def Ensures (rely guarantee : S → S → Prop) (inv : S → Prop) (post : S → R → Prop) :
    Thread S R → S → Prop
  | .ret r, s => ∀ s', rely s s' → post s' r
  | .call .rLock next, s => Ensures rely guarantee inv post (next ()) s
  | .call .rUnlock next, s => Ensures rely guarantee inv post (next ()) s
  | .call .lock next, s => Ensures rely guarantee inv post (next ()) s
  | .call .unlock next, s => Ensures rely guarantee inv post (next ()) s
  | .call (.access f) next, s => ∀ s', rely s s' → inv s' →
    guarantee s' (f s') ∧ inv (f s') ∧ Ensures rely guarantee inv post (next s') (f s')

variable {rely guarantee : S → S → Prop} {inv : S → Prop} {post : S → R → Prop}

/-- What a thread ensures it still ensures after steps of others. -/
theorem Ensures.later (htrans : ∀ s s' s'', rely s s' → rely s' s'' → rely s s'')
    {p : Thread S R} {s s' : S} (h : p.Ensures rely guarantee inv post s) (hrely : rely s s') :
    p.Ensures rely guarantee inv post s' := by
  induction p with
  | ret r => exact fun s'' hlater => h s'' (htrans s s' s'' hrely hlater)
  | call step next ih =>
    cases step with
    | rLock => exact ih () h
    | rUnlock => exact ih () h
    | lock => exact ih () h
    | unlock => exact ih () h
    | access f => exact fun s'' hlater => h s'' (htrans s s' s'' hrely hlater)

theorem Ensures.bind (hrefl : ∀ s, rely s s) {middle : S → T → Prop} {p : Thread S T}
    {f : T → Thread S R} {s : S} (hp : p.Ensures rely guarantee inv middle s)
    (hf : ∀ r s, middle s r → (f r).Ensures rely guarantee inv post s) :
    (p >>= f : Thread S R).Ensures rely guarantee inv post s := by
  induction p generalizing s with
  | ret r => exact hf r s (hp s (hrefl s))
  | call step next ih =>
    cases step with
    | rLock => exact ih () hp
    | rUnlock => exact ih () hp
    | lock => exact ih () hp
    | unlock => exact ih () hp
    | access g =>
      intro s' hrely hinv
      obtain ⟨hguarantee, hkept, hrest⟩ := hp s' hrely hinv
      exact ⟨hguarantee, hkept, ih s' hrest⟩

theorem ensures_reading (hsame : ∀ s, guarantee s s) {read : S → R} {s : S}
    (h : ∀ s', rely s s' → inv s' → ∀ s'', rely s' s'' → post s'' (read s')) :
    (reading read).Ensures rely guarantee inv post s :=
  fun s' hrely hinv => ⟨hsame s', hinv, h s' hrely hinv⟩

theorem ensures_writing {update : S → S × R} {s : S}
    (h : ∀ s', rely s s' → inv s' → guarantee s' (update s').1 ∧ inv (update s').1 ∧
      ∀ s'', rely (update s').1 s'' → post s'' (update s').2) :
    (writing update).Ensures rely guarantee inv post s := h

theorem ensures_unlocked {update : S → S × R} {s : S}
    (h : ∀ s', rely s s' → inv s' → guarantee s' (update s').1 ∧ inv (update s').1 ∧
      ∀ s'', rely (update s').1 s'' → post s'' (update s').2) :
    (unlocked update).Ensures rely guarantee inv post s := h

end Thread

namespace Threads

variable {S I R : Type} [DecidableEq I] {rely guarantee : I → S → S → Prop} {inv : S → Prop}
  {post : I → S → R → Prop} {s : Threads S I R}

/-- A step of one thread leaves the others what they rely on. -/
theorem ensures_step (hrefl : ∀ i s, rely i s s)
    (htrans : ∀ i s s' s'', rely i s s' → rely i s' s'' → rely i s s'')
    (hothers : ∀ i j s s', i ≠ j → guarantee i s s' → rely j s s')
    (h : inv s.shared ∧ ∀ i, (s.program i).Ensures (rely i) (guarantee i) inv (post i) s.shared)
    (i : I) : inv (machine.step s i).1.shared ∧ ∀ j, ((machine.step s i).1.program j).Ensures
      (rely j) (guarantee j) inv (post j) (machine.step s i).1.shared := by
  obtain ⟨hinv, hall⟩ := h
  -- a step that advances one program and leaves the shared state
  have hadvance : ∀ (s' : Threads S I R) (rest : Thread S R), s'.program = s.program →
      s'.shared = s.shared → rest.Ensures (rely i) (guarantee i) inv (post i) s.shared →
      inv (s'.advance i rest).shared ∧ ∀ j, ((s'.advance i rest).program j).Ensures
        (rely j) (guarantee j) inv (post j) (s'.advance i rest).shared := by
    intro s' rest hprogram hshared hrest
    refine ⟨hshared ▸ hinv, fun j => ?_⟩
    change (Function.update s'.program i rest j).Ensures _ _ _ _ s'.shared
    rw [hprogram, hshared]
    by_cases hj : j = i
    · subst hj
      rwa [Function.update_self]
    · rw [Function.update_of_ne hj]
      exact hall j
  have hi := hall i
  change inv ((s.next i).getD s).shared ∧ ∀ j, (((s.next i).getD s).program j).Ensures
    (rely j) (guarantee j) inv (post j) ((s.next i).getD s).shared
  unfold next
  cases hp : s.program i with
  | ret r => exact ⟨hinv, hall⟩
  | call step rest =>
    rw [hp] at hi
    cases step with
    | rLock =>
      cases s.writer with
      | none => exact hadvance { s with readers := i ::ₘ s.readers } (rest ()) rfl rfl hi
      | waiting j => exact ⟨hinv, hall⟩
      | holding j => exact ⟨hinv, hall⟩
    | rUnlock => exact hadvance { s with readers := s.readers.erase i } (rest ()) rfl rfl hi
    | lock =>
      cases s.writer with
      | none => exact ⟨hinv, hall⟩
      | waiting j =>
        simp only
        split_ifs
        · exact hadvance { s with writer := .holding i } (rest ()) rfl rfl hi
        · exact ⟨hinv, hall⟩
      | holding j => exact ⟨hinv, hall⟩
    | unlock => exact hadvance { s with writer := .none } (rest ()) rfl rfl hi
    | access f =>
      obtain ⟨hguarantee, hkept, hrest⟩ := hi s.shared (hrefl i s.shared) hinv
      refine ⟨hkept, fun j => ?_⟩
      change (Function.update s.program i (rest s.shared) j).Ensures _ _ _ _ (f s.shared)
      by_cases hj : j = i
      · subst hj
        rwa [Function.update_self]
      · rw [Function.update_of_ne hj]
        exact (hall j).later (htrans j) (hothers i j _ _ (Ne.symm hj) hguarantee)

/-- Whatever the order of the steps, the invariant holds and each thread that has finished
returned what it ensures. -/
theorem ensures_run (hrefl : ∀ i s, rely i s s)
    (htrans : ∀ i s s' s'', rely i s s' → rely i s' s'' → rely i s s'')
    (hothers : ∀ i j s s', i ≠ j → guarantee i s s' → rely j s s') {shared : S}
    {program : I → Thread S R} (hinv : inv shared)
    (h : ∀ i, (program i).Ensures (rely i) (guarantee i) inv (post i) shared) (schedule : List I) :
    inv (machine.run (start shared program) schedule).1.shared ∧
      ∀ i r, (machine.run (start shared program) schedule).1.program i = .ret r →
        post i (machine.run (start shared program) schedule).1.shared r := by
  have hend := @Machine.invariant_run _ _ _ (machine (S := S) (I := I) (R := R))
    (fun s => inv s.shared ∧
      ∀ i, (s.program i).Ensures (rely i) (guarantee i) inv (post i) s.shared)
    (fun s i h => ensures_step hrefl htrans hothers h i) (start shared program) ⟨hinv, h⟩ schedule
  refine ⟨hend.1, fun i r hr => ?_⟩
  have hpost := hend.2 i
  rw [hr] at hpost
  exact hpost _ (hrefl i _)

end Threads

end GoLib
