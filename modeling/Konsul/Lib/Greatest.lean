import Mathlib.Data.List.Induction
import Mathlib.Data.List.Perm.Basic

/-!
# The greatest value of a loop

`greatest f l` is the running maximum of `f` over `l`, as a loop that starts
from zero computes it.
-/

namespace GoLib

variable {A : Type}

def greatest (f : A → UInt64) (l : List A) : UInt64 :=
  l.foldl (fun m a => if f a > m then f a else m) 0

variable (f : A → UInt64)

theorem greatest_snoc (l : List A) (a : A) :
    greatest f (l ++ [a]) = if f a > greatest f l then f a else greatest f l := by
  rw [greatest, List.foldl_append]
  rfl

theorem le_greatest {l : List A} {a : A} (ha : a ∈ l) : f a ≤ greatest f l := by
  induction l using List.reverseRecOn with
  | nil => cases ha
  | append_singleton l b ih =>
    rw [greatest_snoc]
    rcases List.mem_append.mp ha with ha | ha
    · have := ih ha
      split_ifs with h
      · exact UInt64.le_of_lt (UInt64.lt_of_le_of_lt this h)
      · exact this
    · rw [List.mem_singleton.mp ha]
      split_ifs with h
      · exact UInt64.le_refl _
      · exact UInt64.not_lt.mp h

theorem greatest_attained (l : List A) : greatest f l = 0 ∨ ∃ a ∈ l, f a = greatest f l := by
  induction l using List.reverseRecOn with
  | nil => exact Or.inl rfl
  | append_singleton l b ih =>
    rw [greatest_snoc]
    split_ifs
    · exact Or.inr ⟨b, List.mem_append_right _ (List.mem_singleton_self _), rfl⟩
    · rcases ih with h | ⟨a, ha, h⟩
      · exact Or.inl h
      · exact Or.inr ⟨a, List.mem_append_left _ ha, h⟩

variable {f}

/-- The greatest value is the bound the values share, once one of them reaches it. -/
theorem greatest_eq {l : List A} {g : UInt64} (hle : ∀ a ∈ l, f a ≤ g)
    (hmem : g = 0 ∨ ∃ a ∈ l, f a = g) : greatest f l = g := by
  have h1 : greatest f l ≤ g := by
    rcases greatest_attained f l with h | ⟨a, ha, h⟩
    · rw [h]
      exact UInt64.zero_le
    · rw [← h]
      exact hle a ha
  have h2 : g ≤ greatest f l := by
    rcases hmem with rfl | ⟨a, ha, rfl⟩
    · exact UInt64.zero_le
    · exact le_greatest f ha
  exact UInt64.le_antisymm h1 h2

theorem greatest_perm {l l' : List A} (h : l.Perm l') : greatest f l = greatest f l' := by
  refine greatest_eq (fun a ha => le_greatest f (h.mem_iff.mp ha)) ?_
  rcases greatest_attained f l' with h0 | ⟨a, ha, hf⟩
  · exact Or.inl h0
  · exact Or.inr ⟨a, h.mem_iff.mpr ha, hf⟩

theorem greatest_map {B : Type} (g : B → A) (l : List B) :
    greatest f (l.map g) = greatest (fun b => f (g b)) l := by
  rw [greatest, greatest, List.foldl_map]

end GoLib
