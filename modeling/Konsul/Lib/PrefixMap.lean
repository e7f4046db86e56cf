import Konsul.Lib.GoMap
import Konsul.Lib.Strings

/-!
# Maps in one map, told apart by prefixes

A map whose keys are strings holds several: each has the keys that begin with its own
prefix. An iterator over the sorted keys reads one of them by a seek.
-/

namespace GoLib

section

variable {α V : Type} [DecidableEq α] [LT α] [DecidableLT α]

/-- What an iterator passes that seeks `pfx` and goes on while the key begins with it. -/
def seek (l : List (List α × V)) (pfx : List α) : List (List α × V) :=
  (l.dropWhile fun e => e.1 < pfx).takeWhile fun e => pfx.isPrefixOf e.1

end

section

variable {α : Type} [LT α] [LE α] [Std.LawfulOrderLT α]

/-- A string that begins with `pfx` is not before it. -/
theorem not_lt_of_prefix [Std.IsPreorder α] {pfx k : List α} (h : pfx <+: k) : ¬ k < pfx := by
  induction pfx generalizing k with
  | nil => exact List.not_lt_nil k
  | cons a pfx ih =>
    obtain ⟨rest, rfl⟩ := h
    rw [List.cons_append, List.cons_lt_cons_iff]
    rintro (hlt | ⟨-, hlt⟩)
    · exact Std.lt_irrefl hlt
    · exact ih ⟨rest, rfl⟩ hlt

/-- What is between a prefix and a string that begins with it begins with it too. -/
theorem prefix_of_between [Std.IsLinearOrder α] {pfx k k' : List α} (h : pfx <+: k') (hlow : ¬ k < pfx)
    (hhigh : ¬ k' < k) : pfx <+: k := by
  induction pfx generalizing k k' with
  | nil => exact List.nil_prefix
  | cons a pfx ih =>
    obtain ⟨rest, rfl⟩ := h
    cases k with
    | nil => exact absurd (List.nil_lt_cons a pfx) hlow
    | cons c k =>
      rw [List.cons_append, List.cons_lt_cons_iff] at hhigh
      rw [List.cons_lt_cons_iff] at hlow
      have hca : c = a := Std.le_antisymm (Std.not_lt.mp fun hlt => hhigh (.inl hlt))
        (Std.not_lt.mp fun hlt => hlow (.inl hlt))
      have hk : pfx <+: k := ih ⟨rest, rfl⟩ (fun hlt => hlow (.inr ⟨hca, hlt⟩))
        fun hlt => hhigh (.inr ⟨hca.symm, hlt⟩)
      rw [hca]
      exact (List.prefix_cons_inj a).mpr hk

/-- Where the pass goes from what `p` holds of to what it does not, and never back, it is a
filter. -/
theorem takeWhile_eq_filter {β : Type} {p : β → Bool} {l : List β}
    (hl : l.Pairwise fun e e' => p e' = true → p e = true) : l.takeWhile p = l.filter p := by
  induction l with
  | nil => rfl
  | cons e l ih =>
    obtain ⟨hfirst, hrest⟩ := List.pairwise_cons.mp hl
    by_cases he : p e = true
    · rw [List.takeWhile_cons_of_pos he, List.filter_cons_of_pos he, ih hrest]
    · have hnone : l.filter p = [] := List.filter_eq_nil_iff.mpr fun e' he' hp =>
        he (hfirst e' he' hp)
      rw [List.takeWhile_cons_of_neg he, List.filter_cons_of_neg he, hnone]

/-- In the order of the keys a seek passes just the keys with the prefix. -/
theorem seek_eq_filter {V : Type} [DecidableEq α] [DecidableLT α] [Std.IsLinearOrder α]
    {l : List (List α × V)} (hl : l.Pairwise fun e e' => e.1 ≤ e'.1)
    (pfx : List α) : seek l pfx = l.filter fun e => pfx.isPrefixOf e.1 := by
  unfold seek
  induction l with
  | nil => rfl
  | cons e l ih =>
    obtain ⟨hfirst, hrest⟩ := List.pairwise_cons.mp hl
    by_cases he : e.1 < pfx
    · have hno : ¬ (pfx.isPrefixOf e.1 = true) := fun hp =>
        not_lt_of_prefix (List.isPrefixOf_iff_prefix.mp hp) he
      rw [List.dropWhile_cons, if_pos (decide_eq_true he), List.filter_cons, if_neg hno]
      exact ih hrest
    · have hstop : ¬ (decide (e.1 < pfx) = true) := fun h => he (of_decide_eq_true h)
      rw [List.dropWhile_cons, if_neg hstop]
      have hlow : ∀ e' ∈ e :: l, ¬ e'.1 < pfx := by
        intro e' he' hlt
        rcases List.mem_cons.mp he' with rfl | he'
        · exact he hlt
        · exact hfirst e' he' (Std.lt_of_lt_of_le hlt (Std.not_lt.mp he))
      refine takeWhile_eq_filter (List.Pairwise.imp_of_mem ?_ hl)
      intro d d' hd _ hle hp
      exact List.isPrefixOf_iff_prefix.mpr
        (prefix_of_between (List.isPrefixOf_iff_prefix.mp hp) (hlow d hd) (List.not_lt.mpr hle))

end

end GoLib
