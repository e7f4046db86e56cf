import Mathlib.Data.Multiset.Replicate
import Mathlib.Data.Finset.Card
import Mathlib.Tactic.Linarith

/-!
# Pages of a collection

The pages of `L` items that one list is cut into hold its items. A collection that is listed
anew for each page, in any order, has its items once each in the pages just when they all fit
on one page, or are all the same.
-/

namespace GoLib

variable {α : Type}

/-- The pages of `L` items that a collection of `total` items has; one is always there. -/
def pageCount (total L : ℕ) : ℕ := max 1 ((total + L - 1) / L)

def pageOf (L k : ℕ) (l : List α) : List α := (l.drop (k * L)).take L

/-- The items of the pages, each of a list of its own. -/
def pagesOf (L n : ℕ) (lists : ℕ → List α) : List α :=
  (List.range n).flatMap fun k => pageOf L k (lists k)

/-- In whatever orders the pages list the items, they hold each of them once. -/
def PagesPartition (items : Multiset α) (L : ℕ) : Prop :=
  ∀ lists : ℕ → List α, (∀ k, (lists k : Multiset α) = items) →
    (pagesOf L (pageCount items.card L) lists : Multiset α) = items

/-! ### Counting pages -/

theorem pageCount_pos (total L : ℕ) : 0 < pageCount total L :=
  lt_of_lt_of_le Nat.zero_lt_one (le_max_left _ _)

theorem pageCount_eq_one {total L : ℕ} (hL : 0 < L) : pageCount total L = 1 ↔ total ≤ L := by
  rw [pageCount, max_eq_left_iff, ← Nat.lt_succ_iff, Nat.div_lt_iff_lt_mul hL]
  omega

/-- A page is not the last one just when there are items after it. -/
theorem succ_lt_pageCount {total L k : ℕ} (hL : 0 < L) :
    k + 1 < pageCount total L ↔ (k + 1) * L < total := by
  rw [pageCount, lt_max_iff, Nat.lt_iff_add_one_le (n := (total + L - 1) / L),
    Nat.le_div_iff_mul_le hL, Nat.succ_mul (k + 1)]
  omega

/-! ### Pages of one list -/

theorem pagesOf_same (L n : ℕ) (l : List α) : pagesOf L n (fun _ => l) = l.take (n * L) := by
  induction n with
  | zero => rw [Nat.zero_mul, List.take_zero, pagesOf, List.range_zero, List.flatMap_nil]
  | succ n ih =>
    rw [pagesOf] at ih ⊢
    rw [List.range_succ, List.flatMap_append, ih, Nat.succ_mul, List.take_add,
      List.flatMap_singleton, pageOf]

theorem le_pageCount_mul {total L : ℕ} (hL : 0 < L) : total ≤ pageCount total L * L := by
  by_contra hlt
  obtain ⟨k, hk⟩ : ∃ k, pageCount total L = k + 1 :=
    ⟨pageCount total L - 1, by have hpos := pageCount_pos total L; omega⟩
  rw [hk, not_le, ← succ_lt_pageCount hL, hk] at hlt
  exact lt_irrefl _ hlt

/-- One list is cut into pages. -/
theorem pagesOf_eq {L : ℕ} (hL : 0 < L) (l : List α) :
    pagesOf L (pageCount l.length L) (fun _ => l) = l := by
  rw [pagesOf_same, List.take_of_length_le (le_pageCount_mul hL)]

/-! ### Pages of several lists -/

theorem pagesOf_succ (L n : ℕ) (lists : ℕ → List α) :
    pagesOf L (n + 1) lists =
      (lists 0).take L ++ (List.range n).flatMap fun k => pageOf L (k + 1) (lists (k + 1)) := by
  rw [pagesOf, List.range_succ_eq_map, List.flatMap_cons, List.flatMap_map, pageOf, Nat.zero_mul,
    List.drop_zero]

/-- The pages partition the collection only when its lists all begin with the same page. -/
theorem PagesPartition.first_page {items : Multiset α} {L : ℕ} (h : PagesPartition items L)
    {l l' : List α} (hl : (l : Multiset α) = items) (hl' : (l' : Multiset α) = items) :
    (l.take L).Perm (l'.take L) := by
  obtain ⟨n, hn⟩ : ∃ n, pageCount items.card L = n + 1 :=
    ⟨pageCount items.card L - 1, by have hpos := pageCount_pos items.card L; omega⟩
  have hsame := h (fun _ => l) fun _ => hl
  have hother := h (fun k => if k = 0 then l' else l) fun k => by
    split_ifs
    · exact hl'
    · exact hl
  rw [hn, pagesOf_succ] at hsame hother
  simp only [Nat.succ_ne_zero, if_false, if_true] at hother
  exact (List.perm_append_right_iff _).mp (Multiset.coe_eq_coe.mp (hsame.trans hother.symm))

theorem PagesPartition.eq_of_mem {items : Multiset α} {L : ℕ} (h : PagesPartition items L)
    (hL : 0 < L) (hmany : L < items.card) {x y : α} (hx : x ∈ items) (hy : y ∈ items) : x = y := by
  by_contra hne
  obtain ⟨others, rfl⟩ := Multiset.exists_cons_of_mem hx
  obtain ⟨rest, rfl⟩ := Multiset.exists_cons_of_mem
    ((Multiset.mem_cons.mp hy).resolve_left (Ne.symm hne))
  obtain ⟨l, hl⟩ : ∃ l : List α, (l : Multiset α) = rest := Quot.exists_rep rest
  subst hl
  rw [Multiset.card_cons, Multiset.card_cons, Multiset.coe_card] at hmany
  -- `x` on the first page and `y` after it, and the other way around
  have hplace (a b : α) : ((a :: (l.take (L - 1) ++ b :: l.drop (L - 1)) : List α) : Multiset α) =
      a ::ₘ b ::ₘ (l : Multiset α) := by
    rw [← Multiset.cons_coe, Multiset.coe_eq_coe.mpr List.perm_middle, List.take_append_drop]
    rfl
  have hfirst (a b : α) :
      (a :: (l.take (L - 1) ++ b :: l.drop (L - 1))).take L = a :: l.take (L - 1) := by
    obtain ⟨m, rfl⟩ : ∃ m, L = m + 1 := ⟨L - 1, by omega⟩
    rw [List.take_succ_cons, Nat.add_sub_cancel, List.take_append_of_le_length (by simp; omega),
      List.take_take, min_self]
  have hpages := h.first_page (hplace x y) ((hplace y x).trans (Multiset.cons_swap y x _))
  rw [hfirst, hfirst] at hpages
  have hcons := Multiset.coe_eq_coe.mpr hpages
  rw [← Multiset.cons_coe, ← Multiset.cons_coe, Multiset.cons_inj_left] at hcons
  exact hne hcons

/-- Every list of the images is that of a list of the items. -/
theorem exists_map_eq {β : Type} {f : α → β} {items : Multiset α} {l : List β}
    (h : (l : Multiset β) = items.map f) : ∃ l' : List α, (l' : Multiset α) = items ∧ l'.map f = l := by
  induction l generalizing items with
  | nil => exact ⟨[], (Multiset.map_eq_zero.mp h.symm).symm, rfl⟩
  | cons b l ih =>
    rw [← Multiset.cons_coe] at h
    have hb : b ∈ items.map f := by
      rw [← h]
      exact Multiset.mem_cons_self b l
    obtain ⟨a, ha, rfl⟩ := Multiset.mem_map.mp hb
    obtain ⟨rest, rfl⟩ := Multiset.exists_cons_of_mem ha
    rw [Multiset.map_cons, Multiset.cons_inj_right] at h
    obtain ⟨l', hl', rfl⟩ := ih h
    exact ⟨a :: l', by rw [← Multiset.cons_coe, hl'], rfl⟩

theorem pagesPartition_iff {items : Multiset α} {L : ℕ} (hL : 0 < L) :
    PagesPartition items L ↔ items.card ≤ L ∨ ∀ x ∈ items, ∀ y ∈ items, x = y := by
  constructor
  · intro h
    rcases le_or_gt items.card L with hfew | hmany
    · exact .inl hfew
    · exact .inr fun x hx y hy => h.eq_of_mem hL hmany hx hy
  · intro h lists hlists
    rcases h with hfew | hsame
    · rw [(pageCount_eq_one hL).mpr hfew, pagesOf_succ, List.range_zero, List.flatMap_nil,
        List.append_nil, List.take_of_length_le, hlists 0]
      rw [← Multiset.coe_card, hlists 0]
      exact hfew
    · rcases Multiset.empty_or_exists_mem items with rfl | ⟨x, hx⟩
      · have hnil (k : ℕ) : lists k = [] := (Multiset.coe_eq_zero _).mp (hlists k)
        rw [funext hnil, pagesOf_same, List.take_nil]
        rfl
      · have hitems : items = Multiset.replicate items.card x :=
          Multiset.eq_replicate.mpr ⟨rfl, fun y hy => hsame y hy x hx⟩
        have hlist (k : ℕ) : lists k = List.replicate items.card x := by
          refine List.perm_replicate.mp (Multiset.coe_eq_coe.mp ?_)
          rw [hlists k, Multiset.coe_replicate, ← hitems]
        have hwhole := pagesOf_eq hL (List.replicate items.card x)
        rw [List.length_replicate] at hwhole
        rw [funext hlist, hwhole, Multiset.coe_replicate, ← hitems]

theorem pagesPartition_iff_of_nodup {items : Multiset α} {L : ℕ} (hL : 0 < L)
    (hnodup : items.Nodup) : PagesPartition items L ↔ items.card ≤ L := by
  rw [pagesPartition_iff hL, or_iff_left_of_imp]
  intro hsame
  have hone : (⟨items, hnodup⟩ : Finset α).card ≤ 1 := Finset.card_le_one.mpr hsame
  exact hone.trans hL

end GoLib
