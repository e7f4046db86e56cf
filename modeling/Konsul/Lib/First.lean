import Konsul.Lib.GoMap
import Mathlib.Data.List.Perm.Basic

/-!
# What comes first

A loop that asks each element for a verdict and returns the first one given is
`List.findSome?`. When the verdicts are yes or no, `findSome?_eq_some_bool_iff`
says which element decides; `getD_findSome?_perm_iff` says when the order
of the elements cannot be observed.

Where places are read in their order, a value counts under its name only if no
place before held one of that name. `serves_congr` says which change to one
place leaves the other names where they are.
-/

namespace GoLib

/-! ### The first verdict of a scan -/

section

variable {A B : Type} {v : A → Option B} {l : List A}

/-- Every permutation answers alike iff all verdicts given are the same. -/
theorem getD_findSome?_perm_iff (d : B) :
    (∀ l' : List A, l'.Perm l → (l'.findSome? v).getD d = (l.findSome? v).getD d) ↔
      ∀ a ∈ l, ∀ b ∈ l, ∀ x y, v a = some x → v b = some y → x = y := by
  -- an element can be moved to the front, where its verdict is the answer
  have hfront : ∀ a ∈ l, ∀ x, v a = some x →
      ∃ l' : List A, l'.Perm l ∧ (l'.findSome? v).getD d = x := by
    intro a ha x hx
    obtain ⟨l₁, l₂, rfl⟩ := List.append_of_mem ha
    refine ⟨a :: (l₁ ++ l₂), List.perm_middle.symm, ?_⟩
    simp only [List.findSome?_cons, hx, Option.getD_some]
  constructor
  · intro h a ha b hb x y hx hy
    obtain ⟨la, hla, hax⟩ := hfront a ha x hx
    obtain ⟨lb, hlb, hby⟩ := hfront b hb y hy
    rw [← hax, ← hby, h la hla, h lb hlb]
  · intro h l' hl'
    cases hv : l.findSome? v with
    | none =>
      have hv' : l'.findSome? v = none := by
        rw [List.findSome?_eq_none_iff] at hv ⊢
        exact fun x hx => hv x (hl'.mem_iff.mp hx)
      rw [hv']
    | some x =>
      obtain ⟨a, ha, hax⟩ := List.exists_of_findSome?_eq_some hv
      cases hv' : l'.findSome? v with
      | none =>
        have hnone := List.findSome?_eq_none_iff.mp hv' a (hl'.mem_iff.mpr ha)
        rw [hnone] at hax
        cases hax
      | some y =>
        obtain ⟨b, hb, hby⟩ := List.exists_of_findSome?_eq_some hv'
        have hyx : y = x := h b (hl'.mem_iff.mp hb) a ha y x hby hax
        rw [hyx]

/-- A scan for yes or no answers `x` iff some element says so in front of all
that say the opposite. -/
theorem findSome?_eq_some_bool_iff {v : A → Option Bool} (x : Bool) :
    l.findSome? v = some x ↔
      ∃ l₁ a l₂, l = l₁ ++ a :: l₂ ∧ v a = some x ∧ ∀ b ∈ l₁, v b ≠ some (!x) := by
  rw [List.findSome?_eq_some_iff]
  constructor
  · rintro ⟨l₁, a, l₂, rfl, ha, hl₁⟩
    refine ⟨l₁, a, l₂, rfl, ha, fun b hb => ?_⟩
    rw [hl₁ b hb]
    simp
  · rintro ⟨l₁, a, l₂, rfl, ha, hl₁⟩
    -- the first verdict is that of an element of `l₁`, or of `a`
    induction l₁ with
    | nil => exact ⟨[], a, l₂, rfl, ha, by simp⟩
    | cons b l₁ ih =>
      cases hb : v b with
      | none =>
        obtain ⟨m₁, c, m₂, heq, hc, hm⟩ := ih fun b hb => hl₁ b (List.mem_cons_of_mem _ hb)
        refine ⟨b :: m₁, c, m₂, by rw [List.cons_append, heq, List.cons_append], hc, ?_⟩
        intro d hd
        rcases List.mem_cons.mp hd with rfl | hd
        · exact hb
        · exact hm d hd
      | some y =>
        have hne : y ≠ !x := by
          have := hl₁ b (List.mem_cons_self ..)
          rw [hb] at this
          exact fun h => this (congrArg some h)
        have hy : y = x := by
          cases x <;> cases y <;> simp_all
        exact ⟨[], b, l₁ ++ a :: l₂, rfl, by rw [hb, hy], by simp⟩

end

/-! ### The first place that holds a value of a name -/

section

variable {P V N : Type} [LE P]

/-- `p` holds a value of the name, and no place before it does. -/
def Serves (held : P → Option V) (key : V → N) (p : P) (n : N) : Prop :=
  (∃ v, held p = some v ∧ key v = n) ∧
    ∀ q, q ≤ p → q ≠ p → ∀ v, held q = some v → key v ≠ n

/-- The value that the first place of the name holds. -/
def First (held : P → Option V) (key : V → N) (n : N) (v : V) : Prop :=
  ∃ p, Serves held key p n ∧ held p = some v

theorem First.key_eq {held : P → Option V} {key : V → N} {n : N} {v : V}
    (h : First held key n v) : key v = n := by
  obtain ⟨p, ⟨⟨w, hw, hkey⟩, -⟩, hv⟩ := h
  rw [hw, Option.some_inj] at hv
  rw [← hv]
  exact hkey

variable [Std.IsLinearOrder P]

/-- One place takes another value, of the name `n` if any. A name it did not serve before
is served by the same place as before. -/
theorem serves_congr {held held' : P → Option V} {key : V → N} {f : P} {n m : N}
    (hoff : ∀ p, p ≠ f → held' p = held p) (hkey : ∀ v, held' f = some v → key v = n)
    (hne : m ≠ n) (hserves : ¬ Serves held key f m) (p : P) :
    Serves held' key p m ↔ Serves held key p m := by
  constructor
  · rintro ⟨⟨v, hv, hvm⟩, hfirst⟩
    have hpf : p ≠ f := by
      rintro rfl
      exact hne (hvm.symm.trans (hkey v hv))
    refine ⟨⟨v, (hoff p hpf) ▸ hv, hvm⟩, fun q hqp hq w hw hwm => ?_⟩
    by_cases hqf : q = f
    · -- `f` came first before, so it served the name
      subst hqf
      refine hserves ⟨⟨w, hw, hwm⟩, fun r hrq hr u hu => ?_⟩
      have hrp : r ≠ p := fun h => hq (Std.le_antisymm hqp (h ▸ hrq))
      exact hfirst r (Std.le_trans hrq hqp) hrp u ((hoff r hr).trans hu)
    · exact hfirst q hqp hq w ((hoff q hqf).trans hw) hwm
  · rintro ⟨⟨v, hv, hvm⟩, hfirst⟩
    have hpf : p ≠ f := by
      rintro rfl
      exact hserves ⟨⟨v, hv, hvm⟩, hfirst⟩
    refine ⟨⟨v, (hoff p hpf).trans hv, hvm⟩, fun q hqp hq w hw hwm => ?_⟩
    by_cases hqf : q = f
    · rw [hqf] at hw
      exact hne (hwm.symm.trans (hkey w hw))
    · exact hfirst q hqp hq w ((hoff q hqf) ▸ hw) hwm

theorem first_congr {held held' : P → Option V} {key : V → N} {f : P} {n m : N}
    (hoff : ∀ p, p ≠ f → held' p = held p) (hkey : ∀ v, held' f = some v → key v = n)
    (hne : m ≠ n) (hserves : ¬ Serves held key f m) (v : V) :
    First held' key m v ↔ First held key m v := by
  refine exists_congr fun p => ?_
  rw [serves_congr hoff hkey hne hserves p]
  refine and_congr_right fun hp => ?_
  have hpf : p ≠ f := by
    rintro rfl
    exact hserves hp
  rw [hoff p hpf]

theorem First.unique {held : P → Option V} {key : V → N} {n : N} {v w : V}
    (hv : First held key n v) (hw : First held key n w) : v = w := by
  obtain ⟨p, ⟨⟨v', hv', hkey⟩, hfirst⟩, hp⟩ := hv
  obtain ⟨q, ⟨⟨w', hw', hkey'⟩, hfirst'⟩, hq⟩ := hw
  have heq : p = q := by
    by_contra hne
    rcases @Std.le_total P _ _ p q with hle | hle
    · exact hfirst' p hle hne v' hv' hkey
    · exact hfirst q hle (Ne.symm hne) w' hw' hkey'
  rw [heq, hq, Option.some_inj] at hp
  exact hp.symm

/-- The places without one of them. -/
def without [DecidableEq P] (held : P → Option V) (f : P) (p : P) : Option V :=
  if p = f then none else held p

theorem first_congr_without [DecidableEq P] {held held' : P → Option V} {key : V → N} {f : P}
    {n m : N} (hoff : ∀ p, p ≠ f → held' p = held p) (hkey : ∀ v, held' f = some v → key v = n)
    (hne : m ≠ n) (v : V) : First held' key m v ↔ First (without held f) key m v := by
  refine first_congr (fun p hp => (hoff p hp).trans (if_neg hp).symm) hkey hne ?_ v
  rintro ⟨⟨w, hw, -⟩, -⟩
  simp only [if_true] at hw
  cases hw

variable [DecidableEq P] [DecidableLE P] [DecidableEq N] {D : Type}

theorem findSome?_sorted_iff (m : GoMap P D) (read : P → D → Option V) (key : V → N) (n : N)
    (v : V) :
    (GoMap.sorted m).list.findSome? (fun e => (read e.1 e.2).filter fun v => key v = n) = some v ↔
      First (fun p => (m.lookup p).bind (read p)) key n v := by
  have hmem := (GoMap.sorted m).mem_list_iff
  have hnodup := (GoMap.sorted m).nodupKeys
  have hsorted := GoMap.pairwise_sorted m
  constructor
  · intro hfind
    obtain ⟨before, e, after, hlist, he, hbefore⟩ := List.findSome?_eq_some_iff.mp hfind
    obtain ⟨hread, hkey⟩ := Option.filter_eq_some_iff.mp he
    have hlookup : m.lookup e.1 = some e.2 :=
      (hmem e.1 e.2).mp (by rw [hlist]; exact List.mem_append_right _ (List.mem_cons_self ..))
    have hheld : (m.lookup e.1).bind (read e.1) = some v := by rw [hlookup]; exact hread
    refine ⟨e.1, ⟨⟨v, hheld, of_decide_eq_true hkey⟩, fun q hqe hq w hw hwn => ?_⟩, hheld⟩
    obtain ⟨d, hd, hwread⟩ := Option.bind_eq_some_iff.mp hw
    have hin : (⟨q, d⟩ : Σ _ : P, D) ∈ before ++ e :: after := by
      rw [← hlist]
      exact (hmem q d).mpr hd
    rw [hlist, List.pairwise_append, List.pairwise_cons] at hsorted
    rcases List.mem_append.mp hin with hin | hin
    · have hnone := hbefore _ hin
      rw [hwread, Option.filter_some, if_pos (decide_eq_true hwn)] at hnone
      cases hnone
    · rcases List.mem_cons.mp hin with hin | hin
      · exact hq (congrArg Sigma.fst hin)
      · exact hq (Std.le_antisymm hqe (hsorted.2.1.1 _ hin))
  · rintro ⟨p, ⟨⟨w, hw, hkey⟩, hfirst⟩, hv⟩
    rw [hw, Option.some_inj] at hv
    subst hv
    obtain ⟨d, hd, hread⟩ := Option.bind_eq_some_iff.mp hw
    obtain ⟨before, after, hlist⟩ := List.append_of_mem ((hmem p d).mpr hd)
    refine List.findSome?_eq_some_iff.mpr ⟨before, ⟨p, d⟩, after, hlist, ?_, fun e he => ?_⟩
    · rw [hread, Option.filter_some, if_pos (decide_eq_true hkey)]
    · rw [hlist, List.pairwise_append] at hsorted
      have hle : e.1 ≤ p := hsorted.2.2 e he ⟨p, d⟩ (List.mem_cons_self ..)
      have hne : e.1 ≠ p := by
        rw [hlist, List.nodupKeys_iff_pairwise, List.pairwise_append] at hnodup
        exact hnodup.2.2 e he ⟨p, d⟩ (List.mem_cons_self ..)
      have hlookup : m.lookup e.1 = some e.2 :=
        (hmem e.1 e.2).mp (by rw [hlist]; exact List.mem_append_left _ he)
      rw [Option.filter_eq_none_iff]
      intro u hu
      have hheld : (m.lookup e.1).bind (read e.1) = some u := by rw [hlookup]; exact hu
      exact decide_eq_true_iff.not.mpr (hfirst e.1 hle hne u hheld)

theorem exists_first (m : GoMap P D) (read : P → D → Option V) (key : V → N) {n : N} {p : P}
    {v : V} (hv : (m.lookup p).bind (read p) = some v) (hkey : key v = n) :
    ∃ w, First (fun p => (m.lookup p).bind (read p)) key n w := by
  obtain ⟨d, hd, hread⟩ := Option.bind_eq_some_iff.mp hv
  cases hfind : (GoMap.sorted m).list.findSome?
      (fun e => (read e.1 e.2).filter fun v => key v = n) with
  | some w => exact ⟨w, (findSome?_sorted_iff m read key n w).mp hfind⟩
  | none =>
    rw [List.findSome?_eq_none_iff] at hfind
    have hnone := hfind ⟨p, d⟩ (((GoMap.sorted m).mem_list_iff p d).mpr hd)
    rw [hread, Option.filter_some, if_pos (decide_eq_true hkey)] at hnone
    cases hnone

end

end GoLib
