import Konsul.Lib.GoMap
import Mathlib.Data.List.Basic
import Mathlib.Data.Set.Basic

/-!
# Points on a circle (consistent hashing)

The points of a circle are ordered, and a place on it belongs to the next point at or
after it, past the last point to the first. A point may have been given to several
owners, of which it keeps the last. Taking an owner's points away moves only the places
that were its own. The next point is found by binary search (sort.Search): `search n f` is
the smallest index below `n` at which `f` holds, `n` if there is none, for an `f` that stays
true once it is true.
-/

/-! ### Binary search -/

namespace GoLib

/-- The loop `for i < j`; `fuel` bounds its rounds. -/
def searchLoop (f : ℕ → Bool) : ℕ → ℕ → ℕ → ℕ
  | 0, i, _ => i
  | fuel + 1, i, j =>
    if i < j then
      let h := (i + j) / 2
      if f h then searchLoop f fuel i h else searchLoop f fuel (h + 1) j
    else i

/-- `sort.Search`. -/
def search (n : ℕ) (f : ℕ → Bool) : ℕ := searchLoop f n 0 n

/-- The index at which `f` turns true, below `n`. -/
def TurnsAt (f : ℕ → Bool) (n r : ℕ) : Prop :=
  r ≤ n ∧ (∀ k < r, f k = false) ∧ ∀ k, r ≤ k → k < n → f k = true

variable {f : ℕ → Bool} {n : ℕ}

theorem searchLoop_turnsAt (hmono : ∀ i j, i ≤ j → j < n → f i = true → f j = true) (fuel : ℕ)
    {i j : ℕ} (hfuel : j ≤ i + fuel) (hij : i ≤ j) (hj : j ≤ n) (hbelow : ∀ k < i, f k = false)
    (habove : ∀ k, j ≤ k → k < n → f k = true) : TurnsAt f n (searchLoop f fuel i j) := by
  induction fuel generalizing i j with
  | zero =>
    have heq : i = j := by omega
    subst heq
    exact ⟨hj, hbelow, habove⟩
  | succ fuel ih =>
    rw [searchLoop]
    by_cases hlt : i < j
    · rw [if_pos hlt]
      dsimp only
      by_cases hf : f ((i + j) / 2) = true
      · rw [if_pos hf]
        exact ih (by omega) (by omega) (by omega) hbelow fun k hk hkn => hmono _ k hk hkn hf
      · rw [if_neg hf]
        refine ih (by omega) (by omega) hj (fun k hk => ?_) habove
        -- an earlier index that held would hold at the middle too
        by_contra hk'
        exact hf (hmono k _ (by omega) (by omega) (by simpa using hk'))
    · rw [if_neg hlt]
      have heq : i = j := by omega
      subst heq
      exact ⟨hj, hbelow, habove⟩

theorem search_turnsAt (hmono : ∀ i j, i ≤ j → j < n → f i = true → f j = true) :
    TurnsAt f n (search n f) :=
  searchLoop_turnsAt hmono n (Nat.le_add_left n 0) (Nat.zero_le n) (Nat.le_refl n)
    (fun k hk => absurd hk (Nat.not_lt_zero k)) fun k hk hkn => absurd hkn (by omega)

example : search 5 (fun i => decide (9 ≤ [1, 3, 9, 9, 12].getD i 0)) = 2 := by decide

end GoLib

/-! ### The circle -/

namespace GoLib

namespace Circle

variable {P I : Type} [LE P]

/-- The point a place belongs to: the least at or after it, else the least of all. -/
def Next (points : Set P) (h p : P) : Prop :=
  p ∈ points ∧ ((h ≤ p ∧ ∀ q ∈ points, h ≤ q → p ≤ q) ∨
    ((∀ q ∈ points, ¬ h ≤ q) ∧ ∀ q ∈ points, p ≤ q))

variable {points fewer : Set P} {h p q : P}

theorem Next.unique [Std.Antisymm (α := P) (· ≤ ·)] (hp : Next points h p)
    (hq : Next points h q) : p = q := by
  obtain ⟨hmem, hp⟩ := hp
  obtain ⟨hmem', hq⟩ := hq
  rcases hp with ⟨hle, hleast⟩ | ⟨hnone, hleast⟩
  · rcases hq with ⟨hle', hleast'⟩ | ⟨hnone', -⟩
    · exact Std.Antisymm.antisymm _ _ (hleast q hmem' hle') (hleast' p hmem hle)
    · exact absurd hle (hnone' p hmem)
  · rcases hq with ⟨hle', -⟩ | ⟨-, hleast'⟩
    · exact absurd hle' (hnone q hmem')
    · exact Std.Antisymm.antisymm _ _ (hleast q hmem') (hleast' p hmem)

/-- A point that stays keeps its places. -/
theorem Next.of_subset (hp : Next points h p) (hsub : fewer ⊆ points) (hmem : p ∈ fewer) :
    Next fewer h p := by
  refine ⟨hmem, hp.2.imp (fun hnext => ?_) fun hwrap => ?_⟩
  · exact ⟨hnext.1, fun q hq => hnext.2 q (hsub hq)⟩
  · exact ⟨fun q hq => hwrap.1 q (hsub hq), fun q hq => hwrap.2 q (hsub hq)⟩

/-! ### Sorted lists of points -/

section

variable [DecidableLE P] {nodes : List P}

/-- Where the search for a place ends, past the last point at the first. -/
def indexOf (nodes : List P) (h : P) : ℕ :=
  let idx := search nodes.length fun i => nodes[i]?.any fun node => h ≤ node
  if idx = nodes.length then 0 else idx

theorem any_getElem_iff {i : ℕ} : (nodes[i]?.any fun node => h ≤ node) = true ↔
    ∃ p, nodes[i]? = some p ∧ h ≤ p := by
  rw [Option.any_eq_true]
  simp

variable [Std.IsLinearOrder P]

omit [DecidableLE P] in
theorem le_of_index (hsorted : nodes.Pairwise (· ≤ ·)) {i j : ℕ} (hij : i ≤ j)
    (hp : nodes[i]? = some p) (hq : nodes[j]? = some q) : p ≤ q := by
  rcases Nat.eq_or_lt_of_le hij with heq | hlt
  · subst heq
    rw [hp] at hq
    rw [Option.some.inj hq]
    exact Std.le_refl q
  · obtain ⟨hi, hpi⟩ := List.getElem?_eq_some_iff.mp hp
    obtain ⟨hj, hqj⟩ := List.getElem?_eq_some_iff.mp hq
    rw [← hpi, ← hqj]
    exact List.pairwise_iff_getElem.mp hsorted i j hi hj hlt

theorem next_indexOf (hsorted : nodes.Pairwise (· ≤ ·)) (hne : nodes ≠ []) (h : P) :
    ∃ p, nodes[indexOf nodes h]? = some p ∧ Next {q | q ∈ nodes} h p := by
  have hmono : ∀ i j, i ≤ j → j < nodes.length →
      (nodes[i]?.any fun node => h ≤ node) = true → (nodes[j]?.any fun node => h ≤ node) = true := by
    intro i j hij hj hi
    obtain ⟨p, hp, hle⟩ := any_getElem_iff.mp hi
    have hq := List.getElem?_eq_getElem hj
    exact any_getElem_iff.mpr ⟨_, hq, Std.le_trans hle (le_of_index hsorted hij hp hq)⟩
  obtain ⟨hr, hbelow, habove⟩ := search_turnsAt hmono
  unfold indexOf
  generalize search nodes.length (fun i => nodes[i]?.any fun node => h ≤ node) = r at hr hbelow habove
  dsimp only
  -- no point before the index is at or after the place
  have hearly : ∀ i < r, ∀ q, nodes[i]? = some q → ¬ h ≤ q := by
    intro i hi q hq hle
    exact Bool.false_ne_true ((hbelow i hi).symm.trans (any_getElem_iff.mpr ⟨q, hq, hle⟩))
  by_cases hend : r = nodes.length
  · rw [if_pos hend]
    have hpos : 0 < nodes.length := List.length_pos_iff.mpr hne
    refine ⟨_, List.getElem?_eq_getElem hpos, List.getElem_mem hpos, .inr ⟨?_, ?_⟩⟩
    · intro q hq
      obtain ⟨i, hi⟩ := List.mem_iff_getElem?.mp hq
      have hlt := (List.getElem?_eq_some_iff.mp hi).1
      exact hearly i (by omega) q hi
    · intro q hq
      obtain ⟨i, hi⟩ := List.mem_iff_getElem?.mp hq
      exact le_of_index hsorted (Nat.zero_le i) (List.getElem?_eq_getElem hpos) hi
  · rw [if_neg hend]
    have hlt : r < nodes.length := by omega
    obtain ⟨p, hp, hle⟩ := any_getElem_iff.mp (habove r (Nat.le_refl r) hlt)
    refine ⟨p, hp, List.mem_of_getElem? hp, .inl ⟨hle, fun q hq hhq => ?_⟩⟩
    obtain ⟨i, hi⟩ := List.mem_iff_getElem?.mp hq
    by_cases hir : r ≤ i
    · exact le_of_index hsorted hir hp hi
    · exact absurd hhq (hearly i (by omega) q hi)

end

/-! ### Owners -/

/-- The last owner a point was given to. -/
def owner [DecidableEq P] (given : List (P × I)) (p : P) : Option I := given.reverse.lookup p

/-- The owner of the point a place belongs to. -/
def Belongs [DecidableEq P] (given : List (P × I)) (h : P) (y : I) : Prop :=
  ∃ p, Next {q | q ∈ given.map Prod.fst} h p ∧ owner given p = some y

section

variable [DecidableEq P] {given : List (P × I)} {x y : I}

omit [LE P] in
theorem owner_eq_some_iff : owner given p = some y ↔
    ∃ before after, given = before ++ (p, y) :: after ∧ p ∉ after.map Prod.fst := by
  rw [owner, List.lookup_eq_some_iff]
  constructor
  · rintro ⟨after, before, heq, hafter⟩
    refine ⟨before.reverse, after.reverse, ?_, fun hp => ?_⟩
    · have hrev := congrArg List.reverse heq
      rwa [List.reverse_reverse, List.reverse_append, List.reverse_cons, List.append_assoc] at hrev
    · obtain ⟨e, he, hep⟩ := List.mem_map.mp hp
      exact bne_iff_ne.mp (hafter e (List.mem_reverse.mp he)) hep.symm
  · rintro ⟨before, after, heq, hafter⟩
    refine ⟨after.reverse, before.reverse, ?_, fun e he => ?_⟩
    · rw [heq, List.reverse_append, List.reverse_cons, List.append_assoc]
      rfl
    · refine bne_iff_ne.mpr fun hpe => hafter (List.mem_map.mpr ⟨e, List.mem_reverse.mp he, hpe.symm⟩)

omit [LE P] in
theorem owner_append (given more : List (P × I)) (p : P) :
    owner (given ++ more) p = (owner more p).or (owner given p) := by
  rw [owner, List.reverse_append, List.lookup_append]
  rfl

omit [LE P] in
theorem exists_owner (hp : p ∈ given.map Prod.fst) : ∃ y, owner given p = some y := by
  rw [← Option.isSome_iff_exists, owner, List.lookup_isSome_iff]
  obtain ⟨e, he, hep⟩ := List.mem_map.mp hp
  exact ⟨e, List.mem_reverse.mpr he, beq_iff_eq.mpr hep.symm⟩

omit [LE P] in
theorem owner_map {J : Type} (f : I → J) (h : owner given p = some y) :
    owner (given.map fun e => (e.1, f e.2)) p = some (f y) := by
  obtain ⟨before, after, heq, hafter⟩ := owner_eq_some_iff.mp h
  refine owner_eq_some_iff.mpr ⟨before.map fun e => (e.1, f e.2), after.map fun e => (e.1, f e.2),
    ?_, ?_⟩
  · rw [heq, List.map_append, List.map_cons]
  · rwa [List.map_map]

omit [LE P] in
theorem owner_filter (keep : P × I → Bool) (h : owner given p = some y) (hkeep : keep (p, y) = true) :
    owner (given.filter keep) p = some y := by
  obtain ⟨before, after, heq, hafter⟩ := owner_eq_some_iff.mp h
  refine owner_eq_some_iff.mpr ⟨before.filter keep, after.filter keep, ?_, fun hp => ?_⟩
  · rw [heq, List.filter_append, List.filter_cons_of_pos hkeep]
  · obtain ⟨e, he, hep⟩ := List.mem_map.mp hp
    exact hafter (List.mem_map.mpr ⟨e, List.mem_of_mem_filter he, hep⟩)

omit [LE P] in
/-- The map a loop of insertions builds. -/
theorem lookup_foldl_insert (given : List (P × I)) (m : GoMap P I) (p : P) :
    (given.foldl (fun m e => m.insert e.1 e.2) m).lookup p = (owner given p).or (m.lookup p) := by
  induction given generalizing m with
  | nil => rfl
  | cons e rest ih =>
    obtain ⟨q, y⟩ := e
    rw [List.foldl_cons, ih, GoMap.lookup_insert_ite, owner, owner, List.reverse_cons,
      List.lookup_append, Option.or_assoc]
    by_cases hp : p = q
    · simp [hp]
    · rw [List.lookup_cons, beq_false_of_ne hp, if_neg hp]
      rfl

omit [LE P] in
theorem card_foldl_insert (h : (given.map Prod.fst).Nodup) :
    (given.foldl (fun (m : GoMap P I) e => m.insert e.1 e.2) ∅).keys.card = given.length := by
  have hkeys : (given.foldl (fun (m : GoMap P I) e => m.insert e.1 e.2) ∅).keys =
      (given.map Prod.fst).toFinset := by
    ext p
    rw [Finmap.mem_keys, ← Finmap.lookup_isSome, lookup_foldl_insert, Finmap.lookup_empty,
      Option.or_none, List.mem_toFinset]
    constructor
    · intro hsome
      obtain ⟨y, hy⟩ := Option.isSome_iff_exists.mp hsome
      obtain ⟨before, after, heq, -⟩ := owner_eq_some_iff.mp hy
      rw [heq]
      simp
    · intro hp
      obtain ⟨y, hy⟩ := exists_owner hp
      exact Option.isSome_iff_exists.mpr ⟨y, hy⟩
  rw [hkeys, List.toFinset_card_of_nodup h, List.length_map]

/-- A place at a point belongs to that point. -/
theorem belongs_of_point [Std.IsLinearOrder P] (h : owner given p = some y) : Belongs given p y := by
  refine ⟨p, ⟨?_, .inl ⟨Std.le_refl p, fun q _ hq => hq⟩⟩, h⟩
  obtain ⟨before, after, heq, -⟩ := owner_eq_some_iff.mp h
  rw [heq]
  simp

theorem Belongs.unique [Std.Antisymm (α := P) (· ≤ ·)] (hx : Belongs given h x)
    (hy : Belongs given h y) : x = y := by
  obtain ⟨p, hp, hpx⟩ := hx
  obtain ⟨q, hq, hqy⟩ := hy
  rw [hp.unique hq] at hpx
  exact Option.some.inj (hpx.symm.trans hqy)

/-- A place stays with its owner when points of others go. -/
theorem Belongs.filter (keep : P × I → Bool) (hy : Belongs given h y)
    (hkeep : ∀ p, keep (p, y) = true) : Belongs (given.filter keep) h y := by
  obtain ⟨p, hp, howner⟩ := hy
  have hkept := owner_filter keep howner (hkeep p)
  refine ⟨p, hp.of_subset (fun q hq => ?_) ?_, hkept⟩
  · obtain ⟨e, he, heq⟩ := List.mem_map.mp hq
    exact List.mem_map.mpr ⟨e, List.mem_of_mem_filter he, heq⟩
  · obtain ⟨before, after, heq, -⟩ := owner_eq_some_iff.mp hkept
    rw [heq]
    simp

end

end Circle

end GoLib
