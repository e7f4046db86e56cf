import Konsul.Lib.Path

/-!
# Cleaned paths as stacks of elements

`path.Clean` reads a path element by element onto a stack and writes the stack down.
What it writes determines the stack, so that two paths clean alike just when their
elements lead to one place.
-/

namespace GoLib

theorem split_join {sep : UInt8} {l : List Bytes} (hne : l ≠ []) (h : ∀ w ∈ l, sep ∉ w) :
    split sep (join sep l) = l := by
  induction l with
  | nil => exact absurd rfl hne
  | cons w ws ih =>
    have hw : split sep w = [w] := split_of_notMem (h w (List.mem_cons_self ..))
    cases ws with
    | nil => exact hw
    | cons v vs =>
      have hrest := ih (List.cons_ne_nil v vs) fun u hu => h u (List.mem_cons_of_mem w hu)
      rw [join, split_append, hw, hrest, List.singleton_append]
      exact List.cons_ne_nil v vs

theorem join_concat_append (sep : UInt8) (init : List Bytes) (last w : Bytes) :
    join sep (init ++ [last]) ++ w = join sep (init ++ [last ++ w]) := by
  induction init with
  | nil => rfl
  | cons v vs ih =>
    have hne : ∀ u : Bytes, vs ++ [u] ≠ [] := fun u => List.append_ne_nil_of_right_ne_nil vs (by simp)
    rw [List.cons_append, List.cons_append, join, join, ← ih, List.append_assoc, List.cons_append]
    · exact hne _
    · exact hne _

/-- A text without the separator goes to the last element. -/
theorem split_append_of_notMem {sep : UInt8} {s w : Bytes} {init : List Bytes} {last : Bytes}
    (hsplit : split sep s = init ++ [last]) (h : sep ∉ w) :
    split sep (s ++ w) = init ++ [last ++ w] := by
  have hmem : ∀ v ∈ init ++ [last], sep ∉ v := by
    rw [← hsplit]
    exact fun v hv => notMem_of_mem_split hv
  have hall : ∀ v ∈ init ++ [last ++ w], sep ∉ v := by
    intro v hv
    rcases List.mem_append.mp hv with hv | hv
    · exact hmem v (List.mem_append_left _ hv)
    · rw [List.mem_singleton.mp hv, List.mem_append, not_or]
      exact ⟨hmem last (List.mem_append_right _ (List.mem_singleton_self _)), h⟩
  rw [← join_split sep s, hsplit, join_concat_append]
  exact split_join (by simp) hall

namespace Path

/-- The stack after the elements of a path, the last element on top. -/
def kept (rooted : Bool) (stack : List Bytes) (p : Bytes) : List Bytes :=
  (split slash p).foldl (cleanElem rooted) stack

/-- The path a stack is written as. -/
def render (rooted : Bool) (stack : List Bytes) : Bytes :=
  let out := join slash stack.reverse
  if rooted then slash :: out else if out = [] then dot else out

theorem clean_eq (p : Bytes) :
    clean p = render (hasPrefix p [slash]) (kept (hasPrefix p [slash]) [] p) := rfl

theorem clean_ne_nil (p : Bytes) : clean p ≠ [] := by
  rw [clean_eq, render]
  cases hasPrefix p [slash] with
  | true => exact List.cons_ne_nil _ _
  | false =>
    simp only [Bool.false_eq_true, ite_false]
    split_ifs with h
    · exact List.cons_ne_nil _ _
    · exact h

/-- An element that stays on the stack. -/
structure IsElement (e : Bytes) : Prop where
  nonempty : e ≠ []
  notDot : e ≠ dot
  noSlash : slash ∉ e

theorem isElement_of_length {e : Bytes} (h : 1 < e.length) (hslash : slash ∉ e) : IsElement e := by
  refine ⟨fun hnil => ?_, fun hdot => ?_, hslash⟩
  · rw [hnil] at h
    exact absurd h (by decide)
  · rw [hdot] at h
    exact absurd h (by decide)

theorem isElement_cleanElem {rooted : Bool} {stack : List Bytes} {e : Bytes} (he : slash ∉ e)
    (h : ∀ w ∈ stack, IsElement w) : ∀ w ∈ cleanElem rooted stack e, IsElement w := by
  intro w hw
  unfold cleanElem at hw
  by_cases hempty : e = [] ∨ e = dot
  · rw [if_pos hempty] at hw
    exact h w hw
  rw [if_neg hempty] at hw
  by_cases hdots : e = dotdot
  · rw [if_pos hdots] at hw
    have hdotdot : IsElement dotdot := ⟨by decide, by decide, by decide⟩
    cases stack with
    | nil =>
      cases rooted with
      | true => cases hw
      | false =>
        have heq : w = dotdot := List.mem_singleton.mp hw
        rw [heq]
        exact hdotdot
    | cons last rest =>
      dsimp only at hw
      split_ifs at hw
      · rcases List.mem_cons.mp hw with rfl | hw
        · exact hdotdot
        · exact h w hw
      · exact h w (List.mem_cons_of_mem last hw)
  · rw [if_neg hdots] at hw
    rw [not_or] at hempty
    rcases List.mem_cons.mp hw with rfl | hw
    · exact ⟨hempty.1, hempty.2, he⟩
    · exact h w hw

theorem isElement_foldl {rooted : Bool} {stack es : List Bytes} (hes : ∀ e ∈ es, slash ∉ e)
    (h : ∀ w ∈ stack, IsElement w) : ∀ w ∈ es.foldl (cleanElem rooted) stack, IsElement w := by
  induction es generalizing stack with
  | nil => exact h
  | cons e es ih =>
    exact ih (fun e' he' => hes e' (List.mem_cons_of_mem e he'))
      (isElement_cleanElem (hes e (List.mem_cons_self ..)) h)

theorem isElement_kept {rooted : Bool} {stack : List Bytes} (h : ∀ w ∈ stack, IsElement w)
    (p : Bytes) : ∀ w ∈ kept rooted stack p, IsElement w :=
  isElement_foldl (fun _ he => notMem_of_mem_split he) h

/-- An element that is not `..` is put on the stack. -/
theorem cleanElem_of_isElement {rooted : Bool} {stack : List Bytes} {e : Bytes} (h : IsElement e)
    (hdotdot : e ≠ dotdot) : cleanElem rooted stack e = e :: stack := by
  unfold cleanElem
  rw [if_neg (not_or.mpr ⟨h.nonempty, h.notDot⟩), if_neg hdotdot]

theorem kept_join {rooted : Bool} {stack es : List Bytes} (hes : ∀ e ∈ es, slash ∉ e) :
    kept rooted stack (join slash es) = es.foldl (cleanElem rooted) stack := by
  cases es with
  | nil => rfl
  | cons e es => rw [kept, split_join (List.cons_ne_nil e es) hes]

theorem kept_append_slash (rooted : Bool) (stack : List Bytes) (p q : Bytes) :
    kept rooted stack (p ++ slash :: q) = kept rooted (kept rooted stack p) q := by
  rw [kept, split_append, List.foldl_append]
  rfl

theorem hasPrefix_append_slash {p : Bytes} (hp : p ≠ []) (q : Bytes) :
    hasPrefix (p ++ q) [slash] = hasPrefix p [slash] := by
  cases p with
  | nil => exact absurd rfl hp
  | cons b p => simp [hasPrefix, List.isPrefixOf]

/-- A path below another is read from the place the other leads to. -/
theorem clean_append {p : Bytes} (hp : p ≠ []) (q : Bytes) :
    clean (p ++ slash :: q) = render (hasPrefix p [slash])
      (kept (hasPrefix p [slash]) (kept (hasPrefix p [slash]) [] p) q) := by
  rw [clean_eq, hasPrefix_append_slash hp, kept_append_slash]

theorem join_eq_nil {l : List Bytes} (h : ∀ w ∈ l, IsElement w) (hjoin : join slash l = []) :
    l = [] := by
  cases l with
  | nil => rfl
  | cons w ws =>
    have hw := (h w (List.mem_cons_self ..)).nonempty
    cases ws with
    | nil => exact absurd hjoin hw
    | cons v vs => simp [join] at hjoin

theorem join_injective {l l' : List Bytes} (h : ∀ w ∈ l, IsElement w)
    (h' : ∀ w ∈ l', IsElement w) (hjoin : join slash l = join slash l') : l = l' := by
  by_cases hl : l = []
  · rw [hl] at hjoin ⊢
    exact (join_eq_nil h' hjoin.symm).symm
  · have hl' : l' ≠ [] := fun hnil => hl (join_eq_nil h (hjoin.trans (by rw [hnil]; rfl)))
    rw [← split_join hl fun w hw => (h w hw).noSlash,
      ← split_join hl' fun w hw => (h' w hw).noSlash, hjoin]

theorem join_ne_dot {l : List Bytes} (h : ∀ w ∈ l, IsElement w) : join slash l ≠ dot := by
  intro hjoin
  have hdot : split slash dot = [dot] := by decide
  by_cases hl : l = []
  · rw [hl] at hjoin
    cases hjoin
  · have hsplit := split_join hl fun w hw => (h w hw).noSlash
    rw [hjoin, hdot] at hsplit
    rw [← hsplit] at h
    exact (h dot (List.mem_singleton_self dot)).notDot rfl

/-- What is written determines the stack. -/
theorem render_injective {rooted : Bool} {stack stack' : List Bytes}
    (h : ∀ w ∈ stack, IsElement w) (h' : ∀ w ∈ stack', IsElement w)
    (heq : render rooted stack = render rooted stack') : stack = stack' := by
  have hrev : ∀ w ∈ stack.reverse, IsElement w := fun w hw => h w (List.mem_reverse.mp hw)
  have hrev' : ∀ w ∈ stack'.reverse, IsElement w := fun w hw => h' w (List.mem_reverse.mp hw)
  have hjoin : join slash stack.reverse = join slash stack'.reverse := by
    unfold render at heq
    cases rooted with
    | true => exact (List.cons.inj heq).2
    | false =>
      simp only [Bool.false_eq_true, ite_false] at heq
      split_ifs at heq with hnil hnil' hnil'
      · rw [hnil, hnil']
      · exact absurd heq.symm (join_ne_dot hrev')
      · exact absurd heq (join_ne_dot hrev)
      · exact heq
  exact List.reverse_injective (join_injective hrev hrev' hjoin)

/-! ### The slashes of a cleaned path -/

theorem count_join {sep : UInt8} {l : List Bytes} (h : ∀ w ∈ l, sep ∉ w) :
    (join sep l).count sep = l.length - 1 := by
  induction l with
  | nil => rfl
  | cons w ws ih =>
    rw [List.forall_mem_cons] at h
    have hw := List.count_eq_zero.mpr h.1
    cases ws with
    | nil => exact hw
    | cons v vs =>
      have hrest := ih h.2
      rw [join, List.count_append, List.count_cons_self, hw, hrest]
      · simp only [List.length_cons]
        omega
      · exact List.cons_ne_nil v vs

theorem count_split (sep : UInt8) (p : Bytes) : p.count sep = (split sep p).length - 1 := by
  have hcount : (join sep (split sep p)).count sep = _ := count_join fun _ hw => notMem_of_mem_split hw
  rwa [join_split] at hcount

theorem cleanElem_cases (rooted : Bool) (stack : List Bytes) (e : Bytes) :
    cleanElem rooted stack e = e :: stack ∨ (cleanElem rooted stack e).length ≤ stack.length := by
  unfold cleanElem
  by_cases hempty : e = [] ∨ e = dot
  · rw [if_pos hempty]
    exact .inr (le_refl _)
  rw [if_neg hempty]
  by_cases hdots : e = dotdot
  · rw [if_pos hdots, hdots]
    cases stack with
    | nil =>
      cases rooted with
      | true => exact .inr (le_refl _)
      | false => exact .inl rfl
    | cons last rest =>
      dsimp only
      split_ifs
      · exact .inl rfl
      · exact .inr (Nat.le_succ _)
  · rw [if_neg hdots]
    exact .inl rfl

/-- An element that does not stay makes the stack smaller than the path is deep. -/
theorem foldl_cleanElem_cases (rooted : Bool) (stack es : List Bytes) :
    es.foldl (cleanElem rooted) stack = es.reverse ++ stack ∨
      (es.foldl (cleanElem rooted) stack).length < es.length + stack.length := by
  induction es generalizing stack with
  | nil => exact .inl rfl
  | cons e es ih =>
    rw [List.foldl_cons, List.reverse_cons, List.append_assoc, List.singleton_append,
      List.length_cons]
    rcases cleanElem_cases rooted stack e with hkept | hless
    · rw [hkept]
      rcases ih (e :: stack) with heq | hlt
      · exact .inl heq
      · rw [List.length_cons] at hlt
        exact .inr (by omega)
    · rcases ih (cleanElem rooted stack e) with heq | hlt
      · rw [heq, List.length_append, List.length_reverse]
        exact .inr (by omega)
      · exact .inr (by omega)

theorem split_slash_cons (q : Bytes) : split slash (slash :: q) = [] :: split slash q := by
  rw [← List.nil_append (slash :: q), split_append]
  rfl

theorem count_render {rooted : Bool} {stack : List Bytes} (h : ∀ w ∈ stack, IsElement w) :
    (render rooted stack).count slash = (if rooted then 1 else 0) + (stack.length - 1) := by
  have hrev : ∀ w ∈ stack.reverse, IsElement w := fun w hw => h w (List.mem_reverse.mp hw)
  have hcount := count_join fun w hw => (hrev w hw).noSlash
  rw [List.length_reverse] at hcount
  unfold render
  cases rooted with
  | true =>
    have hcons : (slash :: join slash stack.reverse).count slash = _ := List.count_cons_self
    simp only [ite_true]
    omega
  | false =>
    simp only [Bool.false_eq_true, ite_false]
    split_ifs with hnil
    · rw [List.reverse_eq_nil_iff.mp (join_eq_nil hrev hnil)]
      rfl
    · omega

/-- The elements of a single name that do not stay. -/
theorem name_of_foldl_nil {rooted : Bool} {e : Bytes} (h : cleanElem rooted [] e = []) :
    e = [] ∨ e = dot ∨ (rooted = true ∧ e = dotdot) := by
  unfold cleanElem at h
  by_cases hempty : e = [] ∨ e = dot
  · exact hempty.imp_right .inl
  rw [if_neg hempty] at h
  by_cases hdots : e = dotdot
  · rw [if_pos hdots] at h
    cases rooted with
    | true => exact .inr (.inr ⟨rfl, hdots⟩)
    | false => cases h
  · rw [if_neg hdots] at h
    cases h

/-- The paths that are cleaned without a slash less. -/
def flat : List Bytes := [[], [slash, 0x2E], [slash, 0x2E, 0x2E]]

/-- Every other path that is not clean has more slashes than it has cleaned. -/
theorem count_clean_lt {p : Bytes} (hclean : clean p ≠ p) (hflat : p ∉ flat) :
    (clean p).count slash < p.count slash := by
  -- the path as the stack of all its elements
  obtain ⟨rooted, body, hrooted, hkept, hp, hcount⟩ : ∃ rooted body,
      hasPrefix p [slash] = rooted ∧
      kept rooted [] p = (split slash body).foldl (cleanElem rooted) [] ∧
      (if rooted then slash :: body else body) = p ∧
      p.count slash = (if rooted then 1 else 0) + ((split slash body).length - 1) := by
    cases hrooted : hasPrefix p [slash] with
    | false => exact ⟨false, p, rfl, rfl, rfl, by rw [count_split]; exact (Nat.zero_add _).symm⟩
    | true =>
      obtain ⟨body, rfl⟩ := List.isPrefixOf_iff_prefix.mp hrooted
      refine ⟨true, body, rfl, ?_, rfl, ?_⟩
      · rw [kept, List.singleton_append, split_slash_cons]
        rfl
      · rw [List.singleton_append, List.count_cons_self, count_split, Nat.add_comm]
        rfl
  have helements : ∀ w ∈ kept rooted [] p, IsElement w :=
    isElement_kept (fun _ h => absurd h List.not_mem_nil) p
  have hlength := List.length_pos_iff.mpr (split_ne_nil slash body)
  rw [clean_eq, hrooted] at hclean ⊢
  rw [count_render helements, hcount]
  rw [hkept] at hclean ⊢
  rcases foldl_cleanElem_cases rooted [] (split slash body) with hall | hless
  · -- every element has stayed
    refine absurd ?_ hclean
    rw [hall, List.append_nil, render, List.reverse_reverse, join_split]
    cases rooted with
    | true => exact hp
    | false =>
      have hne : body ≠ [] := fun hnil => hflat (by rw [← hp, hnil]; exact List.mem_cons_self)
      exact (if_neg hne).trans hp
  · rw [List.length_nil, Nat.add_zero] at hless
    by_cases hone : (split slash body).length = 1
    · -- a single name that has not stayed
      obtain ⟨e, he⟩ := List.length_eq_one_iff.mp hone
      have hbody : e = body := by
        rw [← join_split slash body, he]
        rfl
      rw [hbody] at he
      rw [he, List.length_singleton, Nat.lt_one_iff, List.length_eq_zero_iff, List.foldl_cons,
        List.foldl_nil] at hless
      rw [he, List.foldl_cons, List.foldl_nil, hless] at hclean
      rcases name_of_foldl_nil hless with rfl | rfl | ⟨rfl, rfl⟩
      · cases rooted with
        | true => exact absurd hp hclean
        | false => exact absurd (hp ▸ List.mem_cons_self) hflat
      · cases rooted with
        | true => exact absurd (hp ▸ List.mem_cons_of_mem _ List.mem_cons_self) hflat
        | false => exact absurd hp hclean
      · refine absurd ?_ hflat
        rw [← hp]
        exact List.mem_cons_of_mem _ (List.mem_cons_of_mem _ List.mem_cons_self)
    · omega

end Path

end GoLib
