import Konsul.Acl.Expressions
import Konsul.Lib.GlobChars
import Konsul.Lib.RegexpTokens

/-!
# What the patterns of a policy match

The expression of a pattern without metacharacters is a sequence of characters and starred
classes between the start and the end of the text. It matches what the glob of the pattern
accepts, but that a dot stands for no newline.
-/

namespace Konsul

open GoLib Utf8 Syntax

/-! ### Patterns read one character at a time -/

/-- Behind every `back` stands one of the letters. -/
def followed {α : Type*} [DecidableEq α] (back : α) (letters : List α) : List α → Bool
  | [] => true
  | a :: s => (a ≠ back || s.head?.any (· ∈ letters)) && followed back letters s

/-- The characters that are no operators where they follow a quoted backslash. -/
def closers : List Char := [']', '{', '}']

/-- Every backslash stands before `]`, `{` or `}`. -/
def Guarded (cs : List Char) : Prop := followed '\\' closers cs = true

def GuardedSymbols (us : List (Option Char)) : Prop :=
  followed (some '\\') (closers.map some) us = true

theorem followed_cons {α : Type*} [DecidableEq α] {back : α} {letters : List α} {a : α}
    {s : List α} : followed back letters (a :: s) = true ↔
      (a = back → ∃ b ∈ s.head?, b ∈ letters) ∧ followed back letters s = true := by
  rw [followed, Bool.and_eq_true, Bool.or_eq_true, decide_eq_true_iff]
  refine and_congr_left' ?_
  simp [Option.any_eq_true, imp_iff_not_or]

theorem guarded_of_notMem {cs : List Char} (h : '\\' ∉ cs) : Guarded cs := by
  induction cs with
  | nil => rfl
  | cons c cs ih =>
    rw [List.mem_cons, not_or] at h
    exact followed_cons.mpr ⟨fun heq => absurd heq.symm h.1, ih h.2⟩

/-! ### Tokens -/

def operators : List Char := ['|', '^', '$']

/-- The tokens of a symbol. -/
def symbolTokens : Option Char → List Token
  | none => starred notNewline
  | some c =>
    if c = '*' then starred notSlash
    else if c ∈ operators then (operator c).toList else [.item (char c)]

/-- What a symbol matches. -/
def symbolItem : Option Char → Glob.Item Char
  | none => .run notNewline
  | some c => if c = '*' then .run notSlash else .lit c

theorem kvText_head (o : Option Char) : ∃ c t, kvText o = c :: t ∧ c ≠ '?' := by
  cases o with
  | none => exact ⟨'.', ['*'], rfl, by decide⟩
  | some c =>
    rw [kvText, Option.elim, kvChar, escaped]
    split_ifs with hstar hspecial
    · exact ⟨'[', ['^', '/', ']', '*'], rfl, by decide⟩
    · exact ⟨'\\', [c], rfl, by decide⟩
    · refine ⟨c, [], rfl, fun heq => hspecial ?_⟩
      rw [heq]
      decide

theorem head_flatMap_kvText (us : List (Option Char)) {t : List Char} (h : t.head? ≠ some '?') :
    (us.flatMap kvText ++ t).head? ≠ some '?' := by
  cases us with
  | nil => exact h
  | cons o us =>
    obtain ⟨c, s, hc, hne⟩ := kvText_head o
    rw [List.flatMap_cons, hc]
    exact fun heq => hne (Option.some.inj heq)

theorem special_spec :
    ∀ c ∈ specials, c ∉ operators ∧ c.toNat < 0x80 ∧ c.isAlphanum = false :=
  List.all_iff_forall_prop.mp (by decide)

theorem operator_spec : ∀ c ∈ operators, (operator c).isSome :=
  List.all_eq_true.mp (by decide)

section

variable {category : Char → Char → Bool} {t : List Char}

/-- A character that is no star and no backslash, at the place of an item. -/
theorem tokens_kvChar {c : Char} (hstar : c ≠ '*') (hback : c ≠ '\\') (t : List Char) :
    tokens category (kvChar c ++ t) = (tokens category t).map (symbolTokens (some c) ++ ·) := by
  rw [symbolTokens, if_neg hstar, kvChar, if_neg hstar, escaped]
  by_cases hspecial : c ∈ specials
  · have hplain := special_spec c hspecial
    rw [if_pos hspecial, if_neg hplain.1]
    exact tokens_escaped hplain.2.1 hplain.2.2 t
  · rw [if_neg hspecial, List.singleton_append]
    simp only [specials, List.mem_cons, List.not_mem_nil, or_false, not_or] at hspecial
    by_cases hoperator : c ∈ operators
    · obtain ⟨token, htoken⟩ := Option.isSome_iff_exists.mp (operator_spec c hoperator)
      rw [if_pos hoperator, htoken]
      exact tokens_operator htoken t
    · rw [if_neg hoperator]
      simp only [operators, List.mem_cons, List.not_mem_nil, or_false, not_or] at hoperator
      refine tokens_char ?_ ?_ hspecial.2.2.2.1 hback t
      · simp [Syntax.operator, hspecial, hoperator]
      · simp [repetition, hspecial, hstar]

theorem closers_spec : ∀ c ∈ closers, kvChar c = ['\\', c] ∧ operator c = none ∧
    repetition c = none ∧ c ≠ '[' ∧ c ≠ '\\' ∧ c ≠ '*' ∧ c ∉ operators := by
  have hdecidable : ∀ c ∈ closers, kvChar c = ['\\', c] ∧ (operator c).isNone ∧
      repetition c = none ∧ c ≠ '[' ∧ c ≠ '\\' ∧ c ≠ '*' ∧ c ∉ operators :=
    List.all_iff_forall_prop.mp (by decide)
  intro c hc
  obtain ⟨htext, hoperator, hrest⟩ := hdecidable c hc
  exact ⟨htext, Option.isNone_iff_eq_none.mp hoperator, hrest⟩

/-- A quoted backslash takes the backslash of the character behind it. -/
theorem tokens_backslash {c : Char} (hc : c ∈ closers) (t : List Char) :
    tokens category (kvChar '\\' ++ (kvChar c ++ t)) =
      (tokens category t).map (symbolTokens (some '\\') ++ symbolTokens (some c) ++ ·) := by
  obtain ⟨htext, hoperator, hrepetition, hbracket, hback, hstar, hnot⟩ := closers_spec c hc
  have hfirst : symbolTokens (some '\\') = [.item (char '\\')] := rfl
  rw [htext, hfirst, symbolTokens, if_neg hstar, if_neg hnot]
  change tokens category ('\\' :: '\\' :: c :: t) = _
  rw [tokens_escaped (by decide) (by decide), tokens_char hoperator hrepetition hbracket hback,
    Option.map_map]
  rfl

theorem tokens_symbols {us : List (Option Char)} (h : GuardedSymbols us)
    (ht : t.head? ≠ some '?') :
    tokens category (us.flatMap kvText ++ t) =
      (tokens category t).map (us.flatMap symbolTokens ++ ·) := by
  induction hn : us.length using Nat.strong_induction_on generalizing us with
  | _ n ih =>
    cases us with
    | nil => simp
    | cons o us =>
      obtain ⟨hfirst, hrest⟩ := followed_cons.mp h
      rw [List.length_cons] at hn
      have htail := ih us.length (by omega) hrest rfl
      have hhead := head_flatMap_kvText us ht
      rw [List.flatMap_cons, List.append_assoc, List.flatMap_cons]
      cases o with
      | none =>
        change tokens category (['.', '*'] ++ _) = _
        rw [tokens_notNewline hhead, htail, Option.map_map]
        simp [symbolTokens, Function.comp_def]
      | some c =>
        change tokens category (kvChar c ++ _) = _
        by_cases hstar : c = '*'
        · subst hstar
          change tokens category (['[', '^', '/', ']', '*'] ++ _) = _
          rw [tokens_notSlash hhead, htail, Option.map_map]
          simp [symbolTokens, Function.comp_def]
        by_cases hback : c = '\\'
        · -- the closing character behind the backslash is taken with it
          obtain ⟨o', ho', hmem⟩ := hfirst (congrArg some hback)
          cases us with
          | nil => cases ho'
          | cons o us =>
            cases ho'
            obtain ⟨d, hd, rfl⟩ := List.mem_map.mp hmem
            rw [List.length_cons] at hn
            have htail := ih us.length (by omega) (followed_cons.mp hrest).2 rfl
            rw [hback, List.flatMap_cons, List.append_assoc]
            change tokens category (kvChar '\\' ++ (kvChar d ++ _)) = _
            rw [tokens_backslash hd, htail, Option.map_map]
            simp [Function.comp_def]
        · rw [tokens_kvChar hstar hback, htail, Option.map_map]
          simp [Function.comp_def]

end

/-! ### The anchors -/

theorem anchored_cases (expr : List Char) : ∃ front back,
    anchored expr = front ++ (expr ++ back) ∧ (front = [] ∨ front = ['^']) ∧
      (back = [] ∨ back = ['$']) := by
  rw [anchored]
  split_ifs
  · exact ⟨[], [], by simp⟩
  · exact ⟨[], ['$'], by simp⟩
  · exact ⟨['^'], [], by simp⟩
  · exact ⟨['^'], ['$'], by simp⟩

/-- No character is an operator that the replacements leave alone. -/
def Inert (us : List (Option Char)) : Prop := ∀ c, some c ∈ us → c ∉ operators

theorem kvText_ends {o : Option Char} (h : ∀ c, o = some c → c ∉ operators) :
    (kvText o).head? ≠ some '^' ∧ (kvText o).getLast? ≠ some '$' := by
  cases o with
  | none => decide
  | some c =>
    have hc := h c rfl
    simp only [operators, List.mem_cons, List.not_mem_nil, or_false, not_or] at hc
    rw [kvText, Option.elim, kvChar, escaped]
    split_ifs
    · decide
    · refine ⟨fun heq => ?_, fun heq => hc.2.2 (Option.some.inj heq)⟩
      exact absurd (Option.some.inj heq) (by decide)
    · exact ⟨fun heq => hc.2.1 (Option.some.inj heq), fun heq => hc.2.2 (Option.some.inj heq)⟩

theorem anchored_inert {us : List (Option Char)} (h : Inert us) :
    anchored (us.flatMap kvText) = '^' :: (us.flatMap kvText ++ ['$']) := by
  have hfront : ¬ ['^'] <+: us.flatMap kvText := by
    rintro ⟨t, ht⟩
    cases us with
    | nil => cases ht
    | cons o us =>
      obtain ⟨c, s, hc, -⟩ := kvText_head o
      have hhead := (kvText_ends fun c hc => h c (hc ▸ List.mem_cons_self)).1
      rw [List.flatMap_cons, hc] at ht
      rw [hc] at hhead
      exact hhead (congrArg some (List.cons.inj ht).1.symm)
  have hback : ¬ ['$'] <:+ '^' :: us.flatMap kvText := by
    rintro ⟨t, ht⟩
    have hlast := congrArg List.getLast? ht
    rcases List.eq_nil_or_concat us with rfl | ⟨us, o, rfl⟩
    · simp at hlast
    · obtain ⟨c, s, hc, -⟩ := kvText_head o
      have hlastSymbol : ∀ c, o = some c → c ∉ operators := fun c hc =>
        h c (by simp [hc])
      have hend := (kvText_ends hlastSymbol).2
      have hne : kvText o ≠ [] := hc ▸ List.cons_ne_nil c s
      rw [List.concat_eq_append, List.flatMap_append, List.flatMap_singleton, List.getLast?_concat,
        ← List.cons_append, List.getLast?_append_of_ne_nil _ hne] at hlast
      exact hend hlast.symm
  rw [anchored, if_neg hfront, if_neg hback]
  rfl

/-! ### What an inert pattern matches -/

theorem pushAll_append (st : Stack) (xs ys : List Token) :
    pushAll st (xs ++ ys) = (pushAll st xs).bind fun st => pushAll st ys :=
  List.foldlM_append

theorem pushAll_symbols {us : List (Option Char)} (h : Inert us) (st : Stack) :
    ∃ after, pushAll st (us.flatMap symbolTokens) =
      some ⟨⟨st.frame.alts, ((us.map symbolItem).map ofItem).reverse ++ st.frame.items⟩,
        st.outer, after⟩ := by
  induction us generalizing st with
  | nil => exact ⟨st.afterRepeat, rfl⟩
  | cons o us ih =>
    have hone : ∃ after, pushAll st (symbolTokens o) =
        some ⟨⟨st.frame.alts, ofItem (symbolItem o) :: st.frame.items⟩, st.outer, after⟩ := by
      cases o with
      | none => exact ⟨true, rfl⟩
      | some c =>
        rw [symbolTokens, symbolItem]
        split_ifs with hstar hoperator
        · exact ⟨true, rfl⟩
        · exact absurd hoperator (h c List.mem_cons_self)
        · exact ⟨false, rfl⟩
    obtain ⟨after, hafter⟩ := hone
    obtain ⟨after', hafter'⟩ := ih (fun c hc => h c (List.mem_cons_of_mem o hc))
      ⟨⟨st.frame.alts, ofItem (symbolItem o) :: st.frame.items⟩, st.outer, after⟩
    refine ⟨after', ?_⟩
    rw [List.flatMap_cons, pushAll_append, hafter, Option.bind_some, hafter']
    simp

/-- The expression of an inert pattern compiles and matches what its symbols match. -/
theorem compile_inert (category : Char → Char → Bool) {us : List (Option Char)}
    (hguarded : GuardedSymbols us) (h : Inert us) :
    ∃ re, Syntax.compile category (anchored (us.flatMap kvText)) = some re ∧
      ∀ text, re.found text ↔ Glob.accepts (us.map symbolItem) text := by
  have htokens : tokens category (anchored (us.flatMap kvText)) =
      some (.item .beginText :: (us.flatMap symbolTokens ++ [.item .endText])) := by
    have hfirst : operator '^' = some (.item .beginText) := rfl
    have hlast : tokens category ['$'] = some [.item .endText] := rfl
    rw [anchored_inert h, tokens_operator hfirst, tokens_symbols hguarded (by decide), hlast]
    rfl
  obtain ⟨after, hafter⟩ := pushAll_symbols h ⟨⟨[], [.beginText]⟩, [], false⟩
  refine ⟨concat (.beginText :: ((us.map symbolItem).map ofItem ++ [.endText])).reverse, ?_,
    found_glob_iff _⟩
  rw [compile_eq, htokens, Option.bind_some, parse]
  have hpush : pushAll start (.item .beginText :: (us.flatMap symbolTokens ++ [.item .endText])) =
      pushAll ⟨⟨[], [.beginText]⟩, [], false⟩ (us.flatMap symbolTokens ++ [.item .endText]) := rfl
  rw [hpush, pushAll_append, hafter]
  simp [pushAll, Stack.push, Stack.add, Frame.close]

/-! ### The symbols of a pattern -/

/-- The marker with the two stars in place of its end. -/
def startedMarker : List Char := "§DOUBLESTAR**".toList

/-- A pattern that the detour through the marker leaves alone. -/
structure Unmarked (cs : List Char) : Prop where
  marker : ¬ marker <:+: cs
  started : ¬ startedMarker <:+: cs

theorem Unmarked.of_suffix {s t : List Char} (h : Unmarked t) (hs : s <:+ t) : Unmarked s where
  marker hin := h.marker (hin.trans hs.isInfix)
  started hin := h.started (hin.trans hs.isInfix)

/-- Letters before the end of the marker stand in the text that the marker was put into. -/
theorem prefix_of_substitute {w s : List Char} (hw : ∀ a ∈ w, a ≠ '§')
    (h : w ++ ['§'] <+: substitute s ['*', '*'] marker) :
    w ++ ['§'] <+: s ∨ w ++ ['*', '*'] <+: s := by
  have hstars : (['*', '*'] : List Char) ≠ [] := List.cons_ne_nil _ _
  induction w generalizing s with
  | nil =>
    induction s using cut_induction hstars with
    | nil => exact .inl h
    | occurrence s _ => exact .inr ⟨s, rfl⟩
    | letter a s hpre _ =>
      rw [substitute_letter hpre] at h
      obtain ⟨t, ht⟩ := h
      cases ht
      exact .inl ⟨s, rfl⟩
  | cons b w ih =>
    rw [List.forall_mem_cons] at hw
    induction s using cut_induction hstars with
    | nil => exact .inl h
    | occurrence s _ =>
      rw [substitute_occurrence hstars] at h
      obtain ⟨t, ht⟩ := h
      exact absurd (List.cons.inj ht).1 hw.1
    | letter a s hpre _ =>
      rw [substitute_letter hpre] at h
      obtain ⟨rfl, hrest⟩ := List.cons_prefix_cons.mp h
      rcases ih hw.2 hrest with ⟨u, rfl⟩ | ⟨u, rfl⟩
      · exact .inl ⟨u, rfl⟩
      · exact .inr ⟨u, rfl⟩

theorem kvSymbols_of_unmarked {cs : List Char} (h : Unmarked cs) :
    kvSymbols cs = cut ['*', '*'] 0 cs := by
  have hstars : (['*', '*'] : List Char) ≠ [] := List.cons_ne_nil _ _
  have hmarker : marker ≠ [] := List.cons_ne_nil _ _
  rw [kvSymbols]
  induction cs using cut_induction hstars with
  | nil => rfl
  | occurrence s ih =>
    rw [substitute_occurrence hstars, cut_occurrence hmarker, cut_occurrence hstars,
      ih (h.of_suffix (List.suffix_append _ s))]
  | letter a s hpre ih =>
    have hnot : ¬ marker <+: a :: substitute s ['*', '*'] marker := by
      intro hpref
      change '§' :: ("DOUBLESTAR".toList ++ ['§']) <+: _ at hpref
      obtain ⟨rfl, hrest⟩ := List.cons_prefix_cons.mp hpref
      rcases prefix_of_substitute (List.all_iff_forall_prop.mp (by decide)) hrest with ⟨t, rfl⟩ | ⟨t, rfl⟩
      · exact h.marker ⟨[], t, rfl⟩
      · exact h.started ⟨[], t, rfl⟩
    rw [substitute_letter hpre, cut_letter hnot, cut_letter hpre,
      ih (h.of_suffix (List.suffix_cons a s))]

theorem guarded_append {cs ds : List Char} (h : Guarded (cs ++ ds)) : Guarded ds := by
  induction cs with
  | nil => exact h
  | cons c cs ih => exact ih (followed_cons.mp h).2

theorem guardedSymbols_cut {cs : List Char} (h : Guarded cs) :
    GuardedSymbols (cut ['*', '*'] 0 cs) := by
  have hstars : (['*', '*'] : List Char) ≠ [] := List.cons_ne_nil _ _
  induction cs using cut_induction hstars with
  | nil => rfl
  | occurrence s ih =>
    rw [cut_occurrence hstars]
    exact followed_cons.mpr ⟨nofun, ih (guarded_append h)⟩
  | letter c s hpre ih =>
    obtain ⟨hfirst, hrest⟩ := followed_cons.mp h
    rw [cut_letter hpre]
    refine followed_cons.mpr ⟨fun hback => ?_, ih hrest⟩
    obtain ⟨d, hd, hmem⟩ := hfirst (Option.some.inj hback)
    cases s with
    | nil => cases hd
    | cons e s =>
      cases hd
      have hstar := (closers_spec d hmem).2.2.2.2.2.1
      rw [cut_letter (not_prefix_of_ne hstars fun heq => hstar (Option.some.inj heq).symm)]
      exact ⟨some d, rfl, List.mem_map_of_mem hmem⟩

/-- What a service pattern is read as. -/
def serviceSymbol (c : Char) : Option Char := if c = '*' then none else some c

theorem serviceText_eq (c : Char) : serviceText c = kvText (serviceSymbol c) := by
  rw [serviceText, serviceSymbol]
  split_ifs with hstar
  · rfl
  · rw [kvText, Option.elim, kvChar, if_neg hstar]

theorem guardedSymbols_service {cs : List Char} (h : Guarded cs) :
    GuardedSymbols (cs.map serviceSymbol) := by
  induction cs with
  | nil => rfl
  | cons c cs ih =>
    obtain ⟨hfirst, hrest⟩ := followed_cons.mp h
    refine followed_cons.mpr ⟨fun hback => ?_, ih hrest⟩
    have hc : c = '\\' := by
      rw [serviceSymbol] at hback
      split_ifs at hback
      exact Option.some.inj hback
    obtain ⟨d, hd, hmem⟩ := hfirst hc
    refine ⟨serviceSymbol d, ?_, ?_⟩
    · rw [List.head?_map]
      exact Option.mem_map_of_mem serviceSymbol hd
    · rw [serviceSymbol, if_neg (closers_spec d hmem).2.2.2.2.2.1]
      exact List.mem_map_of_mem hmem

/-! ### Patterns that stand for themselves -/

/-- Text without U+FFFD and without operators, in which every backslash stands before `]`,
`{` or `}`. -/
structure Verbatim (pattern : GoString) : Prop where
  literal : Glob.Literal pattern
  guarded : Guarded (chars pattern)
  inert : ∀ c ∈ operators, c ∉ chars pattern

section

variable {category : Char → Char → Bool} {fits : GoString → Bool} {expr : GoString}
  {us : List (Option Char)}

theorem go_spec (hvalid : valid expr) (hexpr : chars expr = anchored (us.flatMap kvText))
    (hguarded : GuardedSymbols us) (hinert : Inert us) :
    ((Regexp.go category fits).compiles expr ↔ fits expr) ∧
      ∀ key, (Regexp.go category fits).matchString expr key ↔
        Glob.accepts (us.map symbolItem) (chars key) := by
  obtain ⟨re, hre, hfound⟩ := compile_inert category hguarded hinert
  constructor
  · simp [Regexp.go, hvalid, hexpr, hre]
  · intro key
    rw [← hfound]
    simp [Regexp.go, hexpr, hre]

theorem inert_cut {pattern : GoString} (h : Verbatim pattern) :
    Inert (cut ['*', '*'] 0 (chars pattern)) :=
  fun c hc hmem => h.inert c hmem (mem_of_mem_cut (List.cons_ne_nil _ _) hc)

theorem inert_service {pattern : GoString} (h : Verbatim pattern) :
    Inert ((chars pattern).map serviceSymbol) := by
  intro c hc hmem
  obtain ⟨d, hd, hdc⟩ := List.mem_map.mp hc
  rw [serviceSymbol] at hdc
  split_ifs at hdc
  exact h.inert c hmem (Option.some.inj hdc ▸ hd)

theorem kv_spec {r : KVRule} (h : Verbatim r.path) (hunmarked : Unmarked (chars r.path)) :
    ((Regexp.go category fits).compiles r.compile ↔ fits r.compile) ∧
      ∀ key, r.isMatch (Regexp.go category fits) key ↔
        Glob.accepts ((cut ['*', '*'] 0 (chars r.path)).map symbolItem) (chars key) := by
  refine go_spec ((valid_kvCompile_iff r).mpr h.literal.1) ?_ (guardedSymbols_cut h.guarded)
    (inert_cut h)
  rw [chars_kvCompile h.literal.1, kvSymbols_of_unmarked hunmarked]

theorem chars_serviceCompile_symbols {r : ServiceRule} (h : valid r.name) :
    chars r.compile = anchored (((chars r.name).map serviceSymbol).flatMap kvText) := by
  rw [chars_serviceCompile h, List.flatMap_map]
  exact congrArg anchored (List.flatMap_congr fun c _ => serviceText_eq c)

theorem service_spec {r : ServiceRule} (h : Verbatim r.name) :
    ((Regexp.go category fits).compiles r.compile ↔ fits r.compile) ∧
      ∀ key, r.isMatch (Regexp.go category fits) key ↔
        Glob.accepts (((chars r.name).map serviceSymbol).map symbolItem) (chars key) :=
  go_spec ((valid_serviceCompile_iff r).mpr h.literal.1) (chars_serviceCompile_symbols h.literal.1)
    (guardedSymbols_service h.guarded) (inert_service h)

end

/-! ### Dots and newlines -/

/-- The items accept the same texts of some letters. -/
theorem accepts_congr {P : Char → Prop} {us : List (Option Char)}
    (h : ∀ o ∈ us, o = none → ∀ c, P c → notNewline c) {t : List Char} (ht : ∀ c ∈ t, P c) :
    Glob.accepts (us.map symbolItem) t ↔ Glob.accepts (us.map Glob.charItem) t := by
  induction us generalizing t with
  | nil => rfl
  | cons o us ih =>
    rw [List.forall_mem_cons] at h
    have htail := fun v (hv : ∀ c ∈ v, P c) => ih h.2 hv
    rw [List.map_cons, List.map_cons]
    cases o with
    | none =>
      rw [symbolItem, Glob.charItem, Glob.accepts_run_iff, Glob.accepts_run_iff]
      constructor
      · rintro ⟨u, v, rfl, -, hv⟩
        exact ⟨u, v, rfl, fun _ _ => rfl, (htail v (List.forall_mem_append.mp ht).2).mp hv⟩
      · rintro ⟨u, v, rfl, -, hv⟩
        rw [List.forall_mem_append] at ht
        exact ⟨u, v, rfl, fun c hc => h.1 rfl c (ht.1 c hc), (htail v ht.2).mpr hv⟩
    | some c =>
      rw [symbolItem, Glob.charItem]
      split_ifs
      · rw [Glob.accepts_run_iff, Glob.accepts_run_iff]
        constructor
        · rintro ⟨u, v, rfl, hu, hv⟩
          exact ⟨u, v, rfl, hu, (htail v (List.forall_mem_append.mp ht).2).mp hv⟩
        · rintro ⟨u, v, rfl, hu, hv⟩
          exact ⟨u, v, rfl, hu, (htail v (List.forall_mem_append.mp ht).2).mpr hv⟩
      · rw [Glob.accepts_lit_iff, Glob.accepts_lit_iff]
        constructor
        · rintro ⟨v, rfl, hv⟩
          exact ⟨v, rfl, (htail v (List.forall_mem_cons.mp ht).2).mp hv⟩
        · rintro ⟨v, rfl, hv⟩
          exact ⟨v, rfl, (htail v (List.forall_mem_cons.mp ht).2).mpr hv⟩

end Konsul
