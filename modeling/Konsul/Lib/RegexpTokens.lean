import Konsul.Lib.Regexp

/-!
# The tokens of an expression

Each round of the parser's loop takes at least one character, so the rounds need no bound:
`tokens` reads an expression to its end.
-/

namespace GoLib

namespace Syntax

/-! ### What a round leaves -/

theorem octal_length (k n : ℕ) (t : List Char) : (octal k n t).2.length ≤ t.length := by
  fun_induction octal k n t with
  | case1 k n c t h ih => exact ih.trans (Nat.le_succ _)
  | case2 => exact le_refl _
  | case3 => exact le_refl _

theorem hexEscape_length {t t' : List Char} {c : Char} (h : hexEscape t = some (c, t')) :
    t'.length < t.length := by
  unfold hexEscape at h
  split at h
  · obtain ⟨x, -, h⟩ := Option.bind_eq_some_iff.mp h
    obtain ⟨y, -, h⟩ := Option.bind_eq_some_iff.mp h
    cases h
    simp only [List.length_cons]
    omega
  · cases h

theorem parseEscape_length {t t' : List Char} {c : Char} (h : parseEscape t = some (c, t')) :
    t'.length < t.length := by
  cases t with
  | nil => cases h
  | cons b t =>
    rw [List.length_cons]
    rw [parseEscape] at h
    split_ifs at h
    · cases h
      exact Nat.lt_succ_of_le (octal_length _ _ t)
    · exact (hexEscape_length h).trans (Nat.lt_succ_self _)
    · obtain ⟨d, -, h⟩ := Option.map_eq_some_iff.mp h
      cases h
      exact Nat.lt_succ_self _

section

variable {category : Char → Char → Bool} {t t' : List Char}

theorem unicodeClass_length {p : Char} {ok : Char → Bool}
    (h : unicodeClass category p t = some (ok, t')) : t'.length < t.length := by
  cases t with
  | nil => cases h
  | cons name t =>
    rw [unicodeClass] at h
    split_ifs at h
    cases h
    exact Nat.lt_succ_self _

theorem classChar_length {c : Char} (h : classChar t = some (c, t')) : t'.length < t.length := by
  cases t with
  | nil => cases h
  | cons b t =>
    rw [classChar] at h
    split_ifs at h
    · exact (parseEscape_length h).trans (Nat.lt_succ_self _)
    · cases h
      exact Nat.lt_succ_self _

theorem classRange_length {ok : Char → Bool} (h : classRange t = some (ok, t')) :
    t'.length < t.length := by
  obtain ⟨⟨lo, u⟩, hlo, h⟩ := Option.bind_eq_some_iff.mp h
  have hlt := classChar_length hlo
  dsimp only at h
  split_ifs at h
  · obtain ⟨⟨hi, v⟩, hhi, h⟩ := Option.bind_eq_some_iff.mp h
    have hlt' := classChar_length hhi
    rw [List.length_tail] at hlt'
    dsimp only at h
    split_ifs at h
    cases h
    omega
  · cases h
    exact hlt

theorem classItem_length {ok : Char → Bool} (h : classItem category t = some (ok, t')) :
    t'.length < t.length := by
  rw [classItem] at h
  split_ifs at h with hback
  · cases t with
    | nil => cases hback
    | cons b t =>
      cases t with
      | nil => cases h
      | cons c t =>
        rw [List.length_cons, List.length_cons]
        simp only [List.tail_cons] at h
        split_ifs at h
        · have := unicodeClass_length h
          omega
        · cases hperl : perlClass c with
          | some ok' =>
            rw [hperl] at h
            cases h
            omega
          | none =>
            rw [hperl] at h
            exact classRange_length h
  · exact classRange_length h

theorem classItems_length {n : ℕ} {first : Bool} {ok : Char → Bool}
    (h : classItems category n first t = some (ok, t')) : t'.length < t.length := by
  induction n generalizing first t ok with
  | zero => cases h
  | succ n ih =>
    rw [classItems] at h
    split_ifs at h with hclose
    · cases h
      cases t with
      | nil => cases hclose.1
      | cons c t => exact Nat.lt_succ_self _
    · obtain ⟨⟨ok', u⟩, hitem, h⟩ := Option.bind_eq_some_iff.mp h
      obtain ⟨⟨rest, v⟩, hrest, h⟩ := Option.bind_eq_some_iff.mp h
      cases h
      exact (ih hrest).trans (classItem_length hitem)

theorem parseClass_length {ok : Char → Bool} (h : parseClass category t = some (ok, t')) :
    t'.length < t.length := by
  rw [parseClass] at h
  split_ifs at h
  · obtain ⟨⟨ok', u⟩, hitems, h⟩ := Option.bind_eq_some_iff.mp h
    cases h
    have := classItems_length hitems
    rw [List.length_tail] at this
    omega
  · exact classItems_length h

theorem cutQuote_length (t : List Char) : (cutQuote t).2.length ≤ t.length := by
  fun_induction cutQuote t with
  | case1 => exact le_refl _
  | case2 c => exact Nat.zero_le _
  | case3 c d t h => simp only [List.length_cons]; omega
  | case4 c d t h ih => exact ih.trans (Nat.le_succ _)

theorem skipLazy_length (t : List Char) : (skipLazy t).length ≤ t.length := by
  rw [skipLazy]
  split_ifs
  · rw [List.length_tail]
    omega
  · exact le_refl _

theorem nextEscape_length {token : Token} (h : nextEscape category t = some (token, t')) :
    t'.length < t.length := by
  cases t with
  | nil => cases h
  | cons c t =>
    rw [List.length_cons]
    rw [nextEscape] at h
    cases hassert : assertion c with
    | some re =>
      rw [hassert] at h
      cases h
      exact Nat.lt_succ_self _
    | none =>
      rw [hassert] at h
      dsimp only at h
      split_ifs at h
      · cases h
        exact Nat.lt_succ_of_le (cutQuote_length t)
      · obtain ⟨⟨ok, u⟩, hclass, h⟩ := Option.map_eq_some_iff.mp h
        cases h
        exact (unicodeClass_length hclass).trans (Nat.lt_succ_self _)
      · cases hperl : perlClass c with
        | some ok =>
          rw [hperl] at h
          cases h
          exact Nat.lt_succ_self _
        | none =>
          rw [hperl] at h
          obtain ⟨⟨d, u⟩, hescape, h⟩ := Option.map_eq_some_iff.mp h
          cases h
          exact parseEscape_length hescape

theorem next_length {token : Token} {c : Char} (h : next category (c :: t) = some (token, t')) :
    t'.length ≤ t.length := by
  rw [next] at h
  cases hoperator : operator c with
  | some token' =>
    rw [hoperator] at h
    cases h
    exact le_refl _
  | none =>
    rw [hoperator] at h
    dsimp only at h
    cases hrepetition : repetition c with
    | some op =>
      rw [hrepetition] at h
      cases h
      exact skipLazy_length t
    | none =>
      rw [hrepetition] at h
      dsimp only at h
      split_ifs at h
      · obtain ⟨⟨ok, u⟩, hclass, h⟩ := Option.map_eq_some_iff.mp h
        cases h
        exact (parseClass_length hclass).le
      · exact (nextEscape_length h).le
      · cases h
        exact le_refl _

end

/-! ### All rounds -/

section

variable (category : Char → Char → Bool)

def tokens (s : List Char) : Option (List Token) := lex category s.length s

theorem lex_eq_tokens {n : ℕ} {s : List Char} (h : s.length ≤ n) :
    lex category n s = tokens category s := by
  have hall : ∀ m n (s : List Char), s.length ≤ m → s.length ≤ n → lex category n s = lex category m s := by
    intro m
    induction m with
    | zero =>
      intro n s hm hn
      obtain rfl := List.length_eq_zero_iff.mp (Nat.le_zero.mp hm)
      cases n <;> rfl
    | succ m ih =>
      intro n s hm hn
      cases s with
      | nil => cases n <;> rfl
      | cons c t =>
        cases n with
        | zero => exact absurd hn (by simp)
        | succ n =>
          rw [List.length_cons] at hm hn
          rw [lex, lex]
          refine Option.bind_congr fun ⟨token, t'⟩ hnext => ?_
          have hle := next_length hnext
          dsimp only
          rw [ih n t' (by omega) (by omega)]
  exact hall s.length n s (le_refl _) h

@[simp] theorem tokens_nil : tokens category [] = some [] := rfl

theorem tokens_cons (c : Char) (t : List Char) :
    tokens category (c :: t) =
      (next category (c :: t)).bind fun p => (tokens category p.2).map (p.1 :: ·) := by
  rw [tokens, List.length_cons, lex]
  refine Option.bind_congr fun ⟨token, t'⟩ hnext => ?_
  dsimp only
  rw [lex_eq_tokens category (next_length hnext)]
  cases tokens category t' <;> rfl

theorem compile_eq (s : List Char) : compile category s = (tokens category s).bind parse := rfl

/-! ### Rounds by the first character -/

section

variable {category} {c : Char}

theorem tokens_of_next {token : Token} {t t' : List Char} (h : next category (c :: t) = some (token, t')) :
    tokens category (c :: t) = (tokens category t').map (token :: ·) := by
  rw [tokens_cons, h]
  rfl

theorem tokens_operator {token : Token} (h : operator c = some token) (t : List Char) :
    tokens category (c :: t) = (tokens category t).map (token :: ·) := by
  refine tokens_of_next ?_
  rw [next, h]

theorem tokens_repetition {op : RepeatOp} (hoperator : operator c = none)
    (h : repetition c = some op) (t : List Char) :
    tokens category (c :: t) = (tokens category (skipLazy t)).map (.repeatOp op :: ·) := by
  refine tokens_of_next ?_
  rw [next, hoperator, h]

/-- A character that is no operator. -/
theorem tokens_char (hoperator : operator c = none) (hrepetition : repetition c = none)
    (hbracket : c ≠ '[') (hback : c ≠ '\\') (t : List Char) :
    tokens category (c :: t) = (tokens category t).map (.item (char c) :: ·) := by
  refine tokens_of_next ?_
  rw [next, hoperator, hrepetition]
  dsimp only
  rw [if_neg hbracket, if_neg hback]

/-- The letters and digits that mean something behind a backslash. -/
def escapeLetters : List Char :=
  ['0', 'x', 'a', 'f', 'n', 'r', 't', 'v', 'A', 'b', 'B', 'z', 'Q', 'p', 'P', 'd', 'D', 's', 'S', 'w', 'W']

theorem notMem_escapeLetters (h : c.isAlphanum = false) : ∀ d ∈ escapeLetters, c ≠ d := by
  have hall : ∀ d ∈ escapeLetters, d.isAlphanum = true := List.all_eq_true.mp (by decide)
  rintro d hd rfl
  rw [hall c hd] at h
  cases h

theorem isOctal_of_punctuation (h : c.isAlphanum = false) : isOctal c = false := by
  rw [Bool.eq_false_iff]
  intro hoctal
  have hzero : ('0' : Char).val.toNat = 48 := rfl
  have hseven : ('7' : Char).val.toNat = 55 := rfl
  have hnine : ('9' : Char).val.toNat = 57 := rfl
  simp only [isOctal, Char.isAlphanum, Char.isDigit, Bool.and_eq_true, Bool.or_eq_false_iff,
    Bool.and_eq_false_iff, decide_eq_true_eq, decide_eq_false_iff_not, Char.le_def,
    UInt32.le_iff_toNat_le, ge_iff_le] at hoctal h
  omega

/-- A character that is no letter and no digit stands for itself behind a backslash. -/
theorem tokens_escaped (hascii : c.toNat < 0x80) (h : c.isAlphanum = false) (t : List Char) :
    tokens category ('\\' :: c :: t) = (tokens category t).map (.item (char c) :: ·) := by
  have hne := notMem_escapeLetters h
  simp only [escapeLetters, List.forall_mem_cons] at hne
  refine tokens_of_next ?_
  have hassert : assertion c = none := by simp [assertion, hne]
  have hperl : perlClass c = none := by simp [perlClass, hne]
  have hescape : charEscape c = some c := by simp [charEscape, hne, hascii, h]
  change nextEscape category (c :: t) = _
  simp [nextEscape, hassert, hperl, parseEscape, hne, isOctal_of_punctuation h, hescape]

/-- The class of everything but slashes. -/
theorem parseClass_notSlash (t : List Char) :
    parseClass category ('^' :: '/' :: ']' :: t) = some (notSlash, t) := by
  have hok : (fun r : Char => !decide (r = '/')) = notSlash := by
    funext r
    simp [notSlash]
  simp [parseClass, classItems, classItem, classRange, classChar, isRange, hok]

end

/-- A star behind what stands for one character. -/
def starred (ok : Char → Bool) : List Token := [.item (.rune ok), .repeatOp .star]

variable {category} {t : List Char}

theorem skipLazy_of_ne (h : t.head? ≠ some '?') : skipLazy t = t := if_neg h

theorem tokens_star (h : t.head? ≠ some '?') :
    tokens category ('*' :: t) = (tokens category t).map (.repeatOp .star :: ·) := by
  rw [tokens_repetition rfl rfl, skipLazy_of_ne h]

theorem tokens_notSlash (h : t.head? ≠ some '?') :
    tokens category (['[', '^', '/', ']', '*'] ++ t) =
      (tokens category t).map (starred notSlash ++ ·) := by
  have hclass : next category ('[' :: '^' :: '/' :: ']' :: '*' :: t) =
      some (.item (.rune notSlash), '*' :: t) := by
    simp [next, operator, repetition, parseClass_notSlash]
  change tokens category ('[' :: '^' :: '/' :: ']' :: '*' :: t) = _
  rw [tokens_of_next hclass, tokens_star h, Option.map_map]
  rfl

theorem tokens_notNewline (h : t.head? ≠ some '?') :
    tokens category (['.', '*'] ++ t) = (tokens category t).map (starred notNewline ++ ·) := by
  change tokens category ('.' :: '*' :: t) = _
  rw [tokens_operator (show operator '.' = some (.item (.rune notNewline)) from rfl), tokens_star h, Option.map_map]
  rfl

end

end Syntax

end GoLib
