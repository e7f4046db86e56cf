import Konsul.Lib.RegexpTokens

/-!
# Expressions that are accepted

A reader that takes an expression one character at a time decides whether the parser accepts
it. Of the parser's stack it keeps the depth and whether a repetition may follow; of a class
it keeps whether a range may begin with the last character or has begun.
-/

namespace GoLib

namespace Syntax

/-! ### The reader -/

/-- What a repetition would stand behind. -/
inductive Behind where
  | nothing
  | item
  | repetition
  deriving DecidableEq

/-- Where a character may be read: outside classes, where an item of a class begins, behind a
character that may begin a range, and behind the hyphen of a range. -/
inductive Place where
  | outside (behind : Behind)
  | items
  | low (lo : Char)
  | hyphen (lo : Char)

def Place.char : Place → Char → Option Place
  | outside _, _ => some (outside .item)
  | items, c => some (low c)
  | low _, c => some (low c)
  | hyphen lo, c => if c < lo then none else some items

/-- A character that no backslash stands before. -/
def Place.bare : Place → Char → Option Place
  | low lo, c => some (if c = '-' then hyphen lo else low c)
  | p, c => p.char c

/-- Where a backslash is read, no range begins with the character before it. -/
def Place.back : Place → Place
  | low _ => items
  | p => p

/-- The place behind a set of characters that has a name. -/
def Place.set : Place → Place
  | outside _ => outside .item
  | _ => items

inductive Mode where
  | ready (p : Place)
  -- behind a repetition, where a question mark is skipped
  | lazy
  -- behind the bracket that opens a class, and behind `[^`
  | opened
  | first
  -- in an escape, the value of its digits so far last
  | escape (p : Place)
  | category (p : Place)
  | octalDigit (p : Place) (n : ℕ)
  | octal (p : Place) (more n : ℕ)
  | hex (p : Place)
  | hexDigit (p : Place) (x : ℕ)
  -- behind `\Q`, and behind a backslash there
  | quote (behind : Behind)
  | quoteBack (behind : Behind)

structure Reader where
  depth : ℕ
  mode : Mode

namespace Reader

def stepOutside (depth : ℕ) (behind : Behind) (c : Char) : Option Reader :=
  if c = '(' then some ⟨depth + 1, .ready (.outside .nothing)⟩
  else if c = '|' then some ⟨depth, .ready (.outside .nothing)⟩
  else if c = ')' then
    if depth = 0 then none else some ⟨depth - 1, .ready (.outside .item)⟩
  else if c = '*' ∨ c = '+' ∨ c = '?' then
    if behind = .item then some ⟨depth, .lazy⟩ else none
  else if c = '[' then some ⟨depth, .opened⟩
  else if c = '\\' then some ⟨depth, .escape (.outside behind)⟩
  else some ⟨depth, .ready (.outside .item)⟩

def stepInside (depth : ℕ) (p : Place) (c : Char) : Option Reader :=
  if c = ']' then some ⟨depth, .ready (.outside .item)⟩
  else if c = '\\' then some ⟨depth, .escape p.back⟩
  else (p.bare c).map fun p => ⟨depth, .ready p⟩

def stepReady (depth : ℕ) (p : Place) (c : Char) : Option Reader :=
  match p with
  | .outside behind => stepOutside depth behind c
  | p => stepInside depth p c

/-- A bracket does not close the class it stands at the beginning of. -/
def stepFirst (depth : ℕ) (c : Char) : Option Reader :=
  if c = ']' then some ⟨depth, .ready (.low c)⟩ else stepInside depth .items c

/-- The escape of one character. -/
def stepChar (depth : ℕ) (p : Place) (c : Char) : Option Reader :=
  if c = '0' then some ⟨depth, .octal p 2 0⟩
  else if isOctal c then some ⟨depth, .octalDigit p (c.toNat - '0'.toNat)⟩
  else if c = 'x' then some ⟨depth, .hex p⟩
  else (charEscape c).bind fun d => (p.char d).map fun p => ⟨depth, .ready p⟩

/-- The escape of one character or of a set of them. -/
def stepSet (depth : ℕ) (p : Place) (c : Char) : Option Reader :=
  if c = 'p' ∨ c = 'P' then some ⟨depth, .category p⟩
  else if (perlClass c).isSome then some ⟨depth, .ready p.set⟩
  else stepChar depth p c

def stepEscape (depth : ℕ) (p : Place) (c : Char) : Option Reader :=
  match p with
  | .outside behind =>
    if (assertion c).isSome then some ⟨depth, .ready (.outside .item)⟩
    else if c = 'Q' then some ⟨depth, .quote (if behind = .repetition then .item else behind)⟩
    else stepSet depth p c
  | .hyphen _ => stepChar depth p c
  | p => stepSet depth p c

def step (r : Reader) (c : Char) : Option Reader :=
  match r.mode with
  | .ready p => stepReady r.depth p c
  | .lazy =>
    if c = '?' then some ⟨r.depth, .ready (.outside .repetition)⟩
    else stepOutside r.depth .repetition c
  | .opened => if c = '^' then some ⟨r.depth, .first⟩ else stepFirst r.depth c
  | .first => stepFirst r.depth c
  | .escape p => stepEscape r.depth p c
  | .category p =>
    if c ∈ ['C', 'L', 'M', 'N', 'P', 'S', 'Z'] then some ⟨r.depth, .ready p.set⟩ else none
  | .octalDigit p n =>
    if isOctal c then some ⟨r.depth, .octal p 1 (n * 8 + (c.toNat - '0'.toNat))⟩ else none
  | .octal p (more + 1) n =>
    if isOctal c then some ⟨r.depth, .octal p more (n * 8 + (c.toNat - '0'.toNat))⟩
    else (p.char (Char.ofNat n)).bind fun p => stepReady r.depth p c
  | .octal p 0 n => (p.char (Char.ofNat n)).bind fun p => stepReady r.depth p c
  | .hex p => (unhex c).map fun x => ⟨r.depth, .hexDigit p x⟩
  | .hexDigit p x =>
    (unhex c).bind fun y => (p.char (Char.ofNat (x * 16 + y))).map fun p => ⟨r.depth, .ready p⟩
  | .quote behind => some ⟨r.depth, if c = '\\' then .quoteBack behind else .quote .item⟩
  | .quoteBack behind =>
    if c = 'E' then some ⟨r.depth, .ready (.outside behind)⟩
    else some ⟨r.depth, if c = '\\' then .quoteBack .item else .quote .item⟩

/-- The expression may end here. -/
def accepting (r : Reader) : Bool :=
  match r.mode with
  | .ready (.outside _) => r.depth = 0
  | .lazy => r.depth = 0
  | .octal (.outside _) _ _ => r.depth = 0
  | .quote _ => r.depth = 0
  | .quoteBack _ => r.depth = 0
  | _ => false

def run (r : Reader) (t : List Char) : Bool := (t.foldlM step r).any accepting

theorem run_nil (r : Reader) : r.run [] = r.accepting := rfl

theorem run_cons (r : Reader) (c : Char) (t : List Char) :
    r.run (c :: t) = (r.step c).any fun r => r.run t := by
  rw [run, List.foldlM_cons]
  cases r.step c <;> rfl

end Reader

/-! ### Escapes -/

/-- Reading goes on at a place. -/
def Place.run (p : Place) (d : ℕ) (t : List Char) : Bool := Reader.run ⟨d, .ready p⟩ t

/-- Reading goes on behind a character. -/
def Place.runChar (p : Place) (d : ℕ) (q : Char × List Char) : Bool :=
  (p.char q.1).any fun p => p.run d q.2

section

variable {d : ℕ} {p : Place} {t : List Char}

theorem Place.run_cons (p : Place) (d : ℕ) (c : Char) (t : List Char) :
    p.run d (c :: t) = (Reader.stepReady d p c).any fun r => r.run t :=
  Reader.run_cons ⟨d, .ready p⟩ c t

theorem accepting_octal (p : Place) (d more n : ℕ) (c : Char) :
    Reader.accepting ⟨d, .octal p more n⟩ = (p.char c).any fun p => p.run d [] := by
  cases p with
  | hyphen lo =>
    rw [Place.char]
    split_ifs <;> rfl
  | _ => rfl

theorem run_octal_last {more : ℕ} (h : more = 0 ∨ ∀ c ∈ t.head?, isOctal c = false) (n : ℕ) :
    Reader.run ⟨d, .octal p more n⟩ t = p.runChar d (Char.ofNat n, t) := by
  cases t with
  | nil => exact accepting_octal p d more n (Char.ofNat n)
  | cons c t =>
    have hstep : Reader.step ⟨d, .octal p more n⟩ c =
        (p.char (Char.ofNat n)).bind fun p => Reader.stepReady d p c := by
      cases more with
      | zero => rfl
      | succ more =>
        have hc := h.resolve_left (Nat.succ_ne_zero more) c rfl
        rw [Reader.step]
        exact if_neg (by rw [hc]; exact Bool.false_ne_true)
    rw [Reader.run_cons, hstep, Option.any_bind, Place.runChar]
    simp only [Place.run_cons]
    rfl

theorem run_octal (more n : ℕ) (t : List Char) :
    Reader.run ⟨d, .octal p more n⟩ t = p.runChar d ((octal more n t).map Char.ofNat id) := by
  fun_induction octal more n t with
  | case1 more n c t h ih =>
    rw [Reader.run_cons, Reader.step]
    dsimp only
    rw [if_pos h]
    exact ih
  | case2 more n c t h =>
    refine run_octal_last (.inr fun c' hc => ?_) n
    rw [← Option.some.inj hc]
    exact Bool.eq_false_iff.mpr h
  | case3 more n t h =>
    refine run_octal_last ?_ n
    cases more with
    | zero => exact .inl rfl
    | succ more =>
      cases t with
      | nil => exact .inr fun _ h => by cases h
      | cons c t => exact absurd rfl (h more c t rfl)

theorem run_hex (t : List Char) :
    Reader.run ⟨d, .hex p⟩ t = (hexEscape t).any (p.runChar d) := by
  cases t with
  | nil => rfl
  | cons a t =>
    rw [Reader.run_cons, Reader.step]
    dsimp only
    cases t with
    | nil => cases hx : unhex a <;> rfl
    | cons b t =>
      rw [hexEscape]
      cases hx : unhex a with
      | none => rfl
      | some x =>
        rw [Option.map_some, Option.any_some, Reader.run_cons, Reader.step]
        dsimp only
        cases hy : unhex b with
        | none => rfl
        | some y =>
          rw [Option.bind_some, Option.any_map]
          rfl

theorem charEscape_octal {c : Char} (h : isOctal c = true) : c ≠ 'x' ∧ charEscape c = none := by
  have hletters : ∀ e ∈ ['a', 'f', 'n', 'r', 't', 'v', 'x'], (!isOctal e) = true :=
    List.all_eq_true.mp (by decide)
  have hne : ∀ e ∈ ['a', 'f', 'n', 'r', 't', 'v', 'x'], c ≠ e := by
    rintro e he rfl
    have hnot := hletters c he
    rw [h] at hnot
    cases hnot
  have halphanum : c.isAlphanum = true := by
    by_contra hnot
    rw [isOctal_of_punctuation (Bool.eq_false_iff.mpr hnot)] at h
    cases h
  simp only [List.forall_mem_cons] at hne
  simp [charEscape, hne, halphanum]

/-- Behind the backslash. -/
theorem run_char (c : Char) (t : List Char) :
    ((Reader.stepChar d p c).any fun r => r.run t) = (parseEscape (c :: t)).any (p.runChar d) := by
  rw [Reader.stepChar, parseEscape]
  by_cases hzero : c = '0'
  · rw [if_pos hzero, if_pos (.inl hzero), hzero]
    exact run_octal 2 0 t
  · rw [if_neg hzero]
    by_cases hoctal : isOctal c = true
    · obtain ⟨hx, hescape⟩ := charEscape_octal hoctal
      rw [if_pos hoctal, Option.any_some]
      cases t with
      | nil => simp [hzero, hx, hescape, Reader.run_nil, Reader.accepting]
      | cons b t =>
        rw [Reader.run_cons, Reader.step]
        dsimp only
        by_cases hb : isOctal b = true
        · rw [if_pos hb, if_pos (.inr ⟨hoctal, hb⟩), Option.any_some, run_octal, octal, if_pos hb]
          rfl
        · simp [hzero, hx, hescape, hb]
    · have hnot : ¬ (c = '0' ∨ (isOctal c = true ∧ t.head?.any isOctal = true)) := by
        rintro (h | h)
        · exact hzero h
        · exact hoctal h.1
      rw [if_neg hoctal, if_neg hnot]
      split_ifs with hx
      · exact run_hex t
      · cases charEscape c with
        | none => rfl
        | some e =>
          rw [Option.bind_some, Option.any_map]
          rfl

end

/-! ### Classes -/

/-- What stands behind a range, or behind the character that begins none. -/
def rangeRest (lo : Char) (t : List Char) : Option (List Char) :=
  if isRange t then (classChar t.tail).bind fun q => if q.1 < lo then none else some q.2
  else some t

theorem classRange_rest (t : List Char) :
    (classRange t).map Prod.snd = (classChar t).bind fun q => rangeRest q.1 q.2 := by
  change ((classChar t).bind _).map Prod.snd = _
  rw [Option.map_bind]
  refine Option.bind_congr fun ⟨lo, u⟩ _ => ?_
  dsimp only [Function.comp_apply, rangeRest]
  split_ifs
  · change ((classChar u.tail).bind _).map Prod.snd = _
    rw [Option.map_bind]
    refine Option.bind_congr fun ⟨hi, v⟩ _ => ?_
    dsimp only [Function.comp_apply]
    split_ifs <;> rfl
  · rfl

section

variable {d : ℕ} {t : List Char}

theorem run_hyphen (lo : Char) {c : Char} (hc : c ≠ ']') (t : List Char) :
    (Place.hyphen lo).run d (c :: t) =
      ((classChar (c :: t)).bind fun q => if q.1 < lo then none else some q.2).any
        (Place.items.run d) := by
  have hrest : ∀ q : Char × List Char, (Place.hyphen lo).runChar d q =
      (if q.1 < lo then none else some q.2).any (Place.items.run d) := by
    intro q
    rw [Place.runChar, Place.char]
    split_ifs <;> rfl
  rw [Option.any_bind, Place.run_cons, classChar]
  change ((Reader.stepInside d (.hyphen lo) c).any _) = Option.any _ _
  rw [Reader.stepInside, if_neg hc]
  simp only [Function.comp_def, ← hrest]
  split_ifs with hback
  · cases t with
    | nil => rfl
    | cons c' t => exact (Reader.run_cons _ c' t).trans (run_char c' t)
  · rw [Option.any_map]
    rfl

theorem run_low (lo : Char) (t : List Char) :
    (Place.low lo).run d t = (rangeRest lo t).any (Place.items.run d) := by
  have hsame : ∀ c u, c ≠ '-' → (Place.low lo).run d (c :: u) = Place.items.run d (c :: u) := by
    intro c u hc
    have hbare : (Place.low lo).bare c = Place.items.bare c := congrArg some (if_neg hc)
    rw [Place.run_cons, Place.run_cons]
    change ((Reader.stepInside d (.low lo) c).any _) = (Reader.stepInside d .items c).any _
    rw [Reader.stepInside, Reader.stepInside, hbare]
    rfl
  have hdash : ∀ u, (Place.low lo).run d ('-' :: u) = (Place.hyphen lo).run d u := fun _ => rfl
  rw [rangeRest]
  cases t with
  | nil => rfl
  | cons c u =>
    by_cases hc : c = '-'
    · subst hc
      rw [hdash]
      cases u with
      | nil => rfl
      | cons b u =>
        by_cases hb : b = ']'
        · subst hb
          rfl
        · rw [run_hyphen lo hb, if_pos (by simp [isRange, hb])]
          rfl
    · rw [hsame c u hc, if_neg (by simp [isRange, hc])]
      rfl

theorem run_category {category : Char → Char → Bool} (p : Place) (letter : Char) (t : List Char) :
    Reader.run ⟨d, .category p⟩ t =
      (unicodeClass category letter t).any fun q => p.set.run d q.2 := by
  cases t with
  | nil => rfl
  | cons name t =>
    rw [Reader.run_cons, Reader.step, unicodeClass]
    dsimp only
    split_ifs <;> rfl

theorem runChar_rest (o : Option (Char × List Char)) :
    (o.any (Place.items.runChar d)) =
      (o.bind fun q => rangeRest q.1 q.2).any (Place.items.run d) := by
  cases o with
  | none => rfl
  | some q => exact run_low q.1 q.2

theorem run_item (category : Char → Char → Bool) (c : Char) (t : List Char) :
    ((Reader.stepFirst d c).any fun r => r.run t) =
      (classItem category (c :: t)).any fun q => Place.items.run d q.2 := by
  have hrange : ∀ u, ((classRange u).any fun q => Place.items.run d q.2) =
      (classChar u).any (Place.items.runChar d) := by
    intro u
    rw [runChar_rest, ← classRange_rest, Option.any_map]
  have hbare : ∀ u, c ≠ '\\' → (classChar (c :: u)).any (Place.items.runChar d) =
      (Place.low c).run d u := by
    intro u hc
    rw [classChar, if_neg hc]
    rfl
  rw [Reader.stepFirst, classItem]
  by_cases hclose : c = ']'
  · have hc : c ≠ '\\' := by
      rw [hclose]
      decide
    rw [if_pos hclose, if_neg (by simpa using hc), hrange, hbare t hc, hclose]
    rfl
  · rw [if_neg hclose, Reader.stepInside, if_neg hclose]
    by_cases hc : c = '\\'
    · subst hc
      rw [if_pos rfl, if_pos List.head?_cons, Option.any_some]
      cases t with
      | nil => rfl
      | cons e t =>
        rw [Reader.run_cons]
        change ((Reader.stepSet d .items e).any fun r => r.run t) = _
        rw [Reader.stepSet]
        dsimp only [List.tail_cons]
        split_ifs with hp hperl
        · exact run_category .items e t
        · obtain ⟨ok, hok⟩ := Option.isSome_iff_exists.mp hperl
          rw [hok]
          rfl
        · rw [Option.not_isSome_iff_eq_none.mp hperl, hrange]
          exact run_char e t
    · rw [if_neg hc, if_neg (by simpa using hc), hrange, hbare t hc]
      rfl

theorem classItems_rest (category : Char → Char → Bool) (n : ℕ) (first : Bool) (t : List Char)
    (h : ¬ (t.head? = some ']' ∧ (!first) = true)) :
    (classItems category (n + 1) first t).map Prod.snd =
      (classItem category t).bind fun q => (classItems category n false q.2).map Prod.snd := by
  rw [classItems, if_neg h]
  change ((classItem category t).bind _).map Prod.snd = _
  rw [Option.map_bind]
  refine Option.bind_congr fun q _ => ?_
  obtain ⟨ok, u⟩ := q
  dsimp only [Function.comp_apply]
  cases classItems category n false u <;> rfl

/-- The reader goes on behind the class. -/
def behindClass (d : ℕ) (o : Option ((Char → Bool) × List Char)) : Bool :=
  o.any fun q => (Place.outside .item).run d q.2

theorem run_classItem (category : Char → Char → Bool) {n : ℕ} {first : Bool}
    (hclose : ¬ (t.head? = some ']' ∧ (!first) = true)) (ht : t.length ≤ n)
    (hitems : ∀ u, u.length < n →
      Place.items.run d u = behindClass d (classItems category n false u)) :
    ((classItem category t).any fun q => Place.items.run d q.2) =
      behindClass d (classItems category (n + 1) first t) := by
  have hrest : behindClass d (classItems category (n + 1) first t) =
      ((classItems category (n + 1) first t).map Prod.snd).any ((Place.outside .item).run d) :=
    Option.any_map.symm
  rw [hrest, classItems_rest category n first t hclose]
  cases hread : classItem category t with
  | none => rfl
  | some q =>
    have hlt := classItem_length hread
    rw [Option.any_some, Option.bind_some, Option.any_map, hitems q.2 (by omega)]
    rfl

theorem run_items (category : Char → Char → Bool) {n : ℕ} (h : t.length < n) :
    Place.items.run d t = behindClass d (classItems category n false t) := by
  induction n generalizing t with
  | zero => exact absurd h (Nat.not_lt_zero _)
  | succ n ih =>
    cases t with
    | nil => rfl
    | cons c t =>
      by_cases hc : c = ']'
      · rw [hc, classItems, if_pos ⟨rfl, rfl⟩]
        rfl
      · have hitem : Place.items.run d (c :: t) =
            (classItem category (c :: t)).any fun q => Place.items.run d q.2 := by
          rw [← run_item, Place.run_cons, Reader.stepFirst, if_neg hc]
          rfl
        have hopen : ¬ ((c :: t).head? = some ']' ∧ (!false) = true) := fun h =>
          hc (Option.some.inj h.1)
        rw [hitem, run_classItem category hopen (Nat.lt_succ_iff.mp h) fun u => ih]

/-- A class is read to the bracket that closes it. -/
theorem run_class (category : Char → Char → Bool) (t : List Char) :
    Reader.run ⟨d, .opened⟩ t = behindClass d (parseClass category t) := by
  have hfirst : ∀ c u n, (c :: u : List Char).length ≤ n →
      ((Reader.stepFirst d c).any fun r => r.run u) =
        behindClass d (classItems category (n + 1) true (c :: u)) := by
    intro c u n hn
    have hopen : ¬ ((c :: u).head? = some ']' ∧ (!true) = true) := fun h =>
      Bool.false_ne_true h.2
    rw [run_item category, run_classItem category hopen hn fun v => run_items category]
  rw [parseClass]
  cases t with
  | nil => rfl
  | cons c t =>
    rw [Reader.run_cons, Reader.step]
    dsimp only
    split_ifs with hc hcaret hcaret
    · cases t with
      | nil => rfl
      | cons b t =>
        rw [Option.any_some, Reader.run_cons]
        refine (hfirst b t _ (Nat.le_succ _)).trans ?_
        rw [List.tail_cons, List.length_cons]
        cases classItems category _ true (b :: t) <;> rfl
    · exact absurd (congrArg some hc) hcaret
    · exact absurd (Option.some.inj hcaret) hc
    · exact hfirst c t _ le_rfl

end

/-! ### Rounds -/

/-- What a parser that is between two rounds has read: the depth of the groups, and what a
repetition would stand behind. -/
structure Level where
  depth : ℕ
  behind : Behind

def Level.push (l : Level) : Token → Option Level
  | .item _ => some ⟨l.depth, .item⟩
  | .quote text =>
    some ⟨l.depth, if text = [] ∧ l.behind = .nothing then .nothing else .item⟩
  | .leftParen => some ⟨l.depth + 1, .nothing⟩
  | .verticalBar => some ⟨l.depth, .nothing⟩
  | .rightParen => if l.depth = 0 then none else some ⟨l.depth - 1, .item⟩
  | .repeatOp _ => if l.behind = .item then some ⟨l.depth, .repetition⟩ else none

def Level.run (l : Level) (t : List Char) : Bool := (Place.outside l.behind).run l.depth t

section

variable {l : Level}

theorem run_lazy (d : ℕ) (t : List Char) :
    Reader.run ⟨d, .lazy⟩ t = Level.run ⟨d, .repetition⟩ (skipLazy t) := by
  cases t with
  | nil => rfl
  | cons c t =>
    rw [Reader.run_cons, Reader.step, skipLazy]
    dsimp only
    rw [List.head?_cons, List.tail_cons]
    by_cases hc : c = '?'
    · rw [if_pos hc, if_pos (congrArg some hc)]
      rfl
    · rw [if_neg hc, if_neg fun h => hc (Option.some.inj h)]
      exact (Place.run_cons (.outside .repetition) d c t).symm

theorem run_quote (d : ℕ) (behind : Behind) (t : List Char) :
    Reader.run ⟨d, .quote behind⟩ t =
      Level.run ⟨d, if (cutQuote t).1 = [] then behind else .item⟩ (cutQuote t).2 := by
  fun_induction cutQuote t generalizing behind with
  | case1 => rfl
  | case2 c =>
    rw [Reader.run_cons, Reader.step]
    dsimp only
    split_ifs <;> rfl
  | case3 c e t h =>
    obtain ⟨rfl, rfl⟩ := h
    rfl
  | case4 c e t h ih =>
    have hitem := ih .item
    rw [ite_self] at hitem
    rw [Prod.map_fst, if_neg (List.cons_ne_nil _ _)]
    refine Eq.trans ?_ hitem
    rw [Reader.run_cons, Reader.step]
    dsimp only
    by_cases hc : c = '\\'
    · have he : e ≠ 'E' := fun he => h ⟨hc, he⟩
      rw [if_pos hc, Option.any_some, Reader.run_cons, Reader.step, Reader.run_cons, Reader.step]
      dsimp only
      rw [if_neg he]
    · rw [if_neg hc]
      rfl

theorem run_escape (category : Char → Char → Bool) (l : Level) (t : List Char) :
    Reader.run ⟨l.depth, .escape (.outside l.behind)⟩ t =
      (nextEscape category t).any fun q => (l.push q.1).any fun l => l.run q.2 := by
  cases t with
  | nil => rfl
  | cons c t =>
    rw [Reader.run_cons, nextEscape]
    change ((Reader.stepEscape l.depth (.outside l.behind) c).any _) = _
    rw [Reader.stepEscape]
    dsimp only
    cases hassert : assertion c with
    | some re => rfl
    | none =>
      dsimp only
      rw [if_neg (by simp)]
      by_cases hquote : c = 'Q'
      · rw [if_pos hquote, if_pos hquote, Option.any_some, run_quote, Option.any_some]
        obtain ⟨d, behind⟩ := l
        cases behind with
        | repetition => simp [Level.push]
        | nothing => simp [Level.push]
        | item => simp [Level.push]
      · rw [if_neg hquote, if_neg hquote, Reader.stepSet]
        by_cases hp : c = 'p' ∨ c = 'P'
        · rw [if_pos hp, if_pos hp, Option.any_some, run_category _ c, Option.any_map]
          rfl
        · rw [if_neg hp, if_neg hp]
          cases hperl : perlClass c with
          | some ok => rfl
          | none =>
            rw [if_neg (by simp), run_char, Option.any_map]
            rfl

theorem run_next (category : Char → Char → Bool) (l : Level) (c : Char) (t : List Char) :
    l.run (c :: t) =
      (next category (c :: t)).any fun q => (l.push q.1).any fun l => l.run q.2 := by
  have hstep : l.run (c :: t) =
      (Reader.stepOutside l.depth l.behind c).any fun r => r.run t :=
    Place.run_cons (.outside l.behind) l.depth c t
  have hrepeat : ∀ op, (if l.behind = .item then some (Reader.mk l.depth .lazy) else none).any
      (fun r => r.run t) = (l.push (.repeatOp op)).any fun l => l.run (skipLazy t) := by
    intro op
    rw [Level.push]
    split_ifs
    · exact run_lazy l.depth t
    · rfl
  rw [hstep]
  by_cases hclose : c = ')'
  · subst hclose
    change Option.any (fun r : Reader => r.run t) (if l.depth = 0 then none else _) =
      Option.any (fun l : Level => l.run t) (if l.depth = 0 then none else _)
    split_ifs <;> rfl
  by_cases hbracket : c = '['
  · subst hbracket
    change Reader.run ⟨l.depth, .opened⟩ t = ((parseClass category t).map _).any _
    rw [run_class category, Option.any_map]
    rfl
  by_cases hback : c = '\\'
  · subst hback
    exact run_escape category l t
  by_cases hletter : c ∈ ['(', '|', '*', '+', '?', '^', '$', '.']
  · simp only [List.mem_cons, List.not_mem_nil, or_false] at hletter
    rcases hletter with rfl | rfl | rfl | rfl | rfl | rfl | rfl | rfl
    · rfl
    · rfl
    · exact hrepeat .star
    · exact hrepeat .plus
    · exact hrepeat .quest
    · rfl
    · rfl
    · rfl
  · simp only [List.mem_cons, List.not_mem_nil, or_false, not_or] at hletter
    have hoperator : operator c = none := by simp [operator, hletter, hclose]
    have hrepetition : repetition c = none := by simp [repetition, hletter]
    have hitem : Reader.stepOutside l.depth l.behind c =
        some ⟨l.depth, .ready (.outside .item)⟩ := by
      simp [Reader.stepOutside, hletter, hclose, hbracket, hback]
    rw [next, hoperator, hrepetition, hitem]
    dsimp only
    rw [if_neg hbracket, if_neg hback]
    rfl

/-- The tokens of the rest are accepted. -/
def Level.reads (category : Char → Char → Bool) (l : Level) (t : List Char) : Bool :=
  ((tokens category t).bind fun tokens => tokens.foldlM Level.push l).any fun l => l.depth = 0

theorem reads_cons (category : Char → Char → Bool) (l : Level) (c : Char) (t : List Char) :
    l.reads category (c :: t) = (next category (c :: t)).any fun q =>
      (l.push q.1).any fun l => l.reads category q.2 := by
  rw [Level.reads, tokens_cons]
  cases next category (c :: t) with
  | none => rfl
  | some q =>
    rw [Option.bind_some, Option.any_some]
    cases hpush : l.push q.1 with
    | none => cases tokens category q.2 <;> simp [hpush]
    | some l' =>
      rw [Option.any_some, Level.reads]
      cases tokens category q.2 <;> simp [hpush]

theorem run_eq_reads (category : Char → Char → Bool) (l : Level) (t : List Char) :
    l.run t = l.reads category t := by
  induction hn : t.length using Nat.strong_induction_on generalizing l t with
  | _ n ih =>
    cases t with
    | nil => rfl
    | cons c t =>
      rw [run_next category, reads_cons]
      cases hnext : next category (c :: t) with
      | none => rfl
      | some q =>
        have hle := next_length hnext
        rw [List.length_cons] at hn
        rw [Option.any_some, Option.any_some]
        cases l.push q.1 with
        | none => rfl
        | some l' => exact ih q.2.length (by omega) l' q.2 rfl

end

/-! ### The parser's stack -/

def Stack.level (st : Stack) : Level :=
  ⟨st.outer.length,
    if st.frame.items = [] then .nothing else if st.afterRepeat then .repetition else .item⟩

theorem level_push (st : Stack) (token : Token) :
    (st.push token).map Stack.level = st.level.push token := by
  obtain ⟨⟨alts, items⟩, outer, afterRepeat⟩ := st
  cases token with
  | item re => rfl
  | quote text =>
    cases items <;> cases text <;> cases afterRepeat <;> simp [Stack.push, Stack.add, Stack.level, Level.push]
  | leftParen => rfl
  | rightParen =>
    cases outer with
    | nil => rfl
    | cons f outer => rfl
  | verticalBar => rfl
  | repeatOp op =>
    cases afterRepeat <;> cases items <;> rfl

theorem level_pushAll (st : Stack) (tokens : List Token) :
    (pushAll st tokens).map Stack.level = tokens.foldlM Level.push st.level := by
  induction tokens generalizing st with
  | nil => rfl
  | cons token tokens ih =>
    rw [pushAll, List.foldlM_cons, List.foldlM_cons, ← level_push]
    cases st.push token with
    | none => rfl
    | some st' => exact ih st'

/-- The reader accepts the expressions that the parser accepts. -/
theorem isSome_compile (category : Char → Char → Bool) (s : List Char) :
    (compile category s).isSome = Level.run ⟨0, .nothing⟩ s := by
  rw [run_eq_reads category, compile_eq, Level.reads]
  cases tokens category s with
  | none => rfl
  | some ts =>
    have hlevel := level_pushAll start ts
    rw [Option.bind_some, Option.bind_some, parse]
    change _ = Option.any _ (ts.foldlM Level.push start.level)
    rw [← hlevel]
    cases pushAll start ts with
    | none => rfl
    | some st =>
      obtain ⟨frame, outer, afterRepeat⟩ := st
      cases outer <;> rfl

end Syntax

end GoLib
