import Konsul.Lib.Glob

/-!
# Regular expressions

`regexp.MustCompile` reads an expression with the flags of Perl, and `MatchString` looks
for a place in a text where it matches. Both work on the characters of valid UTF-8. The
parser is the one of `regexp/syntax`, without groups, captures and flags behind `(?`,
counted repetitions, the classes named between `[:` and `:]` and the braces of `\x` and
`\p`: an expression whose operators all stand behind a backslash, but for stars and
classes of its own, has none of them.
-/

namespace GoLib

namespace Syntax

/-- The expressions, without their captures. -/
inductive Re where
  | empty
  | rune (ok : Char → Bool)
  | beginText
  | endText
  | wordBoundary (inverted : Bool)
  | cat (a b : Re)
  | alt (a b : Re)
  | star (a : Re)
  | plus (a : Re)
  | quest (a : Re)

/-! ### Matching -/

/-- A place in a text: what stands before it, the last character first, and behind it. -/
structure Pos where
  before : List Char
  after : List Char
  deriving DecidableEq

/-- `IsWordChar`. -/
def isWord (c : Char) : Bool := c.isAlphanum || c = '_'

def Pos.atWordBoundary (p : Pos) : Bool := p.before.head?.any isWord != p.after.head?.any isWord

def Pos.step (ok : Char → Bool) (p : Pos) : List Pos :=
  match p.after with
  | [] => []
  | c :: after => if ok c then [⟨c :: p.before, after⟩] else []

/-- The places that any number of rounds reach, where every round goes on in the text. -/
def rounds (next : Pos → List Pos) : ℕ → Pos → List Pos
  | 0, p => [p]
  | n + 1, p =>
    p :: ((next p).filter fun q => q.after.length < p.after.length).flatMap (rounds next n)

/-- The places where a match that starts at the place may end. -/
def Re.ends : Re → Pos → List Pos
  | .empty, p => [p]
  | .rune ok, p => p.step ok
  | .beginText, p => if p.before = [] then [p] else []
  | .endText, p => if p.after = [] then [p] else []
  | .wordBoundary inverted, p => if p.atWordBoundary != inverted then [p] else []
  | .cat a b, p => (a.ends p).flatMap b.ends
  | .alt a b, p => a.ends p ++ b.ends p
  | .star a, p => rounds a.ends p.after.length p
  | .plus a, p => (a.ends p).flatMap fun q => rounds a.ends q.after.length q
  | .quest a, p => p :: a.ends p

def places (before : List Char) : List Char → List Pos
  | [] => [⟨before, []⟩]
  | c :: after => ⟨before, c :: after⟩ :: places (c :: before) after

/-- `MatchString`. -/
def Re.found (re : Re) (text : List Char) : Bool :=
  (places [] text).any fun p => !(re.ends p).isEmpty

/-! ### Characters of an expression -/

def isOctal (c : Char) : Bool := '0' ≤ c && c ≤ '7'

/-- Up to so many more octal digits. -/
def octal : ℕ → ℕ → List Char → ℕ × List Char
  | k + 1, n, c :: t => if isOctal c then octal k (n * 8 + (c.toNat - '0'.toNat)) t else (n, c :: t)
  | _, n, t => (n, t)

def unhex (c : Char) : Option ℕ :=
  if '0' ≤ c ∧ c ≤ '9' then some (c.toNat - '0'.toNat)
  else if 'a' ≤ c ∧ c ≤ 'f' then some (c.toNat - 'a'.toNat + 10)
  else if 'A' ≤ c ∧ c ≤ 'F' then some (c.toNat - 'A'.toNat + 10)
  else none

/-- The escapes of two hexadecimal digits. -/
def hexEscape : List Char → Option (Char × List Char)
  | a :: b :: t => do
    let x ← unhex a
    let y ← unhex b
    some (Char.ofNat (x * 16 + y), t)
  | _ => none

/-- The escapes of one character: the letters of C, and what is no letter and no digit. -/
def charEscape (c : Char) : Option Char :=
  if c = 'a' then some (Char.ofNat 7)
  else if c = 'f' then some (Char.ofNat 12)
  else if c = 'n' then some '\n'
  else if c = 'r' then some '\r'
  else if c = 't' then some '\t'
  else if c = 'v' then some (Char.ofNat 11)
  else if c.toNat < 0x80 ∧ !c.isAlphanum then some c
  else none

/-- `parseEscape`, behind the backslash. -/
def parseEscape : List Char → Option (Char × List Char)
  | [] => none
  | c :: t =>
    if c = '0' ∨ (isOctal c ∧ t.head?.any isOctal) then
      some ((octal 2 (c.toNat - '0'.toNat) t).map Char.ofNat id)
    else if c = 'x' then hexEscape t
    else (charEscape c).map fun d => (d, t)

def isSpace (c : Char) : Bool := c = '\t' || c = '\n' || c = Char.ofNat 12 || c = '\r' || c = ' '

/-- `parsePerlClassEscape`, at the letter behind the backslash. -/
def perlClass (c : Char) : Option (Char → Bool) :=
  if c = 'd' then some Char.isDigit
  else if c = 'D' then some fun r => !r.isDigit
  else if c = 's' then some isSpace
  else if c = 'S' then some fun r => !isSpace r
  else if c = 'w' then some isWord
  else if c = 'W' then some fun r => !isWord r
  else none

section

-- the characters of the general categories with a name of one letter
variable (category : Char → Char → Bool)

/-- `parseUnicodeClass`, at the `p` or `P` behind the backslash. -/
def unicodeClass (p : Char) : List Char → Option ((Char → Bool) × List Char)
  | [] => none
  | name :: t =>
    if name ∈ ['C', 'L', 'M', 'N', 'P', 'S', 'Z'] then
      some (fun r => category name r != (p = 'P'), t)
    else none

/-- `parseClassChar`. -/
def classChar : List Char → Option (Char × List Char)
  | [] => none
  | c :: t => if c = '\\' then parseEscape t else some (c, t)

/-- A hyphen that is not the last character of the class. -/
def isRange (t : List Char) : Bool :=
  t.head? = some '-' && t.tail ≠ [] && t.tail.head? ≠ some ']'

/-- One character of a class, or a range of them. -/
def classRange (t : List Char) : Option ((Char → Bool) × List Char) := do
  let (lo, t) ← classChar t
  if isRange t then do
    let (hi, t) ← classChar t.tail
    if hi < lo then none else some (fun r => lo ≤ r && r ≤ hi, t)
  else some (fun r => r = lo, t)

def classItem (t : List Char) : Option ((Char → Bool) × List Char) :=
  if t.head? = some '\\' then
    match t.tail with
    | [] => none
    | c :: t' =>
      if c = 'p' ∨ c = 'P' then unicodeClass category c t'
      else
        match perlClass c with
        | some ok => some (ok, t')
        | none => classRange t
  else classRange t

/-- The loop of `parseClass`; a bracket closes the class unless it comes first. -/
def classItems : ℕ → Bool → List Char → Option ((Char → Bool) × List Char)
  | 0, _, _ => none
  | fuel + 1, first, t =>
    if t.head? = some ']' ∧ !first then some (fun _ => false, t.tail)
    else do
      let (ok, t) ← classItem category t
      let (rest, t) ← classItems fuel false t
      some (fun r => ok r || rest r, t)

/-- `parseClass`, behind the opening bracket. -/
def parseClass (t : List Char) : Option ((Char → Bool) × List Char) :=
  if t.head? = some '^' then do
    let (ok, t) ← classItems category (t.length + 1) true t.tail
    some (fun r => !ok r, t)
  else classItems category (t.length + 1) true t

/-! ### Tokens -/

inductive RepeatOp where
  | star
  | plus
  | quest
  deriving DecidableEq

def RepeatOp.apply : RepeatOp → Re → Re
  | star => .star
  | plus => .plus
  | quest => .quest

/-- What one round of the parser's loop takes from the expression. -/
inductive Token where
  | item (re : Re)
  | quote (text : List Char)
  | leftParen
  | rightParen
  | verticalBar
  | repeatOp (op : RepeatOp)

def char (c : Char) : Re := .rune fun r => r = c

/-- The text up to `\E`, and what stands behind it. -/
def cutQuote : List Char → List Char × List Char
  | [] => ([], [])
  | [c] => ([c], [])
  | c :: d :: t =>
    if c = '\\' ∧ d = 'E' then ([], t)
    else ((cutQuote (d :: t)).map (c :: ·) id)

/-- The question mark that makes a repetition lazy. -/
def skipLazy (t : List Char) : List Char := if t.head? = some '?' then t.tail else t

def assertion (c : Char) : Option Re :=
  if c = 'A' then some .beginText
  else if c = 'b' then some (.wordBoundary false)
  else if c = 'B' then some (.wordBoundary true)
  else if c = 'z' then some .endText
  else none

/-- The round at a backslash. -/
def nextEscape : List Char → Option (Token × List Char)
  | [] => none
  | c :: t =>
    match assertion c with
    | some re => some (.item re, t)
    | none =>
      if c = 'Q' then some (.quote (cutQuote t).1, (cutQuote t).2)
      else if c = 'p' ∨ c = 'P' then
        (unicodeClass category c t).map fun (ok, t) => (.item (.rune ok), t)
      else
        match perlClass c with
        | some ok => some (.item (.rune ok), t)
        | none => (parseEscape (c :: t)).map fun (c, t) => (.item (char c), t)

/-- What a dot stands for. -/
def notNewline (c : Char) : Bool := c ≠ '\n'

/-- What `[^/]` stands for. -/
def notSlash (c : Char) : Bool := c ≠ '/'

def operator (c : Char) : Option Token :=
  if c = '(' then some .leftParen
  else if c = '|' then some .verticalBar
  else if c = ')' then some .rightParen
  else if c = '^' then some (.item .beginText)
  else if c = '$' then some (.item .endText)
  else if c = '.' then some (.item (.rune notNewline))
  else none

def repetition (c : Char) : Option RepeatOp :=
  if c = '*' then some .star
  else if c = '+' then some .plus
  else if c = '?' then some .quest
  else none

def next : List Char → Option (Token × List Char)
  | [] => none
  | c :: t =>
    match operator c with
    | some token => some (token, t)
    | none =>
      match repetition c with
      | some op => some (.repeatOp op, skipLazy t)
      | none =>
        if c = '[' then (parseClass category t).map fun (ok, t) => (.item (.rune ok), t)
        else if c = '\\' then nextEscape category t
        else some (.item (char c), t)

/-- The rounds of the loop; each takes at least one character. -/
def lex : ℕ → List Char → Option (List Token)
  | _, [] => some []
  | 0, _ :: _ => none
  | fuel + 1, c :: t => do
    let (token, t) ← next category (c :: t)
    let tokens ← lex fuel t
    some (token :: tokens)

end

/-! ### The stack of the parser -/

/-- A group that is open: its finished alternatives, and the items of the present one, the
last of them first. -/
structure Frame where
  alts : List Re
  items : List Re

structure Stack where
  frame : Frame
  outer : List Frame
  afterRepeat : Bool

def concat (items : List Re) : Re := items.foldl (fun re item => .cat item re) .empty

def Frame.close (f : Frame) : Re := f.alts.foldl (fun re a => .alt a re) (concat f.items)

def Stack.add (st : Stack) (items : List Re) : Stack :=
  { st with frame := { st.frame with items := items ++ st.frame.items }, afterRepeat := false }

/-- A repetition has to follow an item, and may not follow a repetition; a closing
parenthesis has to close a group. -/
def Stack.push (st : Stack) : Token → Option Stack
  | .item re => some (st.add [re])
  | .quote text => some (st.add (text.map char).reverse)
  | .leftParen => some ⟨⟨[], []⟩, st.frame :: st.outer, false⟩
  | .verticalBar => some ⟨⟨concat st.frame.items :: st.frame.alts, []⟩, st.outer, false⟩
  | .rightParen =>
    match st.outer with
    | [] => none
    | f :: outer => some ⟨{ f with items := st.frame.close :: f.items }, outer, false⟩
  | .repeatOp op =>
    match st.afterRepeat, st.frame.items with
    | false, re :: items =>
      some { st with frame := { st.frame with items := op.apply re :: items }, afterRepeat := true }
    | _, _ => none

def start : Stack := ⟨⟨[], []⟩, [], false⟩

def pushAll (st : Stack) (tokens : List Token) : Option Stack := tokens.foldlM Stack.push st

def parse (tokens : List Token) : Option Re := do
  let st ← pushAll start tokens
  if st.outer = [] then some st.frame.close else none

/-- `syntax.Parse`. -/
def compile (category : Char → Char → Bool) (s : List Char) : Option Re := do
  let tokens ← lex category s.length s
  parse tokens

/-! ### Globs as expressions -/

theorem mem_step_iff {ok : Char → Bool} {p q : Pos} :
    q ∈ p.step ok ↔ ∃ c v, p.after = c :: v ∧ ok c ∧ q = ⟨c :: p.before, v⟩ := by
  unfold Pos.step
  cases hafter : p.after with
  | nil => exact iff_of_false List.not_mem_nil fun ⟨c, v, h, _⟩ => nomatch h
  | cons c after =>
    dsimp only
    split_ifs with hok
    · rw [List.mem_singleton]
      constructor
      · rintro rfl
        exact ⟨c, after, rfl, hok, rfl⟩
      · rintro ⟨d, v, h, -, rfl⟩
        cases h
        rfl
    · refine iff_of_false List.not_mem_nil fun ⟨d, v, h, hd, _⟩ => hok ?_
      cases h
      exact hd

theorem mem_rounds_step_iff {ok : Char → Bool} {n : ℕ} {p q : Pos} (h : p.after.length ≤ n) :
    q ∈ rounds (Pos.step ok) n p ↔
      ∃ u v, p.after = u ++ v ∧ (∀ c ∈ u, ok c) ∧ q = ⟨u.reverse ++ p.before, v⟩ := by
  induction n generalizing p with
  | zero =>
    have hnil : p.after = [] := List.length_eq_zero_iff.mp (Nat.le_zero.mp h)
    rw [rounds, List.mem_singleton]
    constructor
    · rintro rfl
      exact ⟨[], q.after, rfl, fun c hc => absurd hc List.not_mem_nil, rfl⟩
    · rintro ⟨u, v, huv, -, rfl⟩
      rw [hnil] at huv
      obtain ⟨rfl, rfl⟩ := List.append_eq_nil_iff.mp huv.symm
      exact congrArg (Pos.mk p.before) hnil.symm
  | succ n ih =>
    rw [rounds, List.mem_cons, List.mem_flatMap]
    constructor
    · rintro (rfl | ⟨p', hp', hq⟩)
      · exact ⟨[], q.after, rfl, fun c hc => absurd hc List.not_mem_nil, rfl⟩
      · obtain ⟨c, after, hafter, hok, rfl⟩ := mem_step_iff.mp (List.mem_filter.mp hp').1
        rw [hafter, List.length_cons] at h
        obtain ⟨u, v, rfl, hu, rfl⟩ := (ih (by dsimp only; omega)).mp hq
        refine ⟨c :: u, v, hafter, List.forall_mem_cons.mpr ⟨hok, hu⟩, ?_⟩
        rw [List.reverse_cons, List.append_assoc]
        rfl
    · rintro ⟨u, v, huv, hu, rfl⟩
      cases u with
      | nil => exact .inl (congrArg (Pos.mk p.before) huv.symm)
      | cons c u =>
        rw [List.forall_mem_cons] at hu
        rw [huv, List.cons_append, List.length_cons] at h
        refine .inr ⟨⟨c :: p.before, u ++ v⟩, ?_, (ih (by dsimp only; omega)).mpr ⟨u, v, rfl, hu.2, ?_⟩⟩
        · refine List.mem_filter.mpr ⟨mem_step_iff.mpr ⟨c, u ++ v, huv, hu.1, rfl⟩, ?_⟩
          rw [huv]
          simp
        · rw [List.reverse_cons, List.append_assoc]
          rfl

def ofItem : Glob.Item Char → Re
  | .lit a => char a
  | .run ok => .star (.rune ok)

theorem mem_ends_cat_iff {a b : Re} {p q : Pos} :
    q ∈ (Re.cat a b).ends p ↔ ∃ r ∈ a.ends p, q ∈ b.ends r := by
  rw [Re.ends, List.mem_flatMap]

/-- The items of a glob up to the end of the text. -/
theorem exists_mem_ends_iff (is : List (Glob.Item Char)) (p : Pos) :
    (∃ q, q ∈ ((is.map ofItem ++ [Re.endText]).foldr Re.cat Re.empty).ends p) ↔
      Glob.accepts is p.after := by
  induction is generalizing p with
  | nil =>
    rw [Glob.accepts_nil_iff]
    simp only [List.map_nil, List.nil_append, List.foldr_cons, List.foldr_nil, Re.ends]
    split_ifs with hafter
    · exact iff_of_true ⟨p, List.mem_singleton_self p⟩ hafter
    · exact iff_of_false (fun ⟨q, hq⟩ => absurd hq List.not_mem_nil) hafter
  | cons i is ih =>
    simp only [List.map_cons, List.cons_append, List.foldr_cons, mem_ends_cat_iff]
    rw [exists_comm]
    simp only [exists_and_left, ih]
    cases i with
    | lit a =>
      rw [Glob.accepts_lit_iff]
      constructor
      · rintro ⟨r, hr, h⟩
        obtain ⟨c, v, hafter, hc, rfl⟩ := mem_step_iff.mp hr
        obtain rfl := of_decide_eq_true hc
        exact ⟨v, hafter, h⟩
      · rintro ⟨v, hafter, h⟩
        exact ⟨_, mem_step_iff.mpr ⟨a, v, hafter, decide_eq_true rfl, rfl⟩, h⟩
    | run ok =>
      rw [Glob.accepts_run_iff]
      constructor
      · rintro ⟨r, hr, h⟩
        obtain ⟨u, v, hafter, hu, rfl⟩ := (mem_rounds_step_iff (le_refl _)).mp hr
        exact ⟨u, v, hafter, hu, h⟩
      · rintro ⟨u, v, hafter, hu, h⟩
        exact ⟨_, (mem_rounds_step_iff (le_refl _)).mpr ⟨u, v, hafter, hu, rfl⟩, h⟩

theorem mem_places_start {before text : List Char} {p : Pos} (hp : p ∈ places before text)
    (hstart : p.before = []) : before = [] ∧ p = ⟨[], text⟩ := by
  induction text generalizing before with
  | nil =>
    obtain rfl := List.mem_singleton.mp hp
    exact ⟨hstart, congrArg (Pos.mk · []) hstart⟩
  | cons c text ih =>
    rcases List.mem_cons.mp hp with rfl | hp
    · exact ⟨hstart, congrArg (Pos.mk · (c :: text)) hstart⟩
    · exact absurd (ih hp).1 (List.cons_ne_nil c before)

theorem start_mem_places (text : List Char) : ⟨[], text⟩ ∈ places [] text := by
  cases text <;> exact List.mem_cons_self

theorem concat_reverse (items : List Re) : concat items.reverse = items.foldr .cat .empty := by
  rw [concat, List.foldl_reverse]

/-- An expression of items between the start and the end of a text is their glob. -/
theorem found_glob_iff (is : List (Glob.Item Char)) (text : List Char) :
    (concat (.beginText :: (is.map ofItem ++ [.endText])).reverse).found text ↔
      Glob.accepts is text := by
  have hends : ∀ p q, q ∈ (concat (.beginText :: (is.map ofItem ++ [.endText])).reverse).ends p ↔
      p.before = [] ∧ q ∈ ((is.map ofItem ++ [Re.endText]).foldr Re.cat Re.empty).ends p := by
    intro p q
    rw [concat_reverse, List.foldr_cons, mem_ends_cat_iff, Re.ends]
    split_ifs with hp
    · simp [hp]
    · simp [hp]
  rw [← exists_mem_ends_iff is ⟨[], text⟩, Re.found, List.any_eq_true]
  constructor
  · rintro ⟨p, hp, hne⟩
    rw [Bool.not_eq_true', List.isEmpty_eq_false_iff] at hne
    obtain ⟨q, hq⟩ := List.exists_mem_of_ne_nil _ hne
    obtain ⟨hstart, hq⟩ := (hends p q).mp hq
    obtain ⟨-, rfl⟩ := mem_places_start hp hstart
    exact ⟨q, hq⟩
  · rintro ⟨q, hq⟩
    have hmem := (hends ⟨[], text⟩ q).mpr ⟨rfl, hq⟩
    refine ⟨⟨[], text⟩, start_mem_places text, ?_⟩
    rw [Bool.not_eq_true', List.isEmpty_eq_false_iff]
    exact List.ne_nil_of_mem hmem

/-! ### Letters that an expression does not tell apart -/

/-- Every leaf that takes a letter takes its image too. -/
def Re.Blind (f : Char → Char) : Re → Prop
  | .rune ok => ∀ c, ok c → ok (f c)
  | .wordBoundary _ => False
  | .cat a b | .alt a b => a.Blind f ∧ b.Blind f
  | .star a | .plus a | .quest a => a.Blind f
  | .empty | .beginText | .endText => True

def Pos.map (f : Char → Char) (p : Pos) : Pos := ⟨p.before.map f, p.after.map f⟩

section

variable {f : Char → Char}

theorem map_mem_rounds {next : Pos → List Pos}
    (h : ∀ p q, q ∈ next p → q.map f ∈ next (p.map f)) {n : ℕ} {p q : Pos} (hq : q ∈ rounds next n p) :
    q.map f ∈ rounds next n (p.map f) := by
  induction n generalizing p with
  | zero =>
    rw [List.mem_singleton.mp hq]
    exact List.mem_singleton_self _
  | succ n ih =>
    rw [rounds, List.mem_cons, List.mem_flatMap] at hq ⊢
    rcases hq with rfl | ⟨r, hr, hq⟩
    · exact .inl rfl
    · rw [List.mem_filter] at hr
      refine .inr ⟨r.map f, List.mem_filter.mpr ⟨h p r hr.1, ?_⟩, ih hq⟩
      simpa [Pos.map] using hr.2

theorem Re.Blind.map_mem_ends {re : Re} (h : re.Blind f) {p q : Pos} (hq : q ∈ re.ends p) :
    q.map f ∈ re.ends (p.map f) := by
  have hnil : ∀ s : List Char, s.map f = [] ↔ s = [] := fun s => List.map_eq_nil_iff
  induction re generalizing p q with
  | empty =>
    rw [List.mem_singleton.mp hq]
    exact List.mem_singleton_self _
  | rune ok =>
    obtain ⟨c, v, hafter, hok, rfl⟩ := mem_step_iff.mp hq
    refine mem_step_iff.mpr ⟨f c, v.map f, ?_, h c hok, rfl⟩
    rw [Pos.map, hafter, List.map_cons]
  | beginText =>
    simp only [Re.ends, Pos.map, hnil] at hq ⊢
    split_ifs at hq ⊢
    · rw [List.mem_singleton.mp hq]
      exact List.mem_singleton_self _
    · exact absurd hq List.not_mem_nil
  | endText =>
    simp only [Re.ends, Pos.map, hnil] at hq ⊢
    split_ifs at hq ⊢
    · rw [List.mem_singleton.mp hq]
      exact List.mem_singleton_self _
    · exact absurd hq List.not_mem_nil
  | wordBoundary inverted => exact absurd h id
  | cat a b iha ihb =>
    obtain ⟨r, hr, hq⟩ := mem_ends_cat_iff.mp hq
    exact mem_ends_cat_iff.mpr ⟨r.map f, iha h.1 hr, ihb h.2 hq⟩
  | alt a b iha ihb =>
    rcases List.mem_append.mp hq with hq | hq
    · exact List.mem_append_left _ (iha h.1 hq)
    · exact List.mem_append_right _ (ihb h.2 hq)
  | star a ih =>
    have hlen : (p.map f).after.length = p.after.length := List.length_map f
    rw [Re.ends, hlen]
    exact map_mem_rounds (fun p q hq => ih h hq) hq
  | plus a ih =>
    obtain ⟨r, hr, hq⟩ := List.mem_flatMap.mp hq
    have hlen : (r.map f).after.length = r.after.length := List.length_map f
    refine List.mem_flatMap.mpr ⟨r.map f, ih h hr, ?_⟩
    rw [hlen]
    exact map_mem_rounds (fun p q hq => ih h hq) hq
  | quest a ih =>
    rcases List.mem_cons.mp hq with rfl | hq
    · exact List.mem_cons_self
    · exact List.mem_cons_of_mem _ (ih h hq)

theorem map_mem_places {before text : List Char} {p : Pos} (h : p ∈ places before text) :
    p.map f ∈ places (before.map f) (text.map f) := by
  induction text generalizing before with
  | nil =>
    rw [List.mem_singleton.mp h]
    exact List.mem_singleton_self _
  | cons c text ih =>
    rcases List.mem_cons.mp h with rfl | h
    · exact List.mem_cons_self
    · exact List.mem_cons_of_mem _ (ih h)

/-- What matches still matches with letters that look the same. -/
theorem Re.Blind.found {re : Re} (h : re.Blind f) {text : List Char} (hfound : re.found text) :
    re.found (text.map f) := by
  rw [Re.found, List.any_eq_true] at hfound ⊢
  obtain ⟨p, hp, hne⟩ := hfound
  obtain ⟨q, hq⟩ := List.exists_mem_of_ne_nil _ (by simpa using hne)
  refine ⟨p.map f, map_mem_places hp, ?_⟩
  simpa using List.ne_nil_of_mem (h.map_mem_ends hq)

def Token.Blind (f : Char → Char) : Token → Prop
  | .item re => re.Blind f
  | .quote text => ∀ c ∈ text, (char c).Blind f
  | _ => True

structure Frame.Blind (f : Char → Char) (frame : Frame) : Prop where
  alts : ∀ re ∈ frame.alts, re.Blind f
  items : ∀ re ∈ frame.items, re.Blind f

structure Stack.Blind (f : Char → Char) (st : Stack) : Prop where
  frame : st.frame.Blind f
  outer : ∀ frame ∈ st.outer, frame.Blind f

theorem blind_foldl {op : Re → Re → Re} (hop : ∀ a b, (op a b).Blind f ↔ a.Blind f ∧ b.Blind f)
    {items : List Re} (h : ∀ re ∈ items, re.Blind f) {re : Re} (hre : re.Blind f) :
    (items.foldl (fun re item => op item re) re).Blind f := by
  induction items generalizing re with
  | nil => exact hre
  | cons item items ih =>
    rw [List.forall_mem_cons] at h
    exact ih h.2 ((hop item re).mpr ⟨h.1, hre⟩)

theorem blind_concat {items : List Re} (h : ∀ re ∈ items, re.Blind f) : (concat items).Blind f :=
  blind_foldl (fun _ _ => Iff.rfl) h trivial

theorem Frame.Blind.close {frame : Frame} (h : frame.Blind f) : frame.close.Blind f :=
  blind_foldl (fun _ _ => Iff.rfl) h.alts (blind_concat h.items)

theorem Stack.Blind.push {st st' : Stack} {token : Token} (h : st.Blind f)
    (htoken : token.Blind f) (hpush : st.push token = some st') : st'.Blind f := by
  cases token with
  | item re =>
    cases hpush
    exact ⟨⟨h.frame.alts, List.forall_mem_cons.mpr ⟨htoken, h.frame.items⟩⟩, h.outer⟩
  | quote text =>
    cases hpush
    refine ⟨⟨h.frame.alts, List.forall_mem_append.mpr ⟨fun re hre => ?_, h.frame.items⟩⟩, h.outer⟩
    obtain ⟨c, hc, rfl⟩ := List.mem_map.mp (List.mem_reverse.mp hre)
    exact htoken c hc
  | leftParen =>
    cases hpush
    exact ⟨⟨fun re hre => absurd hre List.not_mem_nil, fun re hre => absurd hre List.not_mem_nil⟩,
      List.forall_mem_cons.mpr ⟨h.frame, h.outer⟩⟩
  | verticalBar =>
    cases hpush
    exact ⟨⟨List.forall_mem_cons.mpr ⟨blind_concat h.frame.items, h.frame.alts⟩,
      fun re hre => absurd hre List.not_mem_nil⟩, h.outer⟩
  | rightParen =>
    have houter := h.outer
    rw [Stack.push] at hpush
    cases hst : st.outer with
    | nil =>
      rw [hst] at hpush
      cases hpush
    | cons frame outer =>
      rw [hst] at hpush houter
      cases hpush
      rw [List.forall_mem_cons] at houter
      exact ⟨⟨houter.1.alts, List.forall_mem_cons.mpr ⟨h.frame.close, houter.1.items⟩⟩, houter.2⟩
  | repeatOp op =>
    have hitems := h.frame.items
    rw [Stack.push] at hpush
    cases hafter : st.afterRepeat <;> cases hst : st.frame.items <;> rw [hafter, hst] at hpush <;>
      cases hpush
    rw [hst, List.forall_mem_cons] at hitems
    refine ⟨⟨h.frame.alts, List.forall_mem_cons.mpr ⟨?_, hitems.2⟩⟩, h.outer⟩
    cases op <;> exact hitems.1

theorem Stack.Blind.pushAll {st st' : Stack} {tokens : List Token} (h : st.Blind f)
    (htokens : ∀ token ∈ tokens, token.Blind f) (hpush : pushAll st tokens = some st') :
    st'.Blind f := by
  induction tokens generalizing st with
  | nil =>
    cases hpush
    exact h
  | cons token tokens ih =>
    rw [List.forall_mem_cons] at htokens
    rw [Syntax.pushAll, List.foldlM_cons] at hpush
    obtain ⟨mid, hmid, hpush⟩ := Option.bind_eq_some_iff.mp hpush
    exact ih (h.push htokens.1 hmid) htokens.2 hpush

theorem blind_parse {tokens : List Token} {re : Re} (htokens : ∀ token ∈ tokens, token.Blind f)
    (h : parse tokens = some re) : re.Blind f := by
  obtain ⟨st, hst, hre⟩ := Option.bind_eq_some_iff.mp h
  have hstart : start.Blind f :=
    ⟨⟨fun re hre => absurd hre List.not_mem_nil, fun re hre => absurd hre List.not_mem_nil⟩,
      fun frame hframe => absurd hframe List.not_mem_nil⟩
  split_ifs at hre
  cases hre
  exact (hstart.pushAll htokens hst).frame.close

end

end Syntax

end GoLib
