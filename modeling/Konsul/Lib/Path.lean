import Konsul.Lib.Strings

/-!
# Slash-separated paths

`clean` is `path.Clean` by elements, and `matchPath` is `filepath.Match` on a
Unix system: chunks of single-character operators, each possibly behind a star.
The fuel arguments bound the loops by the length of the pattern, which every
iteration shortens.
-/

namespace GoLib

namespace Path

def slash : UInt8 := 0x2F
def dot : Bytes := [0x2E]
def dotdot : Bytes := [0x2E, 0x2E]

/-- One element of the path read, onto the elements kept so far (last first). -/
def cleanElem (rooted : Bool) (kept : List Bytes) (elem : Bytes) : List Bytes :=
  if elem = [] ∨ elem = dot then kept
  else if elem = dotdot then
    match kept with
    | [] => if rooted then [] else [dotdot]
    | last :: rest => if last = dotdot then dotdot :: kept else rest
  else elem :: kept

/-- `path.Clean`. -/
def clean (p : Bytes) : Bytes :=
  let rooted := hasPrefix p [slash]
  let out := join slash ((split slash p).foldl (cleanElem rooted) []).reverse
  if rooted then slash :: out else if out = [] then dot else out

theorem split_ne_nil (sep : UInt8) (p : Bytes) : split sep p ≠ [] := by
  induction p with
  | nil => exact List.cons_ne_nil _ _
  | cons b p ih =>
    rw [split]
    cases hsplit : split sep p with
    | nil => exact absurd hsplit ih
    | cons w ws =>
      dsimp only
      split <;> exact List.cons_ne_nil _ _

theorem split_append_sep (sep : UInt8) (p : Bytes) :
    split sep (p ++ [sep]) = split sep p ++ [[]] := by
  induction p with
  | nil => simp [split]
  | cons b p ih =>
    rw [List.cons_append, split, ih, split]
    cases hsplit : split sep p with
    | nil => exact absurd hsplit (split_ne_nil sep p)
    | cons w ws => by_cases hb : b = sep <;> simp [hb]

theorem clean_append_slash {p : Bytes} (hp : p ≠ []) : clean (p ++ [slash]) = clean p := by
  have hrooted : hasPrefix (p ++ [slash]) [slash] = hasPrefix p [slash] := by
    cases p with
    | nil => exact absurd rfl hp
    | cons b p => simp [hasPrefix, List.isPrefixOf]
  have hfold (rooted : Bool) (kept : List Bytes) :
      ((split slash p) ++ [[]]).foldl (cleanElem rooted) kept =
        (split slash p).foldl (cleanElem rooted) kept := by
    rw [List.foldl_append]
    simp [cleanElem]
  simp only [clean, hrooted, split_append_sep, hfold]

theorem clean_append_slashes {p : Bytes} (hp : p ≠ []) (n : ℕ) :
    clean (p ++ List.replicate n slash) = clean p := by
  induction n with
  | zero => rw [List.replicate_zero, List.append_nil]
  | succ n ih =>
    rw [List.replicate_succ', ← List.append_assoc, clean_append_slash (by simp [hp]), ih]

/-! ### `filepath.Match` -/

/-- `filepath.ErrBadPattern`. -/
inductive MatchError where
  | badPattern
  deriving DecidableEq, Repr

def star : UInt8 := 0x2A
def question : UInt8 := 0x3F
def openBracket : UInt8 := 0x5B
def closeBracket : UInt8 := 0x5D
def backslash : UInt8 := 0x5C
def caret : UInt8 := 0x5E
def hyphen : UInt8 := 0x2D

/-- The length of the longest chunk at the head of a pattern: up to a star
outside brackets. -/
def chunkLength (inrange : Bool) : Bytes → ℕ
  | [] => 0
  | [b] => if b = star ∧ !inrange then 0 else 1
  | b :: c :: s =>
    if b = backslash then 2 + chunkLength inrange s
    else if b = openBracket then 1 + chunkLength true (c :: s)
    else if b = closeBracket then 1 + chunkLength false (c :: s)
    else if b = star ∧ !inrange then 0
    else 1 + chunkLength inrange (c :: s)

/-- `scanChunk`: whether a star leads, the chunk, and the rest of the pattern. -/
def scanChunk (pattern : Bytes) : Bool × Bytes × Bytes :=
  let body := pattern.dropWhile (· = star)
  let n := chunkLength false body
  (decide (body.length < pattern.length), body.take n, body.drop n)

/-- `getEsc`: a possibly escaped rune of a character class. -/
def getEsc (chunk : Bytes) : Except MatchError (ℕ × Bytes) :=
  match chunk with
  | [] => .error .badPattern
  | b :: s =>
    if b = hyphen ∨ b = closeBracket then .error .badPattern
    else
      let chunk := if b = backslash then s else chunk
      let (r, n) := Utf8.decodeRune chunk
      if chunk = [] ∨ (r = 0xFFFD ∧ n = 1) ∨ chunk.drop n = [] then .error .badPattern
      else .ok (r, chunk.drop n)

/-- The ranges of a character class up to its closing bracket, which the first
range cannot be. -/
def matchRanges (r : ℕ) : ℕ → Bool → Bool → Bytes → Except MatchError (Bool × Bytes)
  | 0, _, _, _ => .error .badPattern
  | fuel + 1, first, hit, chunk => do
    if chunk.head? = some closeBracket ∧ !first then
      return (hit, chunk.tail)
    let (lo, chunk) ← getEsc chunk
    let (hi, chunk) ← if chunk.head? = some hyphen then getEsc chunk.tail else pure (lo, chunk)
    matchRanges r fuel false (hit || (decide (lo ≤ r) && decide (r ≤ hi))) chunk

/-- The rest of `s` after one given byte. -/
def matchByte (c : UInt8) : Bytes → Option Bytes
  | [] => none
  | b :: s => if b = c then some s else none

/-- `matchChunk`: what is left of the string after the chunk, `none` once the
match has failed. The chunk is read to its end all the same, for its syntax. -/
def matchChunk : ℕ → Bytes → Option Bytes → Except MatchError (Option Bytes)
  | _, [], s => .ok s
  | 0, _ :: _, _ => .error .badPattern
  | fuel + 1, c :: chunk, s => do
    let s := if s = some [] then none else s
    if c = openBracket then
      let r := match s with
        | none => 0
        | some s => (Utf8.decodeRune s).1
      let s := s.map fun s => s.drop (Utf8.decodeRune s).2
      let negated := decide (chunk.head? = some caret)
      let (hit, chunk) ← matchRanges r (chunk.length + 1) true false
        (if negated then chunk.tail else chunk)
      matchChunk fuel chunk (if hit = negated then none else s)
    else if c = question then
      matchChunk fuel chunk (s.bind fun s =>
        if s.head? = some slash then none else some (s.drop (Utf8.decodeRune s).2))
    else if c = backslash then
      match chunk with
      | [] => .error .badPattern
      | c :: chunk => matchChunk fuel chunk (s.bind (matchByte c))
    else matchChunk fuel chunk (s.bind (matchByte c))

/-- The loop behind a star: the chunk tried after each byte that is no slash.
The last chunk has to reach the end of the name. -/
def matchLater (chunk : Bytes) (last : Bool) : Bytes → Except MatchError (Option Bytes)
  | [] => .ok none
  | b :: name =>
    if b = slash then .ok none
    else do
      match ← matchChunk chunk.length chunk (some name) with
      | some t => if last ∧ t ≠ [] then matchLater chunk last name else return some t
      | none => matchLater chunk last name

/-- The syntax check of the chunks not reached. -/
def checkChunks : ℕ → Bytes → Except MatchError Unit
  | _, [] => .ok ()
  | 0, _ :: _ => .ok ()
  | fuel + 1, b :: pattern => do
    let (_, chunk, rest) := scanChunk (b :: pattern)
    let _ ← matchChunk chunk.length chunk (some [])
    checkChunks fuel rest

/-- The loop of `filepath.Match`. -/
def matchFrom : ℕ → Bytes → Bytes → Except MatchError Bool
  | _, [], name => .ok (decide (name = []))
  | 0, _ :: _, _ => .ok false
  | fuel + 1, b :: pattern, name => do
    let (star, chunk, rest) := scanChunk (b :: pattern)
    if star ∧ chunk = [] then
      return !contains name [slash]
    match ← matchChunk chunk.length chunk (some name) with
    | some t =>
      if t = [] ∨ rest ≠ [] then
        return ← matchFrom fuel rest t
    | none => pure ()
    if star then
      match ← matchLater chunk (decide (rest = [])) name with
      | some t => return ← matchFrom fuel rest t
      | none => pure ()
    checkChunks fuel rest
    return false

/-- `filepath.Match`. -/
def matchPath (pattern name : Bytes) : Except MatchError Bool :=
  matchFrom pattern.length pattern name

end Path

end GoLib
