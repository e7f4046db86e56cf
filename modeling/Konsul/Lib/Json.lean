import Konsul.Lib.Decimal

/-!
# JSON text as `encoding/json` reads and writes it

Documents are trees of `Json`; object members keep their order and repetitions,
numbers keep their literal. Text is handled as the runes of `Utf8.decode`: every
token is ASCII, and inside a string literal the decoder of `encoding/json`
itself proceeds rune by rune, replacing bytes that are not UTF-8 by U+FFFD.
-/

namespace GoLib

inductive Json where
  | null
  | bool (b : Bool)
  | num (lit : Bytes)
  | str (s : Bytes)
  | arr (items : List Json)
  | obj (members : List (Bytes × Json))

namespace Json

open Utf8 (Rune)

/-! ### Characters -/

abbrev quote : UInt8 := 0x22
abbrev backslash : UInt8 := 0x5C
abbrev letterU : UInt8 := 0x75
abbrev comma : UInt8 := 0x2C
abbrev colon : UInt8 := 0x3A
abbrev lbracket : UInt8 := 0x5B
abbrev rbracket : UInt8 := 0x5D
abbrev lbrace : UInt8 := 0x7B
abbrev rbrace : UInt8 := 0x7D
abbrev minus : UInt8 := 0x2D

def isSpace (b : UInt8) : Bool := b == 0x20 || b == 0x09 || b == 0x0A || b == 0x0D

def skipSpace : List Rune → List Rune
  | .ascii b :: rest => if isSpace b then skipSpace rest else .ascii b :: rest
  | rs => rs

/-! ### String literals -/

/-- A piece of a string literal: text, or a `\u` escape not yet paired. -/
inductive Item where
  | text (bs : Bytes)
  | unit (n : ℕ)
  deriving DecidableEq

def isSurrogate (n : ℕ) : Bool := 0xD800 ≤ n && n < 0xE000

/-- `utf8.EncodeRune`. -/
def encodeRune (n : ℕ) : Bytes :=
  if n < 0x80 then [UInt8.ofNat n]
  else if n < 0x800 then [UInt8.ofNat (0xC0 + n / 64), UInt8.ofNat (0x80 + n % 64)]
  else if n < 0x10000 then
    [UInt8.ofNat (0xE0 + n / 4096), UInt8.ofNat (0x80 + n / 64 % 64), UInt8.ofNat (0x80 + n % 64)]
  else
    [UInt8.ofNat (0xF0 + n / 262144), UInt8.ofNat (0x80 + n / 4096 % 64),
      UInt8.ofNat (0x80 + n / 64 % 64), UInt8.ofNat (0x80 + n % 64)]

/-- Text of a literal: a high surrogate followed by a low one is one rune, a
surrogate on its own is replaced. -/
def join : List Item → Bytes
  | [] => []
  | .text bs :: is => bs ++ join is
  | .unit n :: is =>
    if isSurrogate n then
      match is with
      | .unit m :: js =>
        if n < 0xDC00 ∧ 0xDC00 ≤ m ∧ m < 0xE000 then
          encodeRune (0x10000 + (n - 0xD800) * 1024 + (m - 0xDC00)) ++ join js
        else Utf8.replacement ++ join (.unit m :: js)
      | is => Utf8.replacement ++ join is
    else encodeRune n ++ join is

def hexVal (b : UInt8) : Option ℕ :=
  if isDigit b then some (b.toNat - 0x30)
  else if 0x61 ≤ b ∧ b ≤ 0x66 then some (b.toNat - 0x57)
  else if 0x41 ≤ b ∧ b ≤ 0x46 then some (b.toNat - 0x37)
  else none

def hexDigit (n : ℕ) : UInt8 := if n < 10 then UInt8.ofNat (0x30 + n) else UInt8.ofNat (0x57 + n)

/-- The escapes of one letter. -/
def unescape (e : UInt8) : Option UInt8 :=
  if e = quote ∨ e = backslash ∨ e = 0x2F then some e
  else if e = 0x62 then some 0x08
  else if e = 0x66 then some 0x0C
  else if e = 0x6E then some 0x0A
  else if e = 0x72 then some 0x0D
  else if e = 0x74 then some 0x09
  else none

def push (i : Item) (p : List Item × List Rune) : List Item × List Rune := (i :: p.1, p.2)

/-- The rest of a string literal after its opening quote. -/
def scan : List Rune → Option (List Item × List Rune)
  | [] => none
  | .multi bs :: rest => (scan rest).map (push (.text bs))
  | .bad _ :: rest => (scan rest).map (push (.text Utf8.replacement))
  | .ascii b :: rest =>
    if b = quote then some ([], rest)
    else if b = backslash then
      match rest with
      | .ascii e :: rest' =>
        if e = letterU then
          match rest' with
          | .ascii h1 :: .ascii h2 :: .ascii h3 :: .ascii h4 :: rest'' =>
            match hexVal h1, hexVal h2, hexVal h3, hexVal h4 with
            | some n1, some n2, some n3, some n4 =>
              (scan rest'').map (push (.unit (((n1 * 16 + n2) * 16 + n3) * 16 + n4)))
            | _, _, _, _ => none
          | _ => none
        else match unescape e with
          | some c => (scan rest').map (push (.text [c]))
          | none => none
      | _ => none
    else if b < 0x20 then none
    else (scan rest).map (push (.text [b]))

/-- How the encoder writes an ASCII byte; `<`, `>` and `&` are escaped for HTML. -/
def escapeByte (b : UInt8) : List Rune :=
  if b = quote ∨ b = backslash then [.ascii backslash, .ascii b]
  else if b = 0x08 then [.ascii backslash, .ascii 0x62]
  else if b = 0x0C then [.ascii backslash, .ascii 0x66]
  else if b = 0x0A then [.ascii backslash, .ascii 0x6E]
  else if b = 0x0D then [.ascii backslash, .ascii 0x72]
  else if b = 0x09 then [.ascii backslash, .ascii 0x74]
  else if b < 0x20 ∨ b = 0x3C ∨ b = 0x3E ∨ b = 0x26 then
    [.ascii backslash, .ascii letterU, .ascii 0x30, .ascii 0x30,
      .ascii (hexDigit (b.toNat / 16)), .ascii (hexDigit (b.toNat % 16))]
  else [.ascii b]

/-- The line separators U+2028 and U+2029 are escaped for JavaScript. -/
def escapeMulti (bs : Bytes) : List Rune :=
  if bs = [0xE2, 0x80, 0xA8] then
    [0x5C, letterU, 0x32, 0x30, 0x32, 0x38].map .ascii
  else if bs = [0xE2, 0x80, 0xA9] then
    [0x5C, letterU, 0x32, 0x30, 0x32, 0x39].map .ascii
  else [.multi bs]

def escapeRune : Rune → List Rune
  | .ascii b => escapeByte b
  | .multi bs => escapeMulti bs
  | .bad _ => [0x5C, letterU, 0x66, 0x66, 0x66, 0x64].map .ascii

def escape (s : Bytes) : List Rune := (Utf8.decode s).flatMap escapeRune

/-! ### Numbers and words -/

def spanDigits : List Rune → Bytes × List Rune
  | .ascii b :: rest =>
    if isDigit b then (b :: (spanDigits rest).1, (spanDigits rest).2) else ([], .ascii b :: rest)
  | rs => ([], rs)

/-- A number's integer part has no leading zero. -/
def intPart (rs : List Rune) : Option (Bytes × List Rune) :=
  match spanDigits rs with
  | ([], _) => none
  | (d :: ds, rest) => if d = 0x30 then some ([d], rs.tail) else some (d :: ds, rest)

def fracPart : List Rune → Option (Bytes × List Rune)
  | .ascii b :: rest =>
    if b = 0x2E then
      match spanDigits rest with
      | ([], _) => none
      | (ds, rest') => some (b :: ds, rest')
    else some ([], .ascii b :: rest)
  | rs => some ([], rs)

def expPart : List Rune → Option (Bytes × List Rune)
  | .ascii e :: rest =>
    if e = 0x65 ∨ e = 0x45 then
      let (sign, rest') := match rest with
        | .ascii s :: more => if s = 0x2B ∨ s = minus then ([s], more) else ([], rest)
        | _ => ([], rest)
      match spanDigits rest' with
      | ([], _) => none
      | (ds, rest'') => some (e :: (sign ++ ds), rest'')
    else some ([], .ascii e :: rest)
  | rs => some ([], rs)

def signPart : List Rune → Bytes × List Rune
  | .ascii b :: rest => if b = minus then ([b], rest) else ([], .ascii b :: rest)
  | rs => ([], rs)

def number (rs : List Rune) : Option (Bytes × List Rune) := do
  let (ds, r2) ← intPart (signPart rs).2
  let (fs, r3) ← fracPart r2
  let (es, r4) ← expPart r3
  some ((signPart rs).1 ++ ds ++ fs ++ es, r4)

def word : Bytes → List Rune → Option (List Rune)
  | [], rs => some rs
  | b :: bs, .ascii c :: rest => if b = c then word bs rest else none
  | _ :: _, _ => none

def trueWord : Bytes := [0x74, 0x72, 0x75, 0x65]
def falseWord : Bytes := [0x66, 0x61, 0x6C, 0x73, 0x65]
def nullWord : Bytes := [0x6E, 0x75, 0x6C, 0x6C]

/-! ### Documents -/

mutual

/-- A value, of nesting depth at most `depth` below here. Every call takes one
unit of fuel; `parse` starts with more than a document of its length can use. -/
def parseValue : ℕ → ℕ → List Rune → Option (Json × List Rune)
  | 0, _, _ => none
  | fuel + 1, depth, rs =>
    match skipSpace rs with
    | .ascii b :: rest =>
      if b = lbrace then
        match depth with
        | 0 => none
        | d + 1 =>
          match skipSpace rest with
          | .ascii c :: rest' =>
            if c = rbrace then some (.obj [], rest')
            else (parseMembers fuel d (.ascii c :: rest')).map fun p => (.obj p.1, p.2)
          | _ => none
      else if b = lbracket then
        match depth with
        | 0 => none
        | d + 1 =>
          match skipSpace rest with
          | .ascii c :: rest' =>
            if c = rbracket then some (.arr [], rest')
            else (parseItems fuel d (.ascii c :: rest')).map fun p => (.arr p.1, p.2)
          | _ => none
      else if b = quote then (scan rest).map fun p => (.str (join p.1), p.2)
      else if b = 0x74 then (word trueWord (.ascii b :: rest)).map fun r => (.bool true, r)
      else if b = 0x66 then (word falseWord (.ascii b :: rest)).map fun r => (.bool false, r)
      else if b = 0x6E then (word nullWord (.ascii b :: rest)).map fun r => (.null, r)
      else (number (.ascii b :: rest)).map fun p => (.num p.1, p.2)
    | _ => none

def parseItems : ℕ → ℕ → List Rune → Option (List Json × List Rune)
  | 0, _, _ => none
  | fuel + 1, depth, rs =>
    match parseValue fuel depth rs with
    | none => none
    | some (j, r1) =>
      match skipSpace r1 with
      | .ascii c :: r2 =>
        if c = comma then (parseItems fuel depth r2).map fun p => (j :: p.1, p.2)
        else if c = rbracket then some ([j], r2)
        else none
      | _ => none

def parseMembers : ℕ → ℕ → List Rune → Option (List (Bytes × Json) × List Rune)
  | 0, _, _ => none
  | fuel + 1, depth, rs =>
    match skipSpace rs with
    | .ascii q :: r1 =>
      if q = quote then
        match scan r1 with
        | none => none
        | some (key, r2) =>
          match skipSpace r2 with
          | .ascii c :: r3 =>
            if c = colon then
              match parseValue fuel depth r3 with
              | none => none
              | some (j, r4) =>
                match skipSpace r4 with
                | .ascii c :: r5 =>
                  if c = comma then
                    (parseMembers fuel depth r5).map fun p => ((join key, j) :: p.1, p.2)
                  else if c = rbrace then some ([(join key, j)], r5)
                  else none
                | _ => none
            else none
          | _ => none
      else none
    | _ => none

end

/-- The scanner of `encoding/json` refuses deeper nesting. -/
def maxNestingDepth : ℕ := 10000

/-- One document and nothing after it: `json.Unmarshal` into a tree. -/
def parse (s : Bytes) : Option Json :=
  let rs := Utf8.decode s
  match parseValue (2 * rs.length + 2) maxNestingDepth rs with
  | some (j, rest) => if skipSpace rest = [] then some j else none
  | none => none

mutual

def printRunes : Json → List Rune
  | .null => nullWord.map .ascii
  | .bool true => trueWord.map .ascii
  | .bool false => falseWord.map .ascii
  | .num lit => lit.map .ascii
  | .str s => .ascii quote :: (escape s ++ [.ascii quote])
  | .arr [] => [.ascii lbracket, .ascii rbracket]
  | .arr (j :: js) => .ascii lbracket :: (printRunes j ++ printItems js)
  | .obj [] => [.ascii lbrace, .ascii rbrace]
  | .obj ((k, j) :: ms) =>
    .ascii lbrace :: .ascii quote :: (escape k ++ .ascii quote :: .ascii colon ::
      (printRunes j ++ printMembers ms))

def printItems : List Json → List Rune
  | [] => [.ascii rbracket]
  | j :: js => .ascii comma :: (printRunes j ++ printItems js)

def printMembers : List (Bytes × Json) → List Rune
  | [] => [.ascii rbrace]
  | (k, j) :: ms =>
    .ascii comma :: .ascii quote :: (escape k ++ .ascii quote :: .ascii colon ::
      (printRunes j ++ printMembers ms))

end

/-- `json.Marshal` of a tree. -/
def print (j : Json) : Bytes := Utf8.encode (printRunes j)

/-- How a document is laid out: what stands in front of an item, and of the end of a
list, by nesting depth, and what stands behind a colon. -/
structure Layout where
  brk : ℕ → List Rune
  gap : List Rune

mutual

/-- A tree laid out, from a nesting depth on. -/
def layRunes (l : Layout) : ℕ → Json → List Rune
  | _, .null => nullWord.map .ascii
  | _, .bool true => trueWord.map .ascii
  | _, .bool false => falseWord.map .ascii
  | _, .num lit => lit.map .ascii
  | _, .str s => .ascii quote :: (escape s ++ [.ascii quote])
  | _, .arr [] => [.ascii lbracket, .ascii rbracket]
  | n, .arr (j :: js) =>
    .ascii lbracket :: (l.brk (n + 1) ++ (layRunes l (n + 1) j ++ layItems l n js))
  | _, .obj [] => [.ascii lbrace, .ascii rbrace]
  | n, .obj ((k, j) :: ms) =>
    .ascii lbrace :: (l.brk (n + 1) ++ .ascii quote :: (escape k ++ .ascii quote :: .ascii colon ::
      (l.gap ++ (layRunes l (n + 1) j ++ layMembers l n ms))))

def layItems (l : Layout) : ℕ → List Json → List Rune
  | n, [] => l.brk n ++ [.ascii rbracket]
  | n, j :: js =>
    .ascii comma :: (l.brk (n + 1) ++ (layRunes l (n + 1) j ++ layItems l n js))

def layMembers (l : Layout) : ℕ → List (Bytes × Json) → List Rune
  | n, [] => l.brk n ++ [.ascii rbrace]
  | n, (k, j) :: ms =>
    .ascii comma :: (l.brk (n + 1) ++ .ascii quote :: (escape k ++ .ascii quote :: .ascii colon ::
      (l.gap ++ (layRunes l (n + 1) j ++ layMembers l n ms))))

end

/-- The layout of `json.MarshalIndent(v, "", "  ")`. -/
def indented : Layout where
  brk n := .ascii 0x0A :: List.replicate (2 * n) (.ascii 0x20)
  gap := [.ascii 0x20]

/-- `json.MarshalIndent` of a tree. -/
def printIndent (j : Json) : Bytes := Utf8.encode (layRunes indented 0 j)

/-! ### Decoding into a struct -/

/-- `foldRune`: the least rune equal to this one up to case, as far as ASCII
letters are concerned. U+017F folds to `S` and U+212A to `K`. -/
def foldRune : Rune → Rune
  | .ascii b => if 0x61 ≤ b ∧ b ≤ 0x7A then .ascii (b - 0x20) else .ascii b
  | .multi bs =>
    if bs = [0xC5, 0xBF] then .ascii 0x53
    else if bs = [0xE2, 0x84, 0xAA] then .ascii 0x4B
    else .multi bs
  | .bad b => .bad b

/-- Whether a member of an object is stored in the field of that name. -/
def namesField (field key : Bytes) : Bool :=
  (Utf8.decode key).map foldRune = (Utf8.decode field).map foldRune

/-- A value decoded into a string field that holds `old`; `none` is the error of
a value of another kind. -/
def intoString (old : Bytes) : Json → Option Bytes
  | .str s => some s
  | .null => some old
  | _ => none

def intoUint64 (old : UInt64) : Json → Option UInt64
  | .num lit => parseUint64 lit
  | .null => some old
  | _ => none

/-- A number as `json.Marshal` writes a `uint64`. -/
def uint64 (n : UInt64) : Json := .num (decimal n.toNat)

theorem intoUint64_uint64 (old n : UInt64) : intoUint64 old (uint64 n) = some n :=
  parseUint64_decimal n

end Json

end GoLib
