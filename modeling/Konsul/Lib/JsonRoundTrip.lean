import Konsul.Lib.Json

/-!
# Reading back what the JSON encoder wrote

`parse_print`: a document with well-formed number literals, printed and parsed,
comes back with every string and key replaced by its valid UTF-8 form.
-/

namespace GoLib.Json

open Utf8 (Rune)

/-! ### String literals -/

theorem hexVal_hexDigit {n : ℕ} (h : n < 16) : hexVal (hexDigit n) = some n := by
  interval_cases n <;> decide

theorem join_unit {n : ℕ} (h : isSurrogate n = false) (is : List Item) :
    join (.unit n :: is) = encodeRune n ++ join is := by
  rw [join.eq_def]
  simp only [h, Bool.false_eq_true, ite_false]

/-- Scanning one escaped rune yields one item that stands for the rune. -/
def Scans (r : Rune) : Prop :=
  ∃ i, (∀ rest, scan (escapeRune r ++ rest) = (scan rest).map (push i)) ∧
    ∀ is, join (i :: is) = r.fixed.bytes ++ join is

theorem scan_quote (rest : List Rune) : scan (.ascii quote :: rest) = some ([], rest) := by
  rw [scan.eq_def]
  simp only [ite_true]

theorem scan_escape_letter {e c : UInt8} (he : e ≠ letterU) (hc : unescape e = some c)
    (rest : List Rune) :
    scan (.ascii backslash :: .ascii e :: rest) = (scan rest).map (push (.text [c])) := by
  rw [scan.eq_def]
  simp only [show ¬ backslash = quote by decide, ite_false, ite_true, he, hc]

theorem scan_escape_unit (h1 h2 h3 h4 : UInt8) (n1 n2 n3 n4 : ℕ) (e1 : hexVal h1 = some n1)
    (e2 : hexVal h2 = some n2) (e3 : hexVal h3 = some n3) (e4 : hexVal h4 = some n4)
    (rest : List Rune) :
    scan (.ascii backslash :: .ascii letterU :: .ascii h1 :: .ascii h2 :: .ascii h3 ::
        .ascii h4 :: rest) =
      (scan rest).map (push (.unit (((n1 * 16 + n2) * 16 + n3) * 16 + n4))) := by
  rw [scan.eq_def]
  simp only [show ¬ backslash = quote by decide, ite_false, ite_true, e1, e2, e3, e4]

theorem scan_plain {b : UInt8} (h1 : b ≠ quote) (h2 : b ≠ backslash) (h3 : ¬ b < 0x20)
    (rest : List Rune) : scan (.ascii b :: rest) = (scan rest).map (push (.text [b])) := by
  rw [scan.eq_def]
  simp only [h1, h2, h3, ite_false]

theorem scans_ascii {b : UInt8} (hb : b < 0x80) : Scans (.ascii b) := by
  simp only [Scans, escapeRune, escapeByte]
  split_ifs with h1 h2 h3 h4 h5 h6 h7
  · refine ⟨.text [b], fun rest => ?_, fun is => rfl⟩
    rcases h1 with rfl | rfl
    · exact scan_escape_letter (by decide) (by decide) rest
    · exact scan_escape_letter (by decide) (by decide) rest
  · subst h2
    exact ⟨.text [0x08], scan_escape_letter (by decide) (by decide), fun is => rfl⟩
  · subst h3
    exact ⟨.text [0x0C], scan_escape_letter (by decide) (by decide), fun is => rfl⟩
  · subst h4
    exact ⟨.text [0x0A], scan_escape_letter (by decide) (by decide), fun is => rfl⟩
  · subst h5
    exact ⟨.text [0x0D], scan_escape_letter (by decide) (by decide), fun is => rfl⟩
  · subst h6
    exact ⟨.text [0x09], scan_escape_letter (by decide) (by decide), fun is => rfl⟩
  · have hlt : b.toNat < 128 := by simpa [UInt8.lt_iff_toNat_lt] using hb
    have hn : ((0 * 16 + 0) * 16 + b.toNat / 16) * 16 + b.toNat % 16 = b.toNat := by omega
    refine ⟨.unit b.toNat, fun rest => ?_, fun is => ?_⟩
    · have := scan_escape_unit 0x30 0x30 _ _ 0 0 _ _ (by decide) (by decide)
        (hexVal_hexDigit (show b.toNat / 16 < 16 by omega))
        (hexVal_hexDigit (show b.toNat % 16 < 16 by omega)) rest
      rw [hn] at this
      exact this
    · have hs : isSurrogate b.toNat = false := by
        simp only [isSurrogate, Bool.and_eq_false_iff, decide_eq_false_iff_not]
        omega
      rw [join_unit hs]
      simp only [encodeRune, hlt, ite_true, UInt8.ofNat_toNat, Rune.fixed, Rune.bytes]
  · push Not at h1
    exact ⟨.text [b], scan_plain h1.1 h1.2 fun h => h7 (Or.inl h), fun is => rfl⟩

theorem scans_multi (bs : Bytes) : Scans (.multi bs) := by
  simp only [Scans, escapeRune, escapeMulti]
  split_ifs with h1 h2
  · subst h1
    exact ⟨.unit 0x2028, scan_escape_unit 0x32 0x30 0x32 0x38 2 0 2 8 rfl rfl rfl rfl,
      fun is => join_unit (by decide) is⟩
  · subst h2
    exact ⟨.unit 0x2029, scan_escape_unit 0x32 0x30 0x32 0x39 2 0 2 9 rfl rfl rfl rfl,
      fun is => join_unit (by decide) is⟩
  · refine ⟨.text bs, fun rest => ?_, fun is => rfl⟩
    rw [List.singleton_append, scan]

theorem scans_bad (b : UInt8) : Scans (.bad b) :=
  ⟨.unit 0xFFFD, scan_escape_unit 0x66 0x66 0x66 0x64 15 15 15 13 rfl rfl rfl rfl,
    fun is => join_unit (by decide) is⟩

theorem scans_of_mem_decode (s : Bytes) : ∀ r ∈ Utf8.decode s, Scans r := by
  intro r hr
  rcases Utf8.good_or_bad_of_mem_decode s r hr with h | ⟨b, rfl⟩
  · cases r with
    | ascii b => exact scans_ascii (of_decide_eq_true h)
    | multi bs => exact scans_multi bs
    | bad b => cases h
  · exact scans_bad b

theorem scan_runes (rs : List Rune) (h : ∀ r ∈ rs, Scans r) :
    ∃ is, (∀ rest, scan (rs.flatMap escapeRune ++ .ascii quote :: rest) = some (is, rest)) ∧
      join is = Utf8.encode (rs.map Rune.fixed) := by
  induction rs with
  | nil =>
    refine ⟨[], fun rest => ?_, rfl⟩
    rw [List.flatMap_nil, List.nil_append, scan_quote]
  | cons r rs ih =>
    obtain ⟨i, hscan, hjoin⟩ := h r (List.mem_cons_self ..)
    obtain ⟨is, hrest, his⟩ := ih fun q hq => h q (List.mem_cons_of_mem _ hq)
    refine ⟨i :: is, fun rest => ?_, ?_⟩
    · rw [List.flatMap_cons, List.append_assoc, hscan, hrest rest]
      rfl
    · rw [hjoin, his]
      rfl

/-- A string literal reads back as the valid form of the string written. -/
theorem scan_escape (s : Bytes) :
    ∃ is, (∀ rest, scan (escape s ++ .ascii quote :: rest) = some (is, rest)) ∧
      join is = Utf8.toValid s :=
  scan_runes (Utf8.decode s) (scans_of_mem_decode s)

/-! ### Numbers -/

/-- The integers an encoder writes. -/
def IntLit (lit : Bytes) : Prop := ∃ n, lit = decimal n ∨ lit = minus :: decimal n

/-- `rest` does not continue a number. -/
def Stops : List Rune → Prop
  | .ascii b :: _ => isDigit b = false ∧ b ≠ 0x2E ∧ b ≠ 0x65 ∧ b ≠ 0x45
  | _ => True

theorem spanDigits_append (ds : Bytes) (hd : ∀ b ∈ ds, isDigit b) {rest : List Rune}
    (hr : Stops rest) : spanDigits (ds.map .ascii ++ rest) = (ds, rest) := by
  induction ds with
  | nil =>
    match rest with
    | [] => rfl
    | .ascii b :: rest =>
      simp only [List.map_nil, List.nil_append, spanDigits, hr.1, Bool.false_eq_true, ite_false]
    | .multi bs :: rest => rfl
    | .bad b :: rest => rfl
  | cons d ds ih =>
    have h := ih fun b hb => hd b (List.mem_cons_of_mem _ hb)
    simp only [List.map_cons, List.cons_append, spanDigits, hd d (List.mem_cons_self ..), ite_true, h]

theorem intPart_decimal (n : ℕ) {rest : List Rune} (hr : Stops rest) :
    intPart ((decimal n).map .ascii ++ rest) = some (decimal n, rest) := by
  have hspan := spanDigits_append (decimal n) isDigit_of_mem_decimal hr
  by_cases hn : n = 0
  · subst hn
    rw [intPart, hspan]
    simp [decimal]
  · obtain ⟨b, ds, hb, hne⟩ := head_decimal hn
    rw [intPart, hspan, hb]
    simp only [hne, ite_false]

theorem number_tail {rest : List Rune} (hr : Stops rest) :
    fracPart rest = some ([], rest) ∧ expPart rest = some ([], rest) := by
  match rest, hr with
  | [], _ => exact ⟨rfl, rfl⟩
  | .ascii b :: rest, ⟨_, h2, h3, h4⟩ =>
    constructor
    · simp only [fracPart, h2, ite_false]
    · simp only [expPart, h3, h4, or_self, ite_false]
  | .multi bs :: rest, _ => exact ⟨rfl, rfl⟩
  | .bad b :: rest, _ => exact ⟨rfl, rfl⟩

theorem number_of_parts {rs r1 r2 : List Rune} (sign : Bytes) {ds : Bytes} (hs : signPart rs = (sign, r1))
    (hi : intPart r1 = some (ds, r2)) (hr : Stops r2) : number rs = some (sign ++ ds, r2) := by
  obtain ⟨hf, he⟩ := number_tail hr
  simp only [number, hs, hi, hf, he, Option.bind_eq_bind, Option.bind_some, List.append_nil]

theorem number_intLit {lit : Bytes} (hl : IntLit lit) {rest : List Rune} (hr : Stops rest) :
    number (lit.map .ascii ++ rest) = some (lit, rest) := by
  obtain ⟨n, rfl | rfl⟩ := hl
  · refine number_of_parts [] ?_ (intPart_decimal n hr) hr
    obtain ⟨b, ds, hb⟩ := List.exists_cons_of_ne_nil (decimal_ne_nil n)
    have hd : isDigit b := isDigit_of_mem_decimal b (by rw [hb]; exact List.mem_cons_self ..)
    have hm : b ≠ minus := by
      rintro rfl
      exact absurd hd (by decide)
    rw [hb]
    simp only [List.map_cons, List.cons_append, signPart, hm, ite_false]
  · refine number_of_parts [minus] ?_ (intPart_decimal n hr) hr
    simp only [List.map_cons, List.cons_append, signPart, ite_true]

/-! ### Documents -/

mutual

def WF : Json → Prop
  | .num lit => IntLit lit
  | .arr js => WFItems js
  | .obj ms => WFMembers ms
  | _ => True

def WFItems : List Json → Prop
  | [] => True
  | j :: js => WF j ∧ WFItems js

def WFMembers : List (Bytes × Json) → Prop
  | [] => True
  | (_, j) :: ms => WF j ∧ WFMembers ms

end

mutual

/-- The document with its strings and keys made valid UTF-8. -/
def clean : Json → Json
  | .str s => .str (Utf8.toValid s)
  | .arr js => .arr (cleanItems js)
  | .obj ms => .obj (cleanMembers ms)
  | j => j

def cleanItems : List Json → List Json
  | [] => []
  | j :: js => clean j :: cleanItems js

def cleanMembers : List (Bytes × Json) → List (Bytes × Json)
  | [] => []
  | (k, j) :: ms => (Utf8.toValid k, clean j) :: cleanMembers ms

end

mutual

/-- Nesting depth. -/
def depth : Json → ℕ
  | .arr js => depthItems js + 1
  | .obj ms => depthMembers ms + 1
  | _ => 0

def depthItems : List Json → ℕ
  | [] => 0
  | j :: js => max (depth j) (depthItems js)

def depthMembers : List (Bytes × Json) → ℕ
  | [] => 0
  | (_, j) :: ms => max (depth j) (depthMembers ms)

end

/-! ### Blanks -/

/-- White space only. -/
def Blank (ws : List Rune) : Prop := ∀ r ∈ ws, ∃ b, isSpace b ∧ r = .ascii b

structure Layout.Blank (l : Layout) : Prop where
  brk : ∀ n, Json.Blank (l.brk n)
  gap : Json.Blank l.gap

theorem isSpace_cases {b : UInt8} (h : isSpace b) : b = 0x20 ∨ b = 0x09 ∨ b = 0x0A ∨ b = 0x0D := by
  simp only [isSpace, Bool.or_eq_true, beq_iff_eq] at h
  rcases h with ((h | h) | h) | h
  · exact Or.inl h
  · exact Or.inr (Or.inl h)
  · exact Or.inr (Or.inr (Or.inl h))
  · exact Or.inr (Or.inr (Or.inr h))

theorem skipSpace_ascii {b : UInt8} (h : isSpace b = false) (rest : List Rune) :
    skipSpace (.ascii b :: rest) = .ascii b :: rest := by
  simp only [skipSpace, h, Bool.false_eq_true, ite_false]

theorem skipSpace_blank {ws : List Rune} (h : Blank ws) (rest : List Rune) :
    skipSpace (ws ++ rest) = skipSpace rest := by
  induction ws with
  | nil => rfl
  | cons r ws ih =>
    obtain ⟨b, hb, rfl⟩ := h r (List.mem_cons_self ..)
    have hrest := ih fun q hq => h q (List.mem_cons_of_mem _ hq)
    rw [List.cons_append, skipSpace, if_pos hb, hrest]

theorem skipSpace_blank_ascii {ws : List Rune} (h : Blank ws) {b : UInt8} (hb : isSpace b = false)
    (rest : List Rune) : skipSpace (ws ++ .ascii b :: rest) = .ascii b :: rest := by
  rw [skipSpace_blank h, skipSpace_ascii hb]

theorem stops_blank {ws : List Rune} (h : Blank ws) {rest : List Rune} (hr : Stops rest) :
    Stops (ws ++ rest) := by
  cases ws with
  | nil => exact hr
  | cons r ws =>
    obtain ⟨b, hb, rfl⟩ := h r (List.mem_cons_self ..)
    rcases isSpace_cases hb with rfl | rfl | rfl | rfl
    · exact ⟨by decide, by decide, by decide, by decide⟩
    · exact ⟨by decide, by decide, by decide, by decide⟩
    · exact ⟨by decide, by decide, by decide, by decide⟩
    · exact ⟨by decide, by decide, by decide, by decide⟩

theorem parse_blank {ws : List Rune} (h : Blank ws) (fuel d : ℕ) (rs : List Rune) :
    parseValue fuel d (ws ++ rs) = parseValue fuel d rs ∧
      parseItems fuel d (ws ++ rs) = parseItems fuel d rs ∧
      parseMembers fuel d (ws ++ rs) = parseMembers fuel d rs := by
  have hvalue (fuel : ℕ) : parseValue fuel d (ws ++ rs) = parseValue fuel d rs := by
    cases fuel with
    | zero => rw [parseValue, parseValue]
    | succ fuel => simp only [parseValue, skipSpace_blank h]
  refine ⟨hvalue fuel, ?_, ?_⟩
  · cases fuel with
    | zero => rw [parseItems, parseItems]
    | succ fuel => simp only [parseItems, hvalue]
  · cases fuel with
    | zero => rw [parseMembers, parseMembers]
    | succ fuel => simp only [parseMembers, skipSpace_blank h]

/-! ### Laid out documents are read back -/

theorem stops_close (rest : List Rune) :
    Stops (.ascii rbracket :: rest) ∧ Stops (.ascii rbrace :: rest) ∧ Stops (.ascii comma :: rest) := by
  refine ⟨?_, ?_, ?_⟩ <;> exact ⟨by decide, by decide, by decide, by decide⟩

section Layout

variable {l : Layout}

theorem layRunes_head (l : Layout) (n : ℕ) {j : Json} (hj : WF j) :
    ∃ b rest, layRunes l n j = .ascii b :: rest ∧ isSpace b = false ∧ b ≠ rbracket ∧ b ≠ rbrace := by
  match j, hj with
  | .null, _ => rw [layRunes]; exact ⟨_, _, rfl, by decide, by decide, by decide⟩
  | .bool true, _ => rw [layRunes]; exact ⟨_, _, rfl, by decide, by decide, by decide⟩
  | .bool false, _ => rw [layRunes]; exact ⟨_, _, rfl, by decide, by decide, by decide⟩
  | .str s, _ => rw [layRunes]; exact ⟨_, _, rfl, by decide, by decide, by decide⟩
  | .arr [], _ => rw [layRunes]; exact ⟨_, _, rfl, by decide, by decide, by decide⟩
  | .arr (_ :: _), _ => rw [layRunes]; exact ⟨_, _, rfl, by decide, by decide, by decide⟩
  | .obj [], _ => rw [layRunes]; exact ⟨_, _, rfl, by decide, by decide, by decide⟩
  | .obj ((_, _) :: _), _ => rw [layRunes]; exact ⟨_, _, rfl, by decide, by decide, by decide⟩
  | .num lit, ⟨n, hn⟩ =>
    rw [layRunes]
    rcases hn with rfl | rfl
    · obtain ⟨b, ds, hb⟩ := List.exists_cons_of_ne_nil (decimal_ne_nil n)
      have hd : isDigit b := isDigit_of_mem_decimal b (by rw [hb]; exact List.mem_cons_self ..)
      refine ⟨b, ds.map .ascii, by rw [hb]; rfl, ?_, ?_, ?_⟩
      · by_contra hs
        rcases isSpace_cases (Bool.not_eq_false _ ▸ hs) with rfl | rfl | rfl | rfl <;>
          exact absurd hd (by decide)
      · rintro rfl
        exact absurd hd (by decide)
      · rintro rfl
        exact absurd hd (by decide)
    · exact ⟨minus, _, rfl, by decide, by decide, by decide⟩

theorem skipSpace_layRunes (n : ℕ) {j : Json} (hj : WF j) (rest : List Rune) :
    skipSpace (layRunes l n j ++ rest) = layRunes l n j ++ rest := by
  obtain ⟨b, r, hb, hs, -, -⟩ := layRunes_head l n hj
  rw [hb, List.cons_append, skipSpace_ascii hs]

/-- Laid out and followed by text that does not continue it, `j` is read back. -/
def Reads (l : Layout) (j : Json) : Prop :=
  ∀ n fuel d rest, 2 * (layRunes l n j).length ≤ fuel → depth j ≤ d → Stops rest →
    parseValue fuel d (layRunes l n j ++ rest) = some (clean j, rest)

theorem parseItems_lay (hl : l.Blank) (j : Json) (js : List Json) (h : ∀ k ∈ j :: js, Reads l k) :
    ∀ n fuel d rest, 2 * ((layRunes l (n + 1) j).length + (layItems l n js).length) ≤ fuel →
      depthItems (j :: js) ≤ d →
      parseItems fuel d (layRunes l (n + 1) j ++ (layItems l n js ++ rest)) =
        some (cleanItems (j :: js), rest) := by
  induction js generalizing j with
  | nil =>
    intro n fuel d rest hf hd
    simp only [layItems, List.length_append, List.length_singleton] at hf
    obtain ⟨f, rfl⟩ : ∃ f, fuel = f + 1 := ⟨fuel - 1, by omega⟩
    simp only [depthItems] at hd
    have hj := h j (List.mem_cons_self ..) (n + 1) f d (l.brk n ++ .ascii rbracket :: rest)
      (by omega) (by omega) (stops_blank (hl.brk n) (stops_close rest).1)
    have hskip := skipSpace_blank_ascii (hl.brk n) (show isSpace rbracket = false by decide) rest
    simp only [parseItems, layItems, List.append_assoc, List.singleton_append, hj, hskip,
      show ¬ rbracket = comma by decide, ite_false, ite_true, cleanItems]
  | cons k ks ih =>
    intro n fuel d rest hf hd
    simp only [layItems, List.length_cons, List.length_append] at hf
    simp only [depthItems] at hd
    obtain ⟨f, rfl⟩ : ∃ f, fuel = f + 1 := ⟨fuel - 1, by omega⟩
    have hj := h j (List.mem_cons_self ..) (n + 1) f d
      (.ascii comma :: (l.brk (n + 1) ++ (layRunes l (n + 1) k ++ (layItems l n ks ++ rest))))
      (by omega) (by omega) (stops_close _).2.2
    have hk := ih k (fun q hq => h q (List.mem_cons_of_mem _ hq)) n f d rest (by omega)
      (by simp only [depthItems]; omega)
    rw [← (parse_blank (hl.brk (n + 1)) f d _).2.1] at hk
    simp only [parseItems, layItems, List.cons_append, List.append_assoc, hj,
      skipSpace_ascii (show isSpace comma = false by decide), ite_true, hk, Option.map_some,
      cleanItems]

theorem parseMembers_lay (hl : l.Blank) (k : Bytes) (j : Json) (ms : List (Bytes × Json))
    (h : ∀ p ∈ (k, j) :: ms, Reads l p.2) :
    ∀ n fuel d rest, 2 * ((layRunes l (n + 1) j).length + (layMembers l n ms).length) ≤ fuel →
      depthMembers ((k, j) :: ms) ≤ d →
      parseMembers fuel d (.ascii quote :: (escape k ++ .ascii quote :: .ascii colon ::
          (l.gap ++ (layRunes l (n + 1) j ++ (layMembers l n ms ++ rest))))) =
        some (cleanMembers ((k, j) :: ms), rest) := by
  have hquote : isSpace quote = false := by decide
  have hcolon : isSpace colon = false := by decide
  induction ms generalizing k j with
  | nil =>
    intro n fuel d rest hf hd
    simp only [layMembers, List.length_append, List.length_singleton] at hf
    simp only [depthMembers] at hd
    obtain ⟨f, rfl⟩ : ∃ f, fuel = f + 1 := ⟨fuel - 1, by omega⟩
    obtain ⟨is, hscan, hjoin⟩ := scan_escape k
    have hj := h (k, j) (List.mem_cons_self ..) (n + 1) f d (l.brk n ++ .ascii rbrace :: rest)
      (by simp only; omega) (by simp only; omega) (stops_blank (hl.brk n) (stops_close rest).2.1)
    rw [← (parse_blank hl.gap f d _).1] at hj
    have hskip := skipSpace_blank_ascii (hl.brk n) (show isSpace rbrace = false by decide) rest
    simp only [parseMembers, skipSpace_ascii hquote, skipSpace_ascii hcolon, ite_true, hscan, hjoin,
      layMembers, List.append_assoc, List.singleton_append, hj, hskip,
      show ¬ rbrace = comma by decide, ite_false, cleanMembers]
  | cons q qs ih =>
    obtain ⟨k', j'⟩ := q
    intro n fuel d rest hf hd
    simp only [layMembers, List.length_cons, List.length_append] at hf
    simp only [depthMembers] at hd
    obtain ⟨f, rfl⟩ : ∃ f, fuel = f + 1 := ⟨fuel - 1, by omega⟩
    obtain ⟨is, hscan, hjoin⟩ := scan_escape k
    have hj := h (k, j) (List.mem_cons_self ..) (n + 1) f d
      (.ascii comma :: (l.brk (n + 1) ++ .ascii quote :: (escape k' ++ .ascii quote ::
        .ascii colon :: (l.gap ++ (layRunes l (n + 1) j' ++ (layMembers l n qs ++ rest))))))
      (by simp only; omega) (by simp only; omega) (stops_close _).2.2
    rw [← (parse_blank hl.gap f d _).1] at hj
    have hk := ih k' j' (fun p hp => h p (List.mem_cons_of_mem _ hp)) n f d rest (by omega)
      (by simp only [depthMembers]; omega)
    rw [← (parse_blank (hl.brk (n + 1)) f d _).2.2] at hk
    simp only [parseMembers, skipSpace_ascii hquote, skipSpace_ascii hcolon, ite_true, hscan, hjoin,
      layMembers, List.cons_append, List.append_assoc, hj,
      skipSpace_ascii (show isSpace comma = false by decide), hk, Option.map_some, cleanMembers]

theorem parseValue_head {b : UInt8} (hs : isSpace b = false) (fuel d : ℕ) (rest : List Rune) :
    parseValue (fuel + 1) d (.ascii b :: rest) =
      if b = lbrace then
        match d with
        | 0 => none
        | d + 1 =>
          match skipSpace rest with
          | .ascii c :: rest' =>
            if c = rbrace then some (.obj [], rest')
            else (parseMembers fuel d (.ascii c :: rest')).map fun p => (.obj p.1, p.2)
          | _ => none
      else if b = lbracket then
        match d with
        | 0 => none
        | d + 1 =>
          match skipSpace rest with
          | .ascii c :: rest' =>
            if c = rbracket then some (.arr [], rest')
            else (parseItems fuel d (.ascii c :: rest')).map fun p => (.arr p.1, p.2)
          | _ => none
      else if b = quote then (scan rest).map fun p => (.str (join p.1), p.2)
      else if b = 0x74 then (word trueWord (.ascii b :: rest)).map fun r => (.bool true, r)
      else if b = 0x66 then (word falseWord (.ascii b :: rest)).map fun r => (.bool false, r)
      else if b = 0x6E then (word nullWord (.ascii b :: rest)).map fun r => (.null, r)
      else (number (.ascii b :: rest)).map fun p => (.num p.1, p.2) := by
  have hvalue := parseValue.eq_2 d (.ascii b :: rest) fuel
  rw [skipSpace_ascii hs] at hvalue
  exact hvalue

theorem reads_str (s : Bytes) : Reads l (.str s) := by
  intro n fuel d rest hf hd hr
  simp only [layRunes, List.length_cons, List.length_append] at hf
  obtain ⟨f, rfl⟩ : ∃ f, fuel = f + 1 := ⟨fuel - 1, by omega⟩
  obtain ⟨is, hscan, hjoin⟩ := scan_escape s
  simp only [layRunes, List.cons_append, List.append_assoc, List.nil_append]
  rw [parseValue_head (by decide)]
  simp only [show ¬ quote = lbrace by decide, show ¬ quote = lbracket by decide, ite_false,
    ite_true, hscan, Option.map_some, hjoin, clean]

theorem parseValue_number {b : UInt8} (hb : isDigit b ∨ b = minus) (fuel d : ℕ)
    (rest : List Rune) :
    parseValue (fuel + 1) d (.ascii b :: rest) =
      (number (.ascii b :: rest)).map fun p => (.num p.1, p.2) := by
  have hne : ∀ c, isDigit c = false → c ≠ minus → b ≠ c := by
    rintro c h1 h2 rfl
    rcases hb with h | h
    · rw [h1] at h
      cases h
    · exact h2 h
  have hs : isSpace b = false := by
    by_contra h
    simp only [isSpace, Bool.not_eq_false, Bool.or_eq_true, beq_iff_eq] at h
    rcases h with ((h | h) | h) | h <;> exact hne _ (by decide) (by decide) h
  rw [parseValue_head hs]
  simp only [hne lbrace (by decide) (by decide), hne lbracket (by decide) (by decide),
    hne quote (by decide) (by decide), hne 0x74 (by decide) (by decide),
    hne 0x66 (by decide) (by decide), hne 0x6E (by decide) (by decide), ite_false]

theorem reads_num {lit : Bytes} (h : IntLit lit) : Reads l (.num lit) := by
  intro n fuel d rest hf hd hr
  have hnum := number_intLit h hr
  obtain ⟨b, ds, hlit, hb⟩ : ∃ b ds, lit = b :: ds ∧ (isDigit b ∨ b = minus) := by
    obtain ⟨n, rfl | rfl⟩ := h
    · obtain ⟨b, ds, hb⟩ := List.exists_cons_of_ne_nil (decimal_ne_nil n)
      exact ⟨b, ds, hb, Or.inl (isDigit_of_mem_decimal b (by rw [hb]; exact List.mem_cons_self ..))⟩
    · exact ⟨minus, _, rfl, Or.inr rfl⟩
  subst hlit
  simp only [layRunes, List.length_map, List.length_cons] at hf
  obtain ⟨f, rfl⟩ : ∃ f, fuel = f + 1 := ⟨fuel - 1, by omega⟩
  simp only [layRunes, List.map_cons, List.cons_append] at hnum ⊢
  rw [parseValue_number hb, hnum, Option.map_some]
  rfl

theorem reads_arr (hl : l.Blank) (js : List Json) (hw : WFItems js) (h : ∀ k ∈ js, Reads l k) :
    Reads l (.arr js) := by
  intro n fuel d rest hf hd hr
  simp only [depth] at hd
  obtain ⟨d, rfl⟩ : ∃ e, d = e + 1 := ⟨d - 1, by omega⟩
  match js, hw with
  | [], _ =>
    simp only [layRunes, List.length_cons] at hf
    obtain ⟨f, rfl⟩ : ∃ f, fuel = f + 1 := ⟨fuel - 1, by omega⟩
    simp only [layRunes, List.cons_append, List.nil_append]
    rw [parseValue_head (by decide)]
    simp only [show ¬ lbracket = lbrace by decide, ite_false, ite_true,
      skipSpace_ascii (show isSpace rbracket = false by decide), clean, cleanItems]
  | j :: js, ⟨hj, _⟩ =>
    simp only [layRunes, List.length_cons, List.length_append] at hf
    obtain ⟨f, rfl⟩ : ∃ f, fuel = f + 1 := ⟨fuel - 1, by omega⟩
    have hitems := parseItems_lay hl j js h n f d rest (by omega) (by omega)
    have hskip : skipSpace (l.brk (n + 1) ++ (layRunes l (n + 1) j ++ (layItems l n js ++ rest))) =
        layRunes l (n + 1) j ++ (layItems l n js ++ rest) := by
      rw [skipSpace_blank (hl.brk (n + 1)), skipSpace_layRunes (n + 1) hj]
    obtain ⟨b, r, hb, hs, hne, -⟩ := layRunes_head l (n + 1) hj
    simp only [layRunes, List.cons_append, List.append_assoc]
    rw [parseValue_head (by decide)]
    rw [hb, List.cons_append] at hitems hskip ⊢
    simp only [show ¬ lbracket = lbrace by decide, ite_false, ite_true, hskip, hne, hitems,
      Option.map_some, clean]

theorem reads_obj (hl : l.Blank) (ms : List (Bytes × Json)) (h : ∀ p ∈ ms, Reads l p.2) :
    Reads l (.obj ms) := by
  intro n fuel d rest hf hd hr
  simp only [depth] at hd
  obtain ⟨d, rfl⟩ : ∃ e, d = e + 1 := ⟨d - 1, by omega⟩
  match ms with
  | [] =>
    simp only [layRunes, List.length_cons] at hf
    obtain ⟨f, rfl⟩ : ∃ f, fuel = f + 1 := ⟨fuel - 1, by omega⟩
    simp only [layRunes, List.cons_append, List.nil_append]
    rw [parseValue_head (by decide)]
    simp only [ite_true, skipSpace_ascii (show isSpace rbrace = false by decide), clean,
      cleanMembers]
  | (k, j) :: ms =>
    simp only [layRunes, List.length_cons, List.length_append] at hf
    obtain ⟨f, rfl⟩ : ∃ f, fuel = f + 1 := ⟨fuel - 1, by omega⟩
    have hmembers := parseMembers_lay hl k j ms h n f d rest (by omega) (by omega)
    have hskip (rs : List Rune) : skipSpace (l.brk (n + 1) ++ .ascii quote :: rs) =
        .ascii quote :: rs := skipSpace_blank_ascii (hl.brk (n + 1)) (by decide) rs
    simp only [layRunes, List.cons_append, List.append_assoc]
    rw [parseValue_head (by decide)]
    simp only [ite_true, hskip, show ¬ quote = rbrace by decide, ite_false, hmembers,
      Option.map_some, clean]

mutual

theorem reads (hl : l.Blank) : (j : Json) → WF j → Reads l j
  | .null, _ => by
    intro n fuel d rest hf _ _
    obtain ⟨f, rfl⟩ : ∃ f, fuel = f + 1 := ⟨fuel - 1, by simp [layRunes, nullWord] at hf; omega⟩
    simp only [layRunes, nullWord, List.map_cons, List.cons_append]
    rw [parseValue_head (by decide)]
    rfl
  | .bool true, _ => by
    intro n fuel d rest hf _ _
    obtain ⟨f, rfl⟩ : ∃ f, fuel = f + 1 := ⟨fuel - 1, by simp [layRunes, trueWord] at hf; omega⟩
    simp only [layRunes, trueWord, List.map_cons, List.cons_append]
    rw [parseValue_head (by decide)]
    rfl
  | .bool false, _ => by
    intro n fuel d rest hf _ _
    obtain ⟨f, rfl⟩ : ∃ f, fuel = f + 1 := ⟨fuel - 1, by simp [layRunes, falseWord] at hf; omega⟩
    simp only [layRunes, falseWord, List.map_cons, List.cons_append]
    rw [parseValue_head (by decide)]
    rfl
  | .num _, h => reads_num h
  | .str s, _ => reads_str s
  | .arr js, h => reads_arr hl js h (readsItems hl js h)
  | .obj ms, h => reads_obj hl ms (readsMembers hl ms h)

theorem readsItems (hl : l.Blank) : (js : List Json) → WFItems js → ∀ k ∈ js, Reads l k
  | [], _ => by simp only [List.not_mem_nil, false_implies, implies_true]
  | j :: js, h => List.forall_mem_cons.mpr ⟨reads hl j h.1, readsItems hl js h.2⟩

theorem readsMembers (hl : l.Blank) : (ms : List (Bytes × Json)) → WFMembers ms →
    ∀ p ∈ ms, Reads l p.2
  | [], _ => by simp only [List.not_mem_nil, false_implies, implies_true]
  | (_, j) :: ms, h => List.forall_mem_cons.mpr ⟨reads hl j h.1, readsMembers hl ms h.2⟩

end

end Layout

/-! ### Printed text is valid UTF-8 -/

theorem good_ascii {b : UInt8} (h : b < 0x80) : (Rune.ascii b).good := decide_eq_true h

theorem escapeRune_good {r : Rune} (h : r.good ∨ ∃ b, r = .bad b) : ∀ q ∈ escapeRune r, q.good := by
  have hex : ∀ n < 16, (Rune.ascii (hexDigit n)).good := by
    intro n hn
    interval_cases n <;> decide
  rcases h with h | ⟨b, rfl⟩
  · cases r with
    | ascii b =>
      have hb : b < 0x80 := of_decide_eq_true h
      have hlt : b.toNat < 128 := by simpa [UInt8.lt_iff_toNat_lt] using hb
      have h1 := hex (b.toNat / 16) (by omega)
      have h2 := hex (b.toNat % 16) (by omega)
      simp only [escapeRune, escapeByte]
      split_ifs <;>
        simp only [List.mem_cons, List.not_mem_nil, or_false, forall_eq_or_imp, forall_eq, h, h1, h2,
          and_true] <;> decide
    | multi bs =>
      simp only [escapeRune, escapeMulti]
      split_ifs
      · decide
      · decide
      · intro q hq
        rw [List.mem_singleton.mp hq]
        exact h
    | bad b => cases h
  · simp only [escapeRune]
    decide

theorem escape_good (s : Bytes) : ∀ q ∈ escape s, q.good := by
  intro q hq
  obtain ⟨r, hr, hq⟩ := List.mem_flatMap.mp hq
  exact escapeRune_good (Utf8.good_or_bad_of_mem_decode s r hr) q hq

theorem intLit_good {lit : Bytes} (h : IntLit lit) : ∀ q ∈ lit.map Rune.ascii, q.good := by
  intro q hq
  obtain ⟨b, hb, rfl⟩ := List.mem_map.mp hq
  obtain ⟨n, rfl | rfl⟩ := h
  · exact good_ascii (isDigit_lt (isDigit_of_mem_decimal b hb))
  · rcases List.mem_cons.mp hb with rfl | hb
    · decide
    · exact good_ascii (isDigit_lt (isDigit_of_mem_decimal b hb))

theorem forall_good_cons {b : UInt8} (hb : b < 0x80) {rs : List Rune} (h : ∀ q ∈ rs, q.good) :
    ∀ q ∈ Rune.ascii b :: rs, q.good :=
  List.forall_mem_cons.mpr ⟨good_ascii hb, h⟩

theorem forall_good_append {rs qs : List Rune} (h : ∀ q ∈ rs, q.good) (h' : ∀ q ∈ qs, q.good) :
    ∀ q ∈ rs ++ qs, q.good :=
  List.forall_mem_append.mpr ⟨h, h'⟩

theorem blank_good {ws : List Rune} (h : Blank ws) : ∀ q ∈ ws, q.good := by
  intro q hq
  obtain ⟨b, hb, rfl⟩ := h q hq
  rcases isSpace_cases hb with rfl | rfl | rfl | rfl <;> decide

section Layout

variable {l : Layout}

theorem member_good (hl : l.Blank) (k : Bytes) {rs : List Rune} (h : ∀ q ∈ rs, q.good) :
    ∀ q ∈ Rune.ascii quote :: (escape k ++ .ascii quote :: .ascii colon :: (l.gap ++ rs)), q.good :=
  forall_good_cons (by decide) (forall_good_append (escape_good k) (forall_good_cons (by decide)
    (forall_good_cons (by decide) (forall_good_append (blank_good hl.gap) h))))

mutual

theorem layRunes_good (hl : l.Blank) (n : ℕ) : (j : Json) → WF j → ∀ q ∈ layRunes l n j, q.good
  | .null, _ => by rw [layRunes]; decide
  | .bool true, _ => by rw [layRunes]; decide
  | .bool false, _ => by rw [layRunes]; decide
  | .num lit, h => by rw [layRunes]; exact intLit_good h
  | .str s, _ => by
    rw [layRunes]
    exact forall_good_cons (by decide) (forall_good_append (escape_good s) (by decide))
  | .arr [], _ => by rw [layRunes]; decide
  | .arr (j :: js), h => by
    rw [layRunes]
    exact forall_good_cons (by decide) (forall_good_append (blank_good (hl.brk _))
      (forall_good_append (layRunes_good hl (n + 1) j h.1) (layItems_good hl n js h.2)))
  | .obj [], _ => by rw [layRunes]; decide
  | .obj ((k, j) :: ms), h => by
    rw [layRunes]
    exact forall_good_cons (by decide) (forall_good_append (blank_good (hl.brk _))
      (member_good hl k (forall_good_append (layRunes_good hl (n + 1) j h.1)
        (layMembers_good hl n ms h.2))))

theorem layItems_good (hl : l.Blank) (n : ℕ) : (js : List Json) → WFItems js →
    ∀ q ∈ layItems l n js, q.good
  | [], _ => by
    rw [layItems]
    exact forall_good_append (blank_good (hl.brk n)) (by decide)
  | j :: js, h => by
    rw [layItems]
    exact forall_good_cons (by decide) (forall_good_append (blank_good (hl.brk _))
      (forall_good_append (layRunes_good hl (n + 1) j h.1) (layItems_good hl n js h.2)))

theorem layMembers_good (hl : l.Blank) (n : ℕ) : (ms : List (Bytes × Json)) → WFMembers ms →
    ∀ q ∈ layMembers l n ms, q.good
  | [], _ => by
    rw [layMembers]
    exact forall_good_append (blank_good (hl.brk n)) (by decide)
  | (k, j) :: ms, h => by
    rw [layMembers]
    exact forall_good_cons (by decide) (forall_good_append (blank_good (hl.brk _))
      (member_good hl k (forall_good_append (layRunes_good hl (n + 1) j h.1)
        (layMembers_good hl n ms h.2))))

end

/-- What was laid out is unmarshalled, with its strings made valid UTF-8. -/
theorem parse_lay (hl : l.Blank) {j : Json} (hj : WF j) (hd : depth j ≤ maxNestingDepth) :
    parse (Utf8.encode (layRunes l 0 j)) = some (clean j) := by
  have hdecode : Utf8.decode (Utf8.encode (layRunes l 0 j)) = layRunes l 0 j :=
    Utf8.decode_encode' (layRunes_good hl 0 j hj)
  have h := reads hl j hj 0 (2 * (layRunes l 0 j).length + 2) maxNestingDepth [] (by omega) hd
    trivial
  rw [List.append_nil] at h
  simp only [parse, hdecode, h]
  rfl

end Layout

/-! ### The two layouts in use -/

def compact : Layout := ⟨fun _ => [], []⟩

theorem compact_blank : compact.Blank :=
  ⟨fun _ _ h => absurd h List.not_mem_nil, fun _ h => absurd h List.not_mem_nil⟩

theorem indented_blank : indented.Blank where
  brk n r hr := by
    rcases List.mem_cons.mp hr with rfl | hr
    · exact ⟨0x0A, by decide, rfl⟩
    · exact ⟨0x20, by decide, (List.mem_replicate.mp hr).2⟩
  gap r hr := ⟨0x20, by decide, List.mem_singleton.mp hr⟩

mutual

theorem layRunes_compact (n : ℕ) : (j : Json) → layRunes compact n j = printRunes j
  | .null => by rw [layRunes, printRunes]
  | .bool true => by rw [layRunes, printRunes]
  | .bool false => by rw [layRunes, printRunes]
  | .num lit => by rw [layRunes, printRunes]
  | .str s => by rw [layRunes, printRunes]
  | .arr [] => by rw [layRunes, printRunes]
  | .arr (j :: js) => by
    rw [layRunes, printRunes, layRunes_compact, layItems_compact]
    rfl
  | .obj [] => by rw [layRunes, printRunes]
  | .obj ((k, j) :: ms) => by
    rw [layRunes, printRunes, layRunes_compact, layMembers_compact]
    rfl

theorem layItems_compact (n : ℕ) : (js : List Json) → layItems compact n js = printItems js
  | [] => by rw [layItems, printItems]; rfl
  | j :: js => by
    rw [layItems, printItems, layRunes_compact, layItems_compact]
    rfl

theorem layMembers_compact (n : ℕ) : (ms : List (Bytes × Json)) →
    layMembers compact n ms = printMembers ms
  | [] => by rw [layMembers, printMembers]; rfl
  | (k, j) :: ms => by
    rw [layMembers, printMembers, layRunes_compact, layMembers_compact]
    rfl

end

/-- What was marshalled is unmarshalled, with its strings made valid UTF-8. -/
theorem parse_print {j : Json} (hj : WF j) (hd : depth j ≤ maxNestingDepth) :
    parse (print j) = some (clean j) := by
  rw [print, ← layRunes_compact 0 j]
  exact parse_lay compact_blank hj hd

theorem parse_printIndent {j : Json} (hj : WF j) (hd : depth j ≤ maxNestingDepth) :
    parse (printIndent j) = some (clean j) :=
  parse_lay indented_blank hj hd

end GoLib.Json
