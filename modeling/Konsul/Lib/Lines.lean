import Konsul.Lib.JsonRoundTrip
import Konsul.Lib.Strings
import Konsul.Lib.Utf8
import Mathlib.Data.List.DropRight

/-!
# Text in lines

`lines` has the pieces of a text that `bufio.Reader.ReadString('\n')` returns without an
error, each without its newline. What stands behind the last newline is no line, so a
text that is cut off keeps the lines it has whole. A text `unlines` wrote is read back
line by line. A JSON text on one line stays on one line, whatever its strings hold, and
`TrimSpace` leaves it alone.

A `BufferedWriter` (`bufio.Writer`) moves bytes into a buffer and from there to a file. The
disk takes as many bytes as it has room for, which each operation is told; the first write
it cuts short makes the writer fail, and a writer that has failed writes nothing more.
`Holds` says what the file and the buffer have of the text written so far.
-/

namespace GoLib

abbrev newline : UInt8 := 0x0A

def lines : Bytes → List Bytes
  | [] => []
  | b :: s =>
    if b = newline then [] :: lines s
    else
      match lines s with
      | [] => []
      | w :: ws => (b :: w) :: ws

def unlines (ws : List Bytes) : Bytes := ws.flatMap fun w => w ++ [newline]

theorem unlines_append (ws vs : List Bytes) : unlines (ws ++ vs) = unlines ws ++ unlines vs :=
  List.flatMap_append

theorem lines_line {w : Bytes} (h : newline ∉ w) (s : Bytes) :
    lines (w ++ newline :: s) = w :: lines s := by
  induction w with
  | nil => rfl
  | cons b w ih =>
    rw [List.mem_cons, not_or] at h
    have hb : b ≠ newline := fun heq => h.1 heq.symm
    rw [List.cons_append, lines, if_neg hb, ih h.2]

theorem lines_unfinished {w : Bytes} (h : newline ∉ w) : lines w = [] := by
  induction w with
  | nil => rfl
  | cons b w ih =>
    rw [List.mem_cons, not_or] at h
    have hb : b ≠ newline := fun heq => h.1 heq.symm
    rw [lines, if_neg hb, ih h.2]

theorem lines_unlines_append {ws : List Bytes} (h : ∀ w ∈ ws, newline ∉ w) (s : Bytes) :
    lines (unlines ws ++ s) = ws ++ lines s := by
  induction ws with
  | nil => rfl
  | cons w ws ih =>
    have hrest := ih fun v hv => h v (List.mem_cons_of_mem w hv)
    have hsplit : unlines (w :: ws) ++ s = w ++ newline :: (unlines ws ++ s) := by
      simp only [unlines, List.flatMap_cons, List.append_assoc, List.cons_append, List.nil_append]
    rw [hsplit, lines_line (h w (List.mem_cons_self ..)), hrest, List.cons_append]

theorem lines_unlines {ws : List Bytes} (h : ∀ w ∈ ws, newline ∉ w) : lines (unlines ws) = ws := by
  have hall := lines_unlines_append h []
  rw [List.append_nil] at hall
  rw [hall]
  exact List.append_nil ws

/-- More text leaves the lines there are. -/
theorem lines_mono {s t : Bytes} (h : s <+: t) : lines s <+: lines t := by
  induction s generalizing t with
  | nil => exact List.nil_prefix
  | cons b s ih =>
    obtain ⟨t, rfl⟩ := h
    have hrest : lines s <+: lines (s ++ t) := ih ⟨t, rfl⟩
    rw [List.cons_append, lines, lines]
    by_cases hb : b = newline
    · rw [if_pos hb, if_pos hb]
      exact (List.prefix_cons_inj []).mpr hrest
    · rw [if_neg hb, if_neg hb]
      cases hs : lines s with
      | nil => exact List.nil_prefix
      | cons w ws =>
        rw [hs] at hrest
        obtain ⟨vs, heq⟩ := hrest
        rw [← heq]
        exact ⟨vs, rfl⟩

/-- Text cut off within its last line has the lines before that one. -/
theorem lines_take_unlines {ws : List Bytes} {w : Bytes} (h : ∀ v ∈ ws ++ [w], newline ∉ v) {n : ℕ}
    (hn : n < (unlines (ws ++ [w])).length) :
    ∃ k, lines ((unlines (ws ++ [w])).take n) = ws.take k := by
  have htext : unlines (ws ++ [w]) = unlines ws ++ w ++ [newline] := by
    simp only [unlines, List.flatMap_append, List.flatMap_singleton, List.append_assoc]
  have hcut : (unlines (ws ++ [w])).take n <+: unlines ws ++ w := by
    rw [htext] at hn ⊢
    rw [List.length_append, List.length_singleton] at hn
    rw [List.take_append_of_le_length (by omega)]
    exact List.take_prefix n _
  have hlast : lines (unlines ws ++ w) = ws := by
    rw [lines_unlines_append fun v hv => h v (List.mem_append_left _ hv),
      lines_unfinished (h w (by simp)), List.append_nil]
  have hpre := lines_mono hcut
  rw [hlast] at hpre
  exact ⟨_, List.prefix_iff_eq_take.mp hpre⟩

/-- No byte is a control character. -/
def Plain (w : Bytes) : Prop := ∀ b ∈ w, 0x20 ≤ b

instance (w : Bytes) : Decidable (Plain w) := inferInstanceAs (Decidable (∀ b ∈ w, _))

theorem Plain.append {w v : Bytes} (hw : Plain w) (hv : Plain v) : Plain (w ++ v) :=
  List.forall_mem_append.mpr ⟨hw, hv⟩

theorem Plain.newline_notMem {w : Bytes} (h : Plain w) : newline ∉ w :=
  fun hmem => absurd (h newline hmem) (by decide)

/-- `strings.TrimRight(line, "\r\n")`. -/
def trimLineEnd (line : Bytes) : Bytes := line.rdropWhile fun b => b = 0x0D || b = newline

theorem Plain.trimLineEnd {w : Bytes} (h : Plain w) : trimLineEnd (w ++ [newline]) = w := by
  rw [GoLib.trimLineEnd, List.rdropWhile_concat_pos _ _ _ (by decide), List.rdropWhile_eq_self_iff]
  intro hne hend
  have hle := h _ (List.getLast_mem hne)
  rw [Bool.or_eq_true, decide_eq_true_eq, decide_eq_true_eq] at hend
  rcases hend with heq | heq
  · exact absurd (heq ▸ hle) (by decide)
  · exact absurd (heq ▸ hle) (by decide)

theorem trimSuffix_append (s sfx : Bytes) : trimSuffix (s ++ sfx) sfx = s := by
  have hsuffix : hasSuffix (s ++ sfx) sfx = true := by
    rw [hasSuffix, List.isSuffixOf_iff_suffix]
    exact List.suffix_append s sfx
  rw [trimSuffix, if_pos hsuffix, List.length_append, Nat.add_sub_cancel, List.take_left]

/-! ### JSON on one line -/

namespace Json

open Utf8 (Rune)

/-- Text of one line: no byte of it is a control character. -/
def Flat (rs : List Rune) : Prop := ∀ r ∈ rs, ∀ b ∈ r.bytes, 0x20 ≤ b

theorem flat_append {rs qs : List Rune} (h : Flat rs) (h' : Flat qs) : Flat (rs ++ qs) :=
  List.forall_mem_append.mpr ⟨h, h'⟩

theorem flat_cons {b : UInt8} (hb : 0x20 ≤ b) {rs : List Rune} (h : Flat rs) :
    Flat (.ascii b :: rs) := by
  refine List.forall_mem_cons.mpr ⟨fun c hc => ?_, h⟩
  rw [List.mem_singleton.mp hc]
  exact hb

theorem flat_ascii (bs : Bytes) (h : ∀ b ∈ bs, 0x20 ≤ b) : Flat (bs.map .ascii) := by
  intro r hr
  obtain ⟨b, hb, rfl⟩ := List.mem_map.mp hr
  intro c hc
  rw [List.mem_singleton.mp hc]
  exact h b hb

/-- A byte of a longer sequence is no ASCII byte. -/
theorem ascii_le_of_mem_seq {bs : Bytes} (h : Utf8.seq bs) : ∀ b ∈ bs, (0x80 : UInt8) ≤ b := by
  have htail : ∀ b, Utf8.tail b → (0x80 : UInt8) ≤ b := by
    intro b hb
    rw [Utf8.tail, Bool.and_eq_true, decide_eq_true_eq] at hb
    exact hb.1
  have hlead : ∀ a b : UInt8, a ≤ b → (0x80 : UInt8) ≤ a → (0x80 : UInt8) ≤ b :=
    fun _ _ hab ha => UInt8.le_trans ha hab
  match bs, h with
  | [a, b], h =>
    simp only [Utf8.seq, Utf8.two, Bool.and_eq_true, decide_eq_true_eq] at h
    have ha := hlead _ _ h.1.1 (by decide)
    simp only [List.forall_mem_cons, ha, htail b h.2, List.not_mem_nil, false_implies,
      implies_true, and_self]
  | [a, b, c], h =>
    simp only [Utf8.seq, Utf8.three, Bool.and_eq_true, decide_eq_true_eq] at h
    have ha := hlead _ _ h.1.1.1.1.1 (by decide)
    simp only [List.forall_mem_cons, ha, htail b h.1.1.1.2, htail c h.1.1.2, List.not_mem_nil,
      false_implies, implies_true, and_self]
  | [a, b, c, d], h =>
    simp only [Utf8.seq, Utf8.four, Bool.and_eq_true, decide_eq_true_eq] at h
    have ha := hlead _ _ h.1.1.1.1.1.1 (by decide)
    simp only [List.forall_mem_cons, ha, htail b h.1.1.1.1.2, htail c h.1.1.1.2, htail d h.1.1.2,
      List.not_mem_nil, false_implies, implies_true, and_self]

theorem escapeByte_flat (b : UInt8) : Flat (escapeByte b) := by
  have hhex : ∀ n < 16, (0x20 : UInt8) ≤ hexDigit n := by
    intro n hn
    interval_cases n <;> decide
  have hlow := hhex (b.toNat % 16) (by omega)
  have hhigh := hhex (b.toNat / 16) (by
    have hlt := b.toNat_lt
    omega)
  unfold escapeByte
  split_ifs with hquote _ _ _ _ _ hhtml
  · rcases hquote with rfl | rfl <;> exact flat_ascii [_, _] (by decide +kernel)
  · exact flat_ascii [backslash, 0x62] (by decide +kernel)
  · exact flat_ascii [backslash, 0x66] (by decide +kernel)
  · exact flat_ascii [backslash, 0x6E] (by decide +kernel)
  · exact flat_ascii [backslash, 0x72] (by decide +kernel)
  · exact flat_ascii [backslash, 0x74] (by decide +kernel)
  · have hdigits : Flat [.ascii (hexDigit (b.toNat / 16)), .ascii (hexDigit (b.toNat % 16))] :=
      flat_cons hhigh (flat_cons hlow fun _ h => absurd h List.not_mem_nil)
    exact flat_append (flat_ascii [backslash, 0x75, 0x30, 0x30] (by decide +kernel)) hdigits
  · rw [not_or] at hhtml
    exact flat_cons (UInt8.not_lt.mp hhtml.1) fun _ h => absurd h List.not_mem_nil

theorem escape_flat (s : Bytes) : Flat (escape s) := by
  suffices hrunes : ∀ r ∈ Utf8.decode s, Flat (escapeRune r) by
    intro q hq
    obtain ⟨r, hr, hq⟩ := List.mem_flatMap.mp hq
    exact hrunes r hr q hq
  intro r hr
  rcases Utf8.good_or_bad_of_mem_decode s r hr with hgood | ⟨b, rfl⟩
  · cases r with
    | ascii b => exact escapeByte_flat b
    | multi bs =>
      show Flat (escapeMulti bs)
      unfold escapeMulti
      split_ifs
      · exact flat_ascii _ (by decide +kernel)
      · exact flat_ascii _ (by decide +kernel)
      · intro q hq b hb
        rw [List.mem_singleton.mp hq] at hb
        exact UInt8.le_trans (by decide +kernel) (ascii_le_of_mem_seq hgood b hb)
    | bad b => cases hgood
  · exact flat_ascii _ (by decide +kernel)

theorem intLit_flat {lit : Bytes} (h : IntLit lit) : Flat (lit.map .ascii) := by
  have hdigits : ∀ n, ∀ b ∈ decimal n, (0x20 : UInt8) ≤ b := by
    intro n b hb
    have hdigit := isDigit_of_mem_decimal b hb
    simp only [isDigit, Bool.and_eq_true, decide_eq_true_eq] at hdigit
    exact UInt8.le_trans (by decide +kernel) hdigit.1
  obtain ⟨n, rfl | rfl⟩ := h
  · exact flat_ascii _ (hdigits n)
  · exact flat_cons (by decide +kernel) (flat_ascii _ (hdigits n))

theorem member_flat (k : Bytes) {rs : List Rune} (h : Flat rs) :
    Flat (.ascii quote :: (escape k ++ .ascii quote :: .ascii colon :: rs)) :=
  flat_cons (by decide +kernel) (flat_append (escape_flat k) (flat_cons (by decide +kernel)
    (flat_cons (by decide +kernel) h)))

mutual

theorem printRunes_flat : (j : Json) → WF j → Flat (printRunes j)
  | .null, _ => by rw [printRunes]; exact flat_ascii _ (by decide +kernel)
  | .bool true, _ => by rw [printRunes]; exact flat_ascii _ (by decide +kernel)
  | .bool false, _ => by rw [printRunes]; exact flat_ascii _ (by decide +kernel)
  | .num lit, h => by rw [printRunes]; exact intLit_flat h
  | .str s, _ => by
    rw [printRunes]
    exact flat_cons (by decide +kernel) (flat_append (escape_flat s)
      (flat_ascii [quote] (by decide +kernel)))
  | .arr [], _ => by rw [printRunes]; exact flat_ascii [lbracket, rbracket] (by decide +kernel)
  | .arr (j :: js), h => by
    rw [printRunes]
    exact flat_cons (by decide +kernel) (flat_append (printRunes_flat j h.1) (printItems_flat js h.2))
  | .obj [], _ => by rw [printRunes]; exact flat_ascii [lbrace, rbrace] (by decide +kernel)
  | .obj ((k, j) :: ms), h => by
    rw [printRunes]
    exact flat_cons (by decide +kernel) (member_flat k
      (flat_append (printRunes_flat j h.1) (printMembers_flat ms h.2)))

theorem printItems_flat : (js : List Json) → WFItems js → Flat (printItems js)
  | [], _ => by rw [printItems]; exact flat_ascii [rbracket] (by decide +kernel)
  | j :: js, h => by
    rw [printItems]
    exact flat_cons (by decide +kernel) (flat_append (printRunes_flat j h.1) (printItems_flat js h.2))

theorem printMembers_flat : (ms : List (Bytes × Json)) → WFMembers ms → Flat (printMembers ms)
  | [], _ => by rw [printMembers]; exact flat_ascii [rbrace] (by decide +kernel)
  | (k, j) :: ms, h => by
    rw [printMembers]
    exact flat_cons (by decide +kernel) (member_flat k
      (flat_append (printRunes_flat j h.1) (printMembers_flat ms h.2)))

end

theorem plain_print {j : Json} (h : WF j) : Plain (print j) := by
  intro b hb
  obtain ⟨r, hr, hb⟩ := List.mem_flatMap.mp hb
  exact printRunes_flat j h r hr b hb

/-! ### The ends of an object -/

theorem printMembers_last (ms : List (Bytes × Json)) :
    ∃ rs, printMembers ms = rs ++ [.ascii rbrace] := by
  induction ms with
  | nil => exact ⟨[], by rw [printMembers]; rfl⟩
  | cons m ms ih =>
    obtain ⟨k, j⟩ := m
    obtain ⟨rs, hrs⟩ := ih
    rw [printMembers, hrs]
    exact ⟨.ascii comma :: .ascii quote :: (escape k ++ .ascii quote :: .ascii colon ::
      (printRunes j ++ rs)), by simp only [List.cons_append, List.append_assoc]⟩

theorem printRunes_obj (ms : List (Bytes × Json)) :
    ∃ rs, printRunes (.obj ms) = .ascii lbrace :: (rs ++ [.ascii rbrace]) := by
  cases ms with
  | nil => exact ⟨[], by rw [printRunes]; rfl⟩
  | cons m ms =>
    obtain ⟨k, j⟩ := m
    obtain ⟨rs, hrs⟩ := printMembers_last ms
    rw [printRunes, hrs]
    exact ⟨.ascii quote :: (escape k ++ .ascii quote :: .ascii colon :: (printRunes j ++ rs)),
      by simp only [List.cons_append, List.append_assoc]⟩

end Json

/-- Text that neither begins nor ends with space, and a blank in front of it. -/
theorem trimSpace_encode {rs : List Utf8.Rune} (hgood : ∀ r ∈ rs, r.good) {first last : Utf8.Rune}
    {mid : List Utf8.Rune} (hrs : rs = first :: (mid ++ [last]))
    (hfirst : isSpaceRune first.value = false) (hlast : isSpaceRune last.value = false) :
    trimSpace (Utf8.encode rs) = Utf8.encode rs ∧
      trimSpace (0x20 :: Utf8.encode rs) = Utf8.encode rs := by
  have hleft : rs.dropWhile (fun r => isSpaceRune r.value) = rs := by
    rw [hrs, List.dropWhile_cons_of_neg (by simp [hfirst])]
  have hright : (rs.reverse.dropWhile fun r => isSpaceRune r.value).reverse = rs := by
    have hreverse : rs.reverse = last :: (mid.reverse ++ [first]) := by simp [hrs]
    rw [hreverse, List.dropWhile_cons_of_neg (by simp [hlast]), ← hreverse, List.reverse_reverse]
  have hdecode := Utf8.decode_encode' hgood
  constructor
  · simp only [trimSpace, hdecode, hleft, hright]
  · have hblank : Utf8.decode (0x20 :: Utf8.encode rs) = .ascii 0x20 :: rs := by
      rw [Utf8.decode_ascii (by decide), hdecode]
    have hspace : (Utf8.Rune.ascii 0x20 :: rs).dropWhile (fun r => isSpaceRune r.value) = rs := by
      rw [List.dropWhile_cons_of_pos (by decide), hleft]
    simp only [trimSpace, hblank, hspace, hright]

namespace Json

theorem trimSpace_print {ms : List (Bytes × Json)} (h : WFMembers ms) :
    trimSpace (print (.obj ms)) = print (.obj ms) ∧
      trimSpace (0x20 :: print (.obj ms)) = print (.obj ms) := by
  have hgood : ∀ r ∈ printRunes (.obj ms), r.good := by
    rw [← layRunes_compact 0]
    exact layRunes_good compact_blank 0 (.obj ms) h
  obtain ⟨rs, hrs⟩ := printRunes_obj ms
  exact trimSpace_encode hgood hrs (by decide) (by decide)

end Json

end GoLib

/-! ### A buffered writer over a file -/

namespace GoLib

structure BufferedWriter where
  size : ℕ
  file : Bytes
  buf : Bytes
  failed : Bool

namespace BufferedWriter

/-- `NewWriter`, for a file open for appending. -/
def new (size : ℕ) (file : Bytes) : BufferedWriter := ⟨size, file, [], false⟩

/-- A write to the file itself. -/
def toFile (w : BufferedWriter) (p : Bytes) (room : ℕ) : BufferedWriter :=
  { w with file := w.file ++ p.take room, failed := room < p.length }

def flush (w : BufferedWriter) (room : ℕ) : BufferedWriter :=
  if w.failed then w else { w.toFile w.buf room with buf := w.buf.drop room }

/-- Bytes that do not fit behind those in the buffer fill it up, and what is left after that
goes to the file if the buffer cannot take it at once. -/
def write (w : BufferedWriter) (p : Bytes) (room : ℕ) : BufferedWriter :=
  if w.failed then w
  else if w.buf.length + p.length ≤ w.size then { w with buf := w.buf ++ p }
  else if w.buf = [] then w.toFile p room
  else
    let free := w.size - w.buf.length
    let full := { w with buf := w.buf ++ p.take free }.flush room
    if full.failed then full
    else if (p.drop free).length ≤ w.size then { full with buf := p.drop free }
    else full.toFile (p.drop free) (room - w.size)

def writeByte (w : BufferedWriter) (b : UInt8) (room : ℕ) : BufferedWriter :=
  if w.failed then w
  else
    let w' := if w.size ≤ w.buf.length then w.flush room else w
    if w'.failed then w' else { w' with buf := w'.buf ++ [b] }

/-- What the writer has of a text written behind what was in the file: all of it in the
file and the buffer, or a beginning of it in the file when the writer has failed. -/
structure Holds (w : BufferedWriter) (base text : Bytes) : Prop where
  kept : base <+: w.file
  begun : w.file <+: base ++ text
  whole : w.failed = false → w.file ++ w.buf = base ++ text

variable {w : BufferedWriter} {base text p : Bytes}

theorem holds_new (size : ℕ) (base : Bytes) : (new size base).Holds base [] :=
  ⟨List.prefix_refl _, List.prefix_append _ _, fun _ => rfl⟩

/-- A writer that has failed holds any longer text too. -/
theorem Holds.of_failed (h : w.Holds base text) (hfailed : w.failed = true) (p : Bytes) :
    w.Holds base (text ++ p) where
  kept := h.kept
  begun := by
    rw [← List.append_assoc]
    exact h.begun.trans (List.prefix_append _ _)
  whole := by
    intro hok
    rw [hfailed] at hok
    cases hok

/-- Rule for a writer whose file has grown by a part of what was still to come. -/
theorem Holds.grow (h : w.Holds base text) (hok : w.failed = false) {w' : BufferedWriter}
    {p q : Bytes} (hfile : w'.file = w.file ++ q) (hq : q <+: w.buf ++ p)
    (hwhole : w'.failed = false → q ++ w'.buf = w.buf ++ p) : w'.Holds base (text ++ p) := by
  have hall : base ++ (text ++ p) = w.file ++ (w.buf ++ p) := by
    rw [← List.append_assoc, ← h.whole hok, List.append_assoc]
  constructor
  · rw [hfile]
    exact h.kept.trans (List.prefix_append _ _)
  · rw [hfile, hall]
    exact (List.prefix_append_right_inj _).mpr hq
  · intro hok'
    rw [hfile, hall, List.append_assoc, hwhole hok']

theorem Holds.flush (h : w.Holds base text) (room : ℕ) : (w.flush room).Holds base text := by
  unfold BufferedWriter.flush
  cases hfailed : w.failed with
  | true => exact h
  | false =>
    show ({ w.toFile w.buf room with buf := w.buf.drop room } : BufferedWriter).Holds base text
    rw [← List.append_nil text]
    refine h.grow hfailed (q := w.buf.take room) rfl ?_ fun _ => ?_
    · rw [List.append_nil]
      exact List.take_prefix _ _
    · rw [List.append_nil]
      exact List.take_append_drop _ _

/-- After a flush that succeeds nothing is left in the buffer. -/
theorem buf_flush (hok : (w.flush room).failed = false) : (w.flush room).buf = [] := by
  unfold BufferedWriter.flush at hok ⊢
  cases hfailed : w.failed with
  | true =>
    rw [hfailed, if_pos rfl, hfailed] at hok
    cases hok
  | false =>
    rw [hfailed] at hok
    simp only [toFile, Bool.false_eq_true, ite_false, decide_eq_false_iff_not, not_lt] at hok ⊢
    exact List.drop_eq_nil_of_le hok

/-- Text put behind what is in the buffer. -/
theorem Holds.buffer (h : w.Holds base text) (hok : w.failed = false) (p : Bytes) :
    ({ w with buf := w.buf ++ p } : BufferedWriter).Holds base (text ++ p) :=
  h.grow hok (q := []) (List.append_nil _).symm List.nil_prefix fun _ => rfl

/-- Text written to the file itself, when the buffer is empty. -/
theorem Holds.toFile (h : w.Holds base text) (hok : w.failed = false) (hempty : w.buf = [])
    (p : Bytes) (room : ℕ) : (w.toFile p room).Holds base (text ++ p) := by
  refine h.grow hok (q := p.take room) rfl ?_ fun hroom => ?_
  · rw [hempty]
    exact List.take_prefix _ _
  · simp only [BufferedWriter.toFile, decide_eq_false_iff_not, not_lt] at hroom
    rw [BufferedWriter.toFile, hempty, List.take_of_length_le hroom, List.append_nil]
    rfl

theorem Holds.write (h : w.Holds base text) (p : Bytes) (room : ℕ) :
    (w.write p room).Holds base (text ++ p) := by
  unfold BufferedWriter.write
  by_cases hfailed : w.failed = true
  · rw [if_pos hfailed]
    exact h.of_failed hfailed p
  · rw [if_neg hfailed]
    have hopen := Bool.eq_false_iff.mpr hfailed
    have hfull := (h.buffer hopen (p.take (w.size - w.buf.length))).flush room
    have hrest : text ++ p = text ++ p.take (w.size - w.buf.length) ++
        p.drop (w.size - w.buf.length) := by
      rw [List.append_assoc, List.take_append_drop]
    have hbuf : (({ w with buf := w.buf ++ p.take (w.size - w.buf.length) } : BufferedWriter).flush
        room).failed = false → _ = [] := buf_flush
    dsimp only
    split_ifs with hfits hempty hcut hsmall
    · exact h.buffer hopen p
    · exact h.toFile hopen hempty p room
    · rw [hrest]
      exact hfull.of_failed hcut _
    · have hok := Bool.eq_false_iff.mpr hcut
      have hall := hfull.buffer hok (p.drop (w.size - w.buf.length))
      rw [hbuf hok, List.nil_append] at hall
      rw [hrest]
      exact hall
    · have hok := Bool.eq_false_iff.mpr hcut
      rw [hrest]
      exact hfull.toFile hok (hbuf hok) _ _

theorem Holds.writeByte (h : w.Holds base text) (b : UInt8) (room : ℕ) :
    (w.writeByte b room).Holds base (text ++ [b]) := by
  unfold BufferedWriter.writeByte
  by_cases hfailed : w.failed = true
  · rw [if_pos hfailed]
    exact h.of_failed hfailed [b]
  · rw [if_neg hfailed]
    have hroom : (if w.size ≤ w.buf.length then w.flush room else w).Holds base text := by
      split_ifs
      · exact h.flush room
      · exact h
    generalize (if w.size ≤ w.buf.length then w.flush room else w) = w' at hroom ⊢
    show (if w'.failed then w' else { w' with buf := w'.buf ++ [b] }).Holds base (text ++ [b])
    by_cases hfailed' : w'.failed = true
    · rw [if_pos hfailed']
      exact hroom.of_failed hfailed' [b]
    · rw [if_neg hfailed']
      exact hroom.buffer (Bool.eq_false_iff.mpr hfailed') [b]

/-- After a flush that succeeds the file has the whole text. -/
theorem Holds.file_flush (h : w.Holds base text) {room : ℕ} (hok : (w.flush room).failed = false) :
    (w.flush room).file = base ++ text := by
  have hwhole := (h.flush room).whole hok
  rw [buf_flush hok, List.append_nil] at hwhole
  exact hwhole

end BufferedWriter

end GoLib
