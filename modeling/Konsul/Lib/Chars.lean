import Konsul.Lib.Replace

/-!
# Byte strings as characters

The code points of a byte string, a byte outside any sequence reading as U+FFFD. The runes
of text are told apart by their characters, so a replacement on bytes is one on
characters.
-/

namespace GoLib

namespace Utf8

def Rune.char (r : Rune) : Char := Char.ofNat r.value

def chars (s : Bytes) : List Char := (decode s).map Rune.char

/-! ### Code points -/

/-- The runes of text by the number of their bytes. -/
inductive Shape : Rune → Prop where
  | one (b : UInt8) (hb : b.toNat < 0x80) : Shape (.ascii b)
  | two (a b : UInt8) (ha : 0xC2 ≤ a.toNat ∧ a.toNat ≤ 0xDF) (hb : 0x80 ≤ b.toNat ∧ b.toNat ≤ 0xBF) :
    Shape (.multi [a, b])
  | three (a b c : UInt8) (ha : 0xE0 ≤ a.toNat ∧ a.toNat ≤ 0xEF)
    (hb : 0x80 ≤ b.toNat ∧ b.toNat ≤ 0xBF) (hc : 0x80 ≤ c.toNat ∧ c.toNat ≤ 0xBF)
    (hlow : a.toNat = 0xE0 → 0xA0 ≤ b.toNat) (hsurrogate : a.toNat = 0xED → b.toNat ≤ 0x9F) :
    Shape (.multi [a, b, c])
  | four (a b c d : UInt8) (ha : 0xF0 ≤ a.toNat ∧ a.toNat ≤ 0xF4)
    (hb : 0x80 ≤ b.toNat ∧ b.toNat ≤ 0xBF) (hc : 0x80 ≤ c.toNat ∧ c.toNat ≤ 0xBF)
    (hd : 0x80 ≤ d.toNat ∧ d.toNat ≤ 0xBF) (hlow : a.toNat = 0xF0 → 0x90 ≤ b.toNat)
    (hhigh : a.toNat = 0xF4 → b.toNat ≤ 0x8F) : Shape (.multi [a, b, c, d])

theorem tail_iff (b : UInt8) : tail b ↔ 0x80 ≤ b.toNat ∧ b.toNat ≤ 0xBF := by
  simp [tail, UInt8.le_iff_toNat_le]

theorem shape_of_good {r : Rune} (h : r.good) : Shape r := by
  cases r with
  | ascii b => exact .one b (UInt8.lt_iff_toNat_lt.mp (of_decide_eq_true h))
  | multi bs =>
    match bs, h with
    | [a, b], h =>
      simp only [Rune.good, seq, Utf8.two, Bool.and_eq_true, decide_eq_true_eq, tail_iff,
        UInt8.le_iff_toNat_le, UInt8.reduceToNat] at h
      exact .two a b ⟨h.1.1, h.1.2⟩ h.2
    | [a, b, c], h =>
      simp only [Rune.good, seq, Utf8.three, Bool.and_eq_true, Bool.or_eq_true, decide_eq_true_eq,
        bne_iff_ne, ne_eq, tail_iff, UInt8.le_iff_toNat_le, ← UInt8.toNat_inj,
        UInt8.reduceToNat] at h
      exact .three a b c ⟨by omega, by omega⟩ ⟨by omega, by omega⟩ ⟨by omega, by omega⟩ (by omega)
        (by omega)
    | [a, b, c, d], h =>
      simp only [Rune.good, seq, Utf8.four, Bool.and_eq_true, Bool.or_eq_true, decide_eq_true_eq,
        bne_iff_ne, ne_eq, tail_iff, UInt8.le_iff_toNat_le, ← UInt8.toNat_inj,
        UInt8.reduceToNat] at h
      exact .four a b c d ⟨by omega, by omega⟩ ⟨by omega, by omega⟩ ⟨by omega, by omega⟩
        ⟨by omega, by omega⟩ (by omega) (by omega)
  | bad b => cases h

theorem isValidChar_value {r : Rune} (h : r.good) : r.value.isValidChar := by
  unfold Nat.isValidChar
  cases shape_of_good h <;> simp only [Rune.value] <;> omega

/-- The digits of a code point to the base 64. -/
theorem digit_inj {x y u v : ℕ} (h : x * 64 + u % 64 = y * 64 + v % 64) :
    x = y ∧ u % 64 = v % 64 := by
  omega

theorem tail_inj {b b' : UInt8} (hb : 0x80 ≤ b.toNat ∧ b.toNat ≤ 0xBF)
    (hb' : 0x80 ≤ b'.toNat ∧ b'.toNat ≤ 0xBF) (h : b.toNat % 64 = b'.toNat % 64) : b = b' :=
  UInt8.toNat_inj.mp (by omega)

/-- The code point tells the length of the sequence, and then its bytes. -/
theorem value_injective {r q : Rune} (hr : r.good) (hq : q.good) (h : r.value = q.value) :
    r = q := by
  cases shape_of_good hr with
  | one b hb =>
    cases shape_of_good hq with
    | one b' hb' => rw [UInt8.toNat_inj.mp h]
    | _ => simp only [Rune.value] at h; omega
  | two a b ha hb =>
    cases shape_of_good hq with
    | two a' b' ha' hb' =>
      obtain ⟨hfirst, hsecond⟩ := digit_inj h
      rw [show a = a' from UInt8.toNat_inj.mp (by omega), tail_inj hb hb' hsecond]
    | _ => simp only [Rune.value] at h; omega
  | three a b c ha hb hc hlow hsurrogate =>
    cases shape_of_good hq with
    | three a' b' c' ha' hb' hc' =>
      have hdigits : (a.toNat % 16 * 64 + b.toNat % 64) * 64 + c.toNat % 64 =
          (a'.toNat % 16 * 64 + b'.toNat % 64) * 64 + c'.toNat % 64 := by
        simp only [Rune.value] at h
        clear hlow hsurrogate
        omega
      obtain ⟨hdigits, hthird⟩ := digit_inj hdigits
      obtain ⟨hfirst, hsecond⟩ := digit_inj hdigits
      rw [show a = a' from UInt8.toNat_inj.mp (by omega), tail_inj hb hb' hsecond,
        tail_inj hc hc' hthird]
    | _ => simp only [Rune.value] at h; omega
  | four a b c d ha hb hc hd hlow hhigh =>
    cases shape_of_good hq with
    | four a' b' c' d' ha' hb' hc' hd' =>
      have hdigits : ((a.toNat % 8 * 64 + b.toNat % 64) * 64 + c.toNat % 64) * 64 + d.toNat % 64 =
          ((a'.toNat % 8 * 64 + b'.toNat % 64) * 64 + c'.toNat % 64) * 64 + d'.toNat % 64 := by
        simp only [Rune.value] at h
        clear hlow hhigh
        omega
      obtain ⟨hdigits, hfourth⟩ := digit_inj hdigits
      obtain ⟨hdigits, hthird⟩ := digit_inj hdigits
      obtain ⟨hfirst, hsecond⟩ := digit_inj hdigits
      rw [show a = a' from UInt8.toNat_inj.mp (by omega), tail_inj hb hb' hsecond,
        tail_inj hc hc' hthird, tail_inj hd hd' hfourth]
    | _ =>
      have hlarge : 0x10000 ≤ Rune.value (.multi [a, b, c, d]) := by
        simp only [Rune.value]
        omega
      rw [h] at hlarge
      clear h hlow hhigh
      simp only [Rune.value] at hlarge
      omega

theorem toNat_char {r : Rune} (h : r.good) : r.char.toNat = r.value := by
  rw [Rune.char, Char.ofNat, dif_pos (isValidChar_value h)]
  rfl

theorem char_injective {r q : Rune} (hr : r.good) (hq : q.good) (h : r.char = q.char) : r = q := by
  have hnat := congrArg Char.toNat h
  rw [toNat_char hr, toNat_char hq] at hnat
  exact value_injective hr hq hnat

theorem char_ascii (b : UInt8) : (Rune.ascii b).char = Char.ofNat b.toNat := rfl

theorem char_bad (b : UInt8) : (Rune.bad b).char = Char.ofNat 0xFFFD := rfl

/-! ### Texts -/

@[simp] theorem chars_nil : chars [] = [] := rfl

theorem chars_append (u : Bytes) {v : Bytes} (h : Boundary v) :
    chars (u ++ v) = chars u ++ chars v := by
  rw [chars, decode_append u h, List.map_append]
  rfl

theorem valid_append (u : Bytes) {v : Bytes} (h : Boundary v) :
    valid (u ++ v) ↔ valid u ∧ valid v := by
  rw [valid_iff, valid_iff, valid_iff, decode_append u h, List.forall_mem_append]

theorem chars_bytes_append {r : Rune} (h : r.good) (s : Bytes) :
    chars (r.bytes ++ s) = r.char :: chars s := by
  rw [chars, decode_bytes_append h, List.map_cons]
  rfl

theorem chars_bad_append (u v : Bytes) :
    chars (u ++ 0xFF :: v) = chars u ++ Char.ofNat 0xFFFD :: chars v := by
  have hlead : Boundary (0xFF :: v) := fun b hb =>
    not_tail_of_lead (.inr (Option.some.inj hb ▸ by decide))
  have hnone : ∀ bs, bs <+: v → seq (0xFF :: bs) = false := by
    intro bs _
    match bs with
    | [] => rfl
    | [b] => rfl
    | [b, c] => rfl
    | [b, c, d] => rfl
    | b :: c :: d :: e :: bs => rfl
  have hbad : chars (0xFF :: v) = Char.ofNat 0xFFFD :: chars v := by
    rw [chars, decode_bad (by decide) hnone]
    rfl
  rw [chars_append u hlead, hbad]

theorem chars_encode {rs : List Rune} (h : ∀ r ∈ rs, r.good) :
    chars (encode rs) = rs.map Rune.char := by
  rw [chars, decode_encode' h]

theorem exists_chars {cs : List Char} (h : ∀ c ∈ cs, ∃ r : Rune, r.good ∧ r.char = c) :
    ∃ s, chars s = cs := by
  induction cs with
  | nil => exact ⟨[], rfl⟩
  | cons c cs ih =>
    rw [List.forall_mem_cons] at h
    obtain ⟨⟨r, hr, rfl⟩, hcs⟩ := h
    obtain ⟨s, rfl⟩ := ih hcs
    exact ⟨r.bytes ++ s, chars_bytes_append hr s⟩

section

variable {α β : Type*} {f : α → β} {P : α → Prop}

theorem map_prefix_iff (hf : ∀ a b, P a → P b → f a = f b → a = b) {u s : List α}
    (hu : ∀ a ∈ u, P a) (hs : ∀ a ∈ s, P a) : u.map f <+: s.map f ↔ u <+: s := by
  induction u generalizing s with
  | nil => exact iff_of_true List.nil_prefix List.nil_prefix
  | cons a u ih =>
    cases s with
    | nil => simp
    | cons b s =>
      rw [List.forall_mem_cons] at hu hs
      rw [List.map_cons, List.map_cons, List.cons_prefix_cons, List.cons_prefix_cons, ih hu.2 hs.2]
      exact and_congr_left' ⟨hf a b hu.1 hs.1, fun heq => congrArg f heq⟩

variable [DecidableEq α] [DecidableEq β]

theorem cut_map (hf : ∀ a b, P a → P b → f a = f b → a = b) {old : List α}
    (hold : old ≠ []) (hPold : ∀ a ∈ old, P a) {s : List α} (hs : ∀ a ∈ s, P a) :
    cut (old.map f) 0 (s.map f) = (cut old 0 s).map (Option.map f) := by
  have holdf : old.map f ≠ [] := fun h => hold (List.map_eq_nil_iff.mp h)
  induction s using cut_induction hold with
  | nil => rfl
  | occurrence s ih =>
    rw [List.forall_mem_append] at hs
    rw [List.map_append, cut_occurrence holdf, cut_occurrence hold, ih hs.2]
    rfl
  | letter a s hpre ih =>
    have hpref := hpre
    rw [← map_prefix_iff hf hPold hs, List.map_cons] at hpref
    rw [List.forall_mem_cons] at hs
    rw [List.map_cons, cut_letter hpref, cut_letter hpre, ih hs.2]
    rfl

/-- A replacement commutes with a map that tells the letters apart. -/
theorem map_substitute (hf : ∀ a b, P a → P b → f a = f b → a = b) {old new : List α}
    (hold : old ≠ []) (hPold : ∀ a ∈ old, P a) {s : List α} (hs : ∀ a ∈ s, P a) :
    (substitute s old new).map f = substitute (s.map f) (old.map f) (new.map f) := by
  rw [substitute, substitute, cut_map hf hold hPold hs, List.flatMap_map, List.map_flatMap]
  refine List.flatMap_congr fun o _ => ?_
  cases o <;> rfl

end

theorem good_injective : ∀ r q : Rune, r.good = true → q.good = true → r.char = q.char → r = q :=
  fun _ _ hr hq h => char_injective hr hq h

/-- Replacing a text by another is a replacement of characters. -/
theorem chars_replaceAll {s old new : Bytes} (hold : old ≠ []) (hvold : valid old) (hnew : new ≠ [])
    (hvnew : valid new) (hvalid : valid s) :
    chars (replaceAll s old new) = substitute (chars s) (chars old) (chars new) := by
  have hrunes : decode old ≠ [] := fun h => hold ((decode_eq_nil_iff old).mp h)
  rw [chars, decode_replaceAll hold hvold hnew hvnew]
  exact map_substitute good_injective hrunes ((valid_iff old).mp hvold) ((valid_iff s).mp hvalid)

theorem hasPrefix_chars_iff {s pfx : Bytes} (hpfx : valid pfx) (hs : valid s) :
    hasPrefix s pfx = true ↔ chars pfx <+: chars s := by
  rw [hasPrefix, List.isPrefixOf_iff_prefix, ← prefix_decode_iff hpfx]
  exact (map_prefix_iff good_injective ((valid_iff pfx).mp hpfx) ((valid_iff s).mp hs)).symm

theorem decode_eq_of_chars {rs qs : List Rune} (hrs : ∀ r ∈ rs, r.good) (hqs : ∀ r ∈ qs, r.good)
    (h : rs.map Rune.char = qs.map Rune.char) : rs = qs := by
  induction rs generalizing qs with
  | nil => exact (List.map_eq_nil_iff.mp h.symm).symm
  | cons r rs ih =>
    cases qs with
    | nil => cases h
    | cons q qs =>
      rw [List.map_cons, List.map_cons, List.cons.injEq] at h
      rw [List.forall_mem_cons] at hrs hqs
      rw [char_injective hrs.1 hqs.1 h.1, ih hrs.2 hqs.2 h.2]

theorem hasSuffix_chars_iff {s sfx : Bytes} (hne : sfx ≠ []) (hsfx : valid sfx) (hs : valid s) :
    hasSuffix s sfx = true ↔ chars sfx <:+ chars s := by
  rw [hasSuffix, List.isSuffixOf_iff_suffix]
  constructor
  · rintro ⟨u, rfl⟩
    have hbound := boundary_of_valid hsfx hne []
    rw [List.append_nil] at hbound
    exact ⟨chars u, (chars_append u hbound).symm⟩
  · rintro ⟨t, ht⟩
    obtain ⟨rs, qs, hdecode, -, hqs⟩ := List.map_eq_append_iff.mp ht.symm
    have hgood : ∀ r ∈ rs ++ qs, r.good := hdecode ▸ (valid_iff s).mp hs
    have heq : qs = decode sfx :=
      decode_eq_of_chars (List.forall_mem_append.mp hgood).2 ((valid_iff sfx).mp hsfx) hqs
    refine ⟨encode rs, ?_⟩
    rw [← encode_decode s, hdecode, encode_append, heq, encode_decode]

/-! ### The runes of any byte string -/

theorem exists_decode_tail {s : Bytes} {r : Rune} {qs : List Rune} (h : decode s = r :: qs) :
    ∃ t, decode t = qs := by
  fun_induction decode s <;> cases h <;> first | exact ⟨_, rfl⟩ | exact ⟨[], rfl⟩

theorem decode_suffix {s : Bytes} {rs qs : List Rune} (h : decode s = rs ++ qs) :
    decode (encode qs) = qs := by
  induction rs generalizing s with
  | nil =>
    rw [List.nil_append] at h
    rw [← h, encode_decode]
  | cons r rs ih =>
    obtain ⟨t, ht⟩ := exists_decode_tail h
    exact ih ht

theorem good_or_high (s : Bytes) : ∀ r ∈ decode s, r.good ∨ ∃ b, r = .bad b ∧ ¬ b < 0x80 := by
  fun_induction decode s <;> simp_all [Rune.good, seq]

theorem bytes_ne_nil {s : Bytes} {r : Rune} (hr : r ∈ decode s) : r.bytes ≠ [] := by
  rcases good_or_high s r hr with hgood | ⟨b, rfl, -⟩
  · cases shape_of_good hgood <;> exact List.cons_ne_nil _ _
  · exact List.cons_ne_nil _ _

/-- An ASCII byte is in no longer sequence. -/
theorem mem_bytes_iff {s : Bytes} {r : Rune} {b : UInt8} (hb : b < 0x80) (hr : r ∈ decode s) :
    b ∈ r.bytes ↔ r = .ascii b := by
  constructor
  · intro h
    rcases good_or_high s r hr with hgood | ⟨c, rfl, hc⟩
    · cases r with
      | ascii c => rw [List.mem_singleton.mp h]
      | multi bs =>
        exfalso
        cases bs with
        | nil => cases h
        | cons a bs =>
          rw [UInt8.lt_iff_toNat_lt] at hb
          rcases List.mem_cons.mp h with rfl | h
          · have hlead := UInt8.lt_iff_toNat_lt.mp (lead_of_seq hgood)
            simp only [UInt8.reduceToNat] at hb hlead
            omega
          · have htail := (tail_iff b).mp (tail_of_seq hgood b h)
            simp only [UInt8.reduceToNat] at hb
            omega
      | bad c => cases hgood
    · rw [List.mem_singleton.mp h] at hb
      exact absurd hb hc
  · rintro rfl
    exact List.mem_singleton_self b

theorem char_eq_ascii_iff {s : Bytes} {r : Rune} {b : UInt8} (hb : b < 0x80) (hr : r ∈ decode s) :
    r.char = Char.ofNat b.toNat ↔ r = .ascii b := by
  have hgood : (Rune.ascii b).good := decide_eq_true hb
  constructor
  · intro h
    rcases good_or_high s r hr with hr | ⟨c, rfl, -⟩
    · exact char_injective hr hgood h
    · have hnat := congrArg Char.toNat h
      rw [char_bad, ← char_ascii, toNat_char hgood] at hnat
      have hlt := UInt8.lt_iff_toNat_lt.mp hb
      change 0xFFFD = b.toNat at hnat
      simp only [UInt8.reduceToNat] at hlt
      omega
  · rintro rfl
    rfl

end Utf8

end GoLib
