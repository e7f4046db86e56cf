import Mathlib.Data.List.Basic
import Mathlib.Data.UInt
import Mathlib.Tactic.Linarith

/-!
# UTF-8 as a decoder of runes

A Go string is a byte string, valid UTF-8 or not. `decode` splits it the way
`utf8.DecodeRune` does: one well-formed sequence at a time, and one byte at a
time where no sequence starts. `toValid` replaces every such byte by U+FFFD,
which is what an encoder that only writes Unicode text does to a byte string.
-/

namespace GoLib

abbrev Bytes := List UInt8

instance : LawfulBEq Bytes := inferInstance

namespace Utf8

/-- One step of the decoder: an ASCII byte, a longer sequence, or a byte
outside any sequence. -/
inductive Rune where
  | ascii (b : UInt8)
  | multi (bs : Bytes)
  | bad (b : UInt8)
  deriving DecidableEq, Repr

/-- A continuation byte. -/
def tail (b : UInt8) : Bool := 0x80 ≤ b && b ≤ 0xBF

def two (a b : UInt8) : Bool := 0xC2 ≤ a && a ≤ 0xDF && tail b

/-- The second byte of a three-byte sequence is narrowed after E0 (overlong
forms) and after ED (surrogates). -/
def three (a b c : UInt8) : Bool :=
  0xE0 ≤ a && a ≤ 0xEF && tail b && tail c && (a != 0xE0 || 0xA0 ≤ b) && (a != 0xED || b ≤ 0x9F)

/-- The second byte of a four-byte sequence is narrowed after F0 and F4. -/
def four (a b c d : UInt8) : Bool :=
  0xF0 ≤ a && a ≤ 0xF4 && tail b && tail c && tail d &&
    (a != 0xF0 || 0x90 ≤ b) && (a != 0xF4 || b ≤ 0x8F)

/-- The well-formed sequences of more than one byte. -/
def seq : Bytes → Bool
  | [a, b] => two a b
  | [a, b, c] => three a b c
  | [a, b, c, d] => four a b c d
  | _ => false

/-- U+FFFD, the replacement character. -/
def replacement : Bytes := [0xEF, 0xBF, 0xBD]

namespace Rune

def bytes : Rune → Bytes
  | ascii b => [b]
  | multi bs => bs
  | bad b => [b]

def fixed : Rune → Rune
  | ascii b => ascii b
  | multi bs => multi bs
  | bad _ => multi replacement

/-- The runes that stand for text. -/
def good : Rune → Bool
  | ascii b => b < 0x80
  | multi bs => seq bs
  | bad _ => false

end Rune

def decode : Bytes → List Rune
  | [] => []
  | a :: s1 =>
    if a < 0x80 then .ascii a :: decode s1
    else match s1 with
      | [] => [.bad a]
      | b :: s2 =>
        if two a b then .multi [a, b] :: decode s2
        else match s2 with
          | [] => .bad a :: decode [b]
          | c :: s3 =>
            if three a b c then .multi [a, b, c] :: decode s3
            else match s3 with
              | [] => .bad a :: decode [b, c]
              | d :: s4 =>
                if four a b c d then .multi [a, b, c, d] :: decode s4
                else .bad a :: decode (b :: c :: d :: s4)

def encode (rs : List Rune) : Bytes := rs.flatMap Rune.bytes

/-- The code point; a byte outside any sequence reads as U+FFFD. -/
def Rune.value : Rune → ℕ
  | ascii b => b.toNat
  | multi [a, b] => (a.toNat % 32) * 64 + b.toNat % 64
  | multi [a, b, c] => (a.toNat % 16) * 4096 + (b.toNat % 64) * 64 + c.toNat % 64
  | multi [a, b, c, d] =>
    (a.toNat % 8) * 262144 + (b.toNat % 64) * 4096 + (c.toNat % 64) * 64 + d.toNat % 64
  | _ => 0xFFFD

/-- `utf8.DecodeRuneInString`: the first rune and its width, and U+FFFD of width
zero for the empty string. -/
def decodeRune (s : Bytes) : ℕ × ℕ :=
  match decode s with
  | [] => (0xFFFD, 0)
  | r :: _ => (r.value, r.bytes.length)

def toValid (s : Bytes) : Bytes := encode ((decode s).map Rune.fixed)

/-- `utf8.ValidString`. -/
def valid (s : Bytes) : Bool := (decode s).all Rune.good

/-! ### Lead bytes tell the sequence lengths apart -/

theorem two_lead {a b : UInt8} (h : two a b) : ¬ a < 0x80 := by
  simp only [two, Bool.and_eq_true, decide_eq_true_eq, UInt8.le_iff_toNat_le] at h
  rw [UInt8.lt_iff_toNat_lt]
  simp only [UInt8.reduceToNat] at h ⊢
  omega

theorem three_lead {a b c : UInt8} (h : three a b c) : ¬ a < 0x80 ∧ ∀ x, two a x = false := by
  simp only [three, Bool.and_eq_true, decide_eq_true_eq, UInt8.le_iff_toNat_le] at h
  constructor
  · rw [UInt8.lt_iff_toNat_lt]
    simp only [UInt8.reduceToNat] at h ⊢
    omega
  · intro x
    have : ¬ a ≤ 0xDF := by
      rw [UInt8.le_iff_toNat_le]
      simp only [UInt8.reduceToNat] at h ⊢
      omega
    simp only [two, this, decide_false, Bool.and_false, Bool.false_and]

theorem four_lead {a b c d : UInt8} (h : four a b c d) :
    ¬ a < 0x80 ∧ (∀ x, two a x = false) ∧ ∀ x y, three a x y = false := by
  simp only [four, Bool.and_eq_true, decide_eq_true_eq, UInt8.le_iff_toNat_le] at h
  have h1 : ¬ a ≤ 0xDF := by
    rw [UInt8.le_iff_toNat_le]
    simp only [UInt8.reduceToNat] at h ⊢
    omega
  have h2 : ¬ a ≤ 0xEF := by
    rw [UInt8.le_iff_toNat_le]
    simp only [UInt8.reduceToNat] at h ⊢
    omega
  refine ⟨?_, fun x => ?_, fun x y => ?_⟩
  · rw [UInt8.lt_iff_toNat_lt]
    simp only [UInt8.reduceToNat] at h ⊢
    omega
  · simp only [two, h1, decide_false, Bool.and_false, Bool.false_and]
  · simp only [three, h2, decide_false, Bool.and_false, Bool.false_and]

/-! ### Decoding what was encoded -/

theorem decode_ascii {b : UInt8} (h : b < 0x80) (s : Bytes) :
    decode (b :: s) = .ascii b :: decode s := by
  rw [decode.eq_def]
  simp only [h, ite_true]

theorem decode_seq {bs : Bytes} (h : seq bs) (s : Bytes) :
    decode (bs ++ s) = .multi bs :: decode s := by
  match bs, h with
  | [a, b], h =>
    have h1 := two_lead h
    change decode (a :: b :: s) = _
    rw [decode.eq_def]
    simp only [h1, ite_false]
    rw [show two a b = true from h]
    rfl
  | [a, b, c], h =>
    obtain ⟨h1, h2⟩ := three_lead h
    change decode (a :: b :: c :: s) = _
    rw [decode.eq_def]
    simp only [h1, ite_false, h2, Bool.false_eq_true]
    rw [show three a b c = true from h]
    rfl
  | [a, b, c, d], h =>
    obtain ⟨h1, h2, h3⟩ := four_lead h
    change decode (a :: b :: c :: d :: s) = _
    rw [decode.eq_def]
    simp only [h1, ite_false, h2, h3, Bool.false_eq_true]
    rw [show four a b c d = true from h]
    rfl

theorem decode_bytes_append {r : Rune} (h : r.good) (s : Bytes) :
    decode (r.bytes ++ s) = r :: decode s := by
  cases r with
  | ascii b => exact decode_ascii (of_decide_eq_true h) s
  | multi bs => exact decode_seq h s
  | bad b => cases h

/-- Good runes survive encoding and decoding. -/
theorem decode_encode {rs : List Rune} (h : ∀ r ∈ rs, r.good) (s : Bytes) :
    decode (encode rs ++ s) = rs ++ decode s := by
  induction rs with
  | nil => rfl
  | cons r rs ih =>
    have hr := h r (List.mem_cons_self ..)
    have hrs := ih fun q hq => h q (List.mem_cons_of_mem _ hq)
    simp only [encode, List.flatMap_cons, List.append_assoc, List.cons_append] at hrs ⊢
    rw [decode_bytes_append hr, hrs]

theorem decode_encode' {rs : List Rune} (h : ∀ r ∈ rs, r.good) : decode (encode rs) = rs := by
  have := decode_encode h []
  simpa [decode] using this

theorem encode_append (rs qs : List Rune) : encode (rs ++ qs) = encode rs ++ encode qs :=
  List.flatMap_append

/-! ### What decoding yields -/

theorem encode_decode (s : Bytes) : encode (decode s) = s := by
  fun_induction decode s <;> simp_all [encode, Rune.bytes]

theorem good_or_bad_of_mem_decode (s : Bytes) : ∀ r ∈ decode s, r.good ∨ ∃ b, r = .bad b := by
  fun_induction decode s <;> simp_all [Rune.good, seq]

theorem fixed_good {r : Rune} (h : r.good ∨ ∃ b, r = .bad b) : r.fixed.good := by
  rcases h with h | ⟨b, rfl⟩
  · cases r with
    | ascii b => exact h
    | multi bs => exact h
    | bad b => cases h
  · rfl

theorem fixed_of_good {r : Rune} (h : r.good) : r.fixed = r := by
  cases r with
  | ascii b => rfl
  | multi bs => rfl
  | bad b => cases h

theorem good_of_mem_map_fixed (s : Bytes) : ∀ r ∈ (decode s).map Rune.fixed, r.good := by
  intro r hr
  obtain ⟨q, hq, rfl⟩ := List.mem_map.mp hr
  exact fixed_good (good_or_bad_of_mem_decode s q hq)

theorem decode_toValid (s : Bytes) : decode (toValid s) = (decode s).map Rune.fixed :=
  decode_encode' (good_of_mem_map_fixed s)

theorem valid_toValid (s : Bytes) : valid (toValid s) := by
  rw [valid, decode_toValid, List.all_eq_true]
  exact good_of_mem_map_fixed s

theorem valid_iff (s : Bytes) : valid s ↔ ∀ r ∈ decode s, r.good := List.all_eq_true

/-- Text survives, and only text does. -/
theorem toValid_eq_iff (s : Bytes) : toValid s = s ↔ valid s := by
  constructor
  · intro h
    rw [← h]
    exact valid_toValid s
  · intro h
    have hmap : (decode s).map Rune.fixed = decode s := by
      have : ∀ r ∈ decode s, r.fixed = id r := fun r hr => fixed_of_good ((valid_iff s).mp h r hr)
      rw [List.map_congr_left this, List.map_id]
    rw [toValid, hmap, encode_decode]

theorem toValid_of_valid {s : Bytes} (h : valid s) : toValid s = s := (toValid_eq_iff s).mpr h

theorem valid_of_ascii {s : Bytes} (h : ∀ b ∈ s, b < 0x80) : valid s := by
  induction s with
  | nil => decide
  | cons b s ih =>
    have hb : b < 0x80 := h b (List.mem_cons_self ..)
    have hs := ih fun c hc => h c (List.mem_cons_of_mem b hc)
    rw [valid, decode_ascii hb, List.all_cons, Bool.and_eq_true]
    exact ⟨decide_eq_true hb, hs⟩

end Utf8

end GoLib
