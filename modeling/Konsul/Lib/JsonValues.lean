import Konsul.Lib.Base64
import Konsul.Lib.JsonMap
import Konsul.Lib.JsonRecord
import Konsul.Lib.Rfc3339

/-!
# Codecs of booleans, numbers, bytes, maps and instants

An `int` of the source is an integer here; a literal past 64 bits is an error,
as it is for `strconv.ParseInt`. A map is written in the order of its keys.
-/

namespace GoLib

namespace Json

namespace Codec

variable {α : Type}

/-- A pointer, which is nil where the text has null. -/
def pointer (c : Codec α) : Codec (Option α) where
  zero := none
  write a := (a.map c.write).getD .null
  read
    | _, .null => some none
    | old, j => (c.read (old.getD c.zero) j).map some

/-! ### Booleans and numbers -/

def bool : Codec Bool where
  zero := false
  write := .bool
  read
    | _, .bool b => some b
    | old, .null => some old
    | _, _ => none

theorem bool_lawful : bool.Lawful id 0 :=
  ⟨fun _ => trivial, fun _ => le_rfl, fun _ => rfl⟩

def uint64 : Codec UInt64 := ⟨0, Json.uint64, intoUint64⟩

theorem uint64_lawful : uint64.Lawful id 0 :=
  ⟨fun n => ⟨n.toNat, Or.inl rfl⟩, fun _ => le_rfl, fun n => intoUint64_uint64 0 n⟩

/-- `strconv.ParseInt(s, 10, 64)` of a literal of JSON. -/
def parseInt : Bytes → Option ℤ
  | [] => none
  | b :: s =>
    if b = minus then
      if s ≠ [] ∧ s.all isDigit ∧ decimalValue s ≤ 2 ^ 63 then some (-(decimalValue s : ℤ)) else none
    else if (b :: s).all isDigit ∧ decimalValue (b :: s) < 2 ^ 63 then
      some (decimalValue (b :: s) : ℤ)
    else none

def intText : ℤ → Bytes
  | .ofNat n => decimal n
  | .negSucc n => minus :: decimal (n + 1)

def int : Codec ℤ where
  zero := 0
  write n := .num (intText n)
  read
    | _, .num lit => parseInt lit
    | old, .null => some old
    | _, _ => none

/-- The values of the type `int`. -/
def IsInt (n : ℤ) : Prop := -2 ^ 63 ≤ n ∧ n < 2 ^ 63

theorem parseInt_intText {n : ℤ} (h : IsInt n) : parseInt (intText n) = some n := by
  obtain ⟨hlow, hhigh⟩ := h
  cases n with
  | ofNat n =>
    rw [intText]
    have hdigits : (decimal n).all isDigit := List.all_eq_true.mpr isDigit_of_mem_decimal
    have hvalue := decimalValue_decimal n
    cases hd : decimal n with
    | nil => exact absurd hd (decimal_ne_nil n)
    | cons b s =>
      rw [hd] at hdigits hvalue
      have hminus : b ≠ minus := by
        rintro rfl
        rw [List.all_cons, Bool.and_eq_true] at hdigits
        exact absurd hdigits.1 (by decide)
      have hlt : n < 2 ^ 63 := by
        have h := Int.ofNat_eq_natCast n
        omega
      rw [parseInt, if_neg hminus, hvalue, if_pos ⟨hdigits, hlt⟩]
      rfl
  | negSucc n =>
    have hle : n + 1 ≤ 2 ^ 63 := by
      have h := Int.negSucc_eq n
      omega
    have hdigits : (decimal (n + 1)).all isDigit := List.all_eq_true.mpr isDigit_of_mem_decimal
    rw [intText, parseInt, if_pos rfl, decimalValue_decimal,
      if_pos ⟨decimal_ne_nil _, hdigits, hle⟩]
    rfl

theorem int_bounded : int.Bounded 0 := by
  refine fun n => ⟨?_, le_rfl⟩
  cases n with
  | ofNat n => exact ⟨n, Or.inl rfl⟩
  | negSucc n => exact ⟨n + 1, Or.inr rfl⟩

theorem int_readsBack {n : ℤ} (h : IsInt n) : int.ReadsBack n n := parseInt_intText h

def uint8 : Codec UInt8 where
  zero := 0
  write n := .num (decimal n.toNat)
  read
    | old, .null => some old
    | _, j => (intoUint64 0 j).bind fun n =>
      if n.toNat < 256 then some (UInt8.ofNat n.toNat) else none

theorem uint8_lawful : uint8.Lawful id 0 where
  wf n := ⟨n.toNat, Or.inl rfl⟩
  depth_le _ := le_rfl
  read_write n := by
    have hlt := n.toNat_lt
    have hnat : (UInt64.ofNat n.toNat).toNat = n.toNat :=
      UInt64.toNat_ofNat_of_lt' (Nat.lt_trans hlt (by decide))
    have hread : intoUint64 0 (.num (decimal n.toNat)) = some (UInt64.ofNat n.toNat) := by
      have hinto := intoUint64_uint64 0 (UInt64.ofNat n.toNat)
      rw [Json.uint64, hnat] at hinto
      exact hinto
    change (intoUint64 0 (.num (decimal n.toNat))).bind _ = some n
    rw [hread, Option.bind_some, hnat, if_pos (by omega), UInt8.ofNat_toNat]

/-! ### Bytes -/

/-- A `[]byte`: text in base64, or an array of numbers. -/
def bytes : Codec Bytes where
  zero := []
  write s := .str (Base64.encode s)
  read
    | _, .str s => Base64.decode s
    | _, .arr js => js.mapM (uint8.read 0)
    | _, .null => some []
    | _, _ => none

theorem bytes_lawful : bytes.Lawful id 0 where
  wf _ := trivial
  depth_le _ := le_rfl
  read_write s := by
    have htext : Utf8.toValid (Base64.encode s) = Base64.encode s :=
      Utf8.toValid_of_valid (Utf8.valid_of_ascii fun b hb =>
        (Base64.isLetter_of_mem_encode s b hb).spec.2)
    change Base64.decode (Utf8.toValid (Base64.encode s)) = some s
    rw [htext, Base64.decode_encode]

/-! ### Maps -/

def map (c : Codec α) : Codec (GoMap Bytes α) where
  zero := ∅
  write m := .obj ((GoMap.sorted m).list.map fun e => (e.1, c.write e.2))
  read
    | old, .obj ms => ms.foldlM (fun m p => (c.read c.zero p.2).map (m.insert p.1)) old
    | _, .null => some ∅
    | _, _ => none

theorem members_map_bounded {c : Codec α} {depth : ℕ} (h : c.Bounded depth)
    (l : List (Σ _ : Bytes, α)) :
    WFMembers (l.map fun e => (e.1, c.write e.2)) ∧
      depthMembers (l.map fun e => (e.1, c.write e.2)) ≤ depth := by
  induction l with
  | nil => exact ⟨trivial, Nat.zero_le _⟩
  | cons e l ih => exact ⟨⟨(h e.2).1, ih.1⟩, max_le (h e.2).2 ih.2⟩

theorem foldlM_map {c : Codec α} {norm : α → α} {depth : ℕ} (h : c.Lawful norm depth)
    (l : List (Σ _ : Bytes, α)) (acc : GoMap Bytes α) :
    (cleanMembers (l.map fun e => (e.1, c.write e.2))).foldlM
        (fun m p => (c.read c.zero p.2).map (m.insert p.1)) acc =
      some (l.foldl (fun m e => m.insert (jsonString e.1) (norm e.2)) acc) := by
  induction l generalizing acc with
  | nil => rfl
  | cons e l ih =>
    rw [List.map_cons, cleanMembers, List.foldlM_cons, h.read_write]
    exact ih _

theorem map_lawful {c : Codec α} {norm : α → α} {depth : ℕ} (h : c.Lawful norm depth) :
    (map c).Lawful (jsonMap norm) (depth + 1) where
  wf _ := (members_map_bounded h.bounded _).1
  depth_le _ := Nat.succ_le_succ (members_map_bounded h.bounded _).2
  read_write _ := foldlM_map h _ ∅

/-- `omitempty` of a map. -/
def isEmptyMap (m : GoMap Bytes α) : Bool := m.keys.card = 0

theorem jsonMap_of_isEmptyMap {norm : α → α} {m : GoMap Bytes α} (h : isEmptyMap m) :
    jsonMap norm m = ∅ := by
  have hlength := (GoMap.sorted m).length_list
  have hcard : m.keys.card = 0 := by simpa [isEmptyMap] using h
  rw [hcard, List.length_eq_zero_iff] at hlength
  rw [jsonMap, hlength]
  rfl

/-! ### Instants -/

/-- An instant in a time zone; `json.Marshal` refuses one that has no text. -/
def time (z : Rfc3339.Zone) : Codec ℤ where
  -- 0001-01-01T00:00:00Z
  zero := -62135596800000000000
  write t := .str ((Rfc3339.format z t).getD [])
  read
    | _, .str s => Rfc3339.parse s
    | old, .null => some old
    | _, _ => none

theorem time_bounded (z : Rfc3339.Zone) : (time z).Bounded 0 := fun _ => ⟨trivial, le_rfl⟩

theorem time_readsBack {z : Rfc3339.Zone} {t : ℤ} (h : (Rfc3339.format z t).isSome) :
    (time z).ReadsBack t t := by
  obtain ⟨s, hs⟩ := Option.isSome_iff_exists.mp h
  have hclean : Utf8.toValid s = s :=
    Utf8.toValid_of_valid (Utf8.valid_of_ascii (Rfc3339.ascii_of_format hs))
  have htext : (time z).write t = .str s := by
    rw [← Option.getD_some (a := s) (b := []), ← hs]
    rfl
  have hwrite : ((time z).write t).clean = .str s := by
    rw [htext, clean, hclean]
  rw [ReadsBack, hwrite]
  exact Rfc3339.parse_format hs

end Codec

end Json

end GoLib
