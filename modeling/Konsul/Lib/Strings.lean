import Konsul.Lib.Utf8

/-!
# Operations on byte strings

The functions of the `strings` package the sources use, on byte strings.
-/

namespace GoLib

/-- `strings.ReplaceAll` for a nonempty `old`; the counter runs over the rest of
an occurrence already replaced. -/
def replaceFrom (old new : Bytes) : ℕ → Bytes → Bytes
  | _, [] => []
  | skip + 1, _ :: s => replaceFrom old new skip s
  | 0, b :: s =>
    if old.isPrefixOf (b :: s) then new ++ replaceFrom old new (old.length - 1) s
    else b :: replaceFrom old new 0 s

def replaceAll (s old new : Bytes) : Bytes := replaceFrom old new 0 s

/-- `strings.Contains`, read off the suffixes. -/
def contains (s sub : Bytes) : Bool := s.tails.any fun t => sub.isPrefixOf t

def hasPrefix (s t : Bytes) : Bool := t.isPrefixOf s

def hasSuffix (s t : Bytes) : Bool := t.isSuffixOf s

def trimPrefix (s t : Bytes) : Bytes := if hasPrefix s t then s.drop t.length else s

def trimSuffix (s t : Bytes) : Bytes := if hasSuffix s t then s.take (s.length - t.length) else s

theorem hasPrefix_iff (s pfx : Bytes) : hasPrefix s pfx = true ↔ ∃ rest, s = pfx ++ rest := by
  unfold hasPrefix
  rw [List.isPrefixOf_iff_prefix]
  exact ⟨fun ⟨rest, h⟩ => ⟨rest, h.symm⟩, fun ⟨rest, h⟩ => ⟨rest, h.symm⟩⟩

theorem trimPrefix_append (pfx rest : Bytes) : trimPrefix (pfx ++ rest) pfx = rest := by
  have h : hasPrefix (pfx ++ rest) pfx = true := (hasPrefix_iff _ _).mpr ⟨rest, rfl⟩
  rw [trimPrefix, if_pos h, List.drop_left]

/-- `strings.Split` at a separator of one byte. -/
def split (sep : UInt8) : Bytes → List Bytes
  | [] => [[]]
  | b :: s =>
    match split sep s with
    | [] => []
    | w :: ws => if b = sep then [] :: w :: ws else (b :: w) :: ws

theorem split_ne_nil (sep : UInt8) (s : Bytes) : split sep s ≠ [] := by
  cases s with
  | nil => simp [split]
  | cons b s =>
    rw [split]
    split
    · next h => exact absurd h (split_ne_nil sep s)
    · split_ifs <;> simp

theorem split_of_notMem {sep : UInt8} {w : Bytes} (h : sep ∉ w) : split sep w = [w] := by
  induction w with
  | nil => rfl
  | cons b w ih =>
    have hb : b ≠ sep := fun heq => h (heq ▸ List.mem_cons_self ..)
    rw [split, ih fun hmem => h (List.mem_cons_of_mem _ hmem)]
    simp only [hb, ite_false]

theorem split_append (sep : UInt8) (w s : Bytes) :
    split sep (w ++ sep :: s) = split sep w ++ split sep s := by
  induction w with
  | nil =>
    have hnil : split sep [] = [[]] := rfl
    rw [List.nil_append, hnil, split]
    cases hs : split sep s with
    | nil => exact absurd hs (split_ne_nil sep s)
    | cons v vs => simp only [ite_true, List.singleton_append]
  | cons b w ih =>
    rw [List.cons_append, split, ih, split]
    cases hw : split sep w with
    | nil => exact absurd hw (split_ne_nil sep w)
    | cons v vs =>
      simp only [List.cons_append]
      split_ifs <;> rfl

theorem notMem_of_mem_split {sep : UInt8} {s w : Bytes} (h : w ∈ split sep s) : sep ∉ w := by
  induction s generalizing w with
  | nil =>
    rw [split, List.mem_singleton] at h
    rw [h]
    exact List.not_mem_nil
  | cons b s ih =>
    rw [split] at h
    cases hs : split sep s with
    | nil => exact absurd hs (split_ne_nil sep s)
    | cons v vs =>
      rw [hs] at ih h
      simp only at h
      split_ifs at h with hb
      · rcases List.mem_cons.mp h with rfl | h
        · exact List.not_mem_nil
        · exact ih h
      · rcases List.mem_cons.mp h with rfl | h
        · intro hmem
          rcases List.mem_cons.mp hmem with heq | hmem
          · exact hb heq.symm
          · exact ih (List.mem_cons_self ..) hmem
        · exact ih (List.mem_cons_of_mem _ h)

/-- `strings.Join` with a separator of one byte. -/
def join (sep : UInt8) : List Bytes → Bytes
  | [] => []
  | [w] => w
  | w :: ws => w ++ sep :: join sep ws

theorem join_split (sep : UInt8) (s : Bytes) : join sep (split sep s) = s := by
  induction s with
  | nil => rfl
  | cons b s ih =>
    rw [split]
    cases hs : split sep s with
    | nil => exact absurd hs (split_ne_nil sep s)
    | cons v vs =>
      rw [hs] at ih
      simp only
      split_ifs with hb
      · rw [join, ih, hb]
        · rfl
        · exact List.cons_ne_nil v vs
      · cases vs with
        | nil => exact congrArg (b :: ·) ih
        | cons v' vs => exact congrArg (b :: ·) ih

theorem eq_of_split_eq_singleton {sep : UInt8} {s w : Bytes} (h : split sep s = [w]) : s = w := by
  have hjoin := join_split sep s
  rw [h] at hjoin
  exact hjoin.symm

/-- `unicode.IsSpace`. -/
def isSpaceRune (n : ℕ) : Bool :=
  (0x09 ≤ n && n ≤ 0x0D) || n == 0x20 || n == 0x85 || n == 0xA0 || n == 0x1680 ||
    (0x2000 ≤ n && n ≤ 0x200A) || n == 0x2028 || n == 0x2029 || n == 0x202F || n == 0x205F ||
    n == 0x3000

/-- `strings.TrimSpace`. -/
def trimSpace (s : Bytes) : Bytes :=
  let left := (Utf8.decode s).dropWhile fun r => isSpaceRune r.value
  Utf8.encode (left.reverse.dropWhile fun r => isSpaceRune r.value).reverse

/-- `strings.Fields`. -/
def fields (s : Bytes) : List Bytes :=
  (((Utf8.decode s).splitOnP fun r => isSpaceRune r.value).filter (· ≠ [])).map Utf8.encode

def lowerByte (b : UInt8) : UInt8 := if 0x41 ≤ b ∧ b ≤ 0x5A then b + 0x20 else b

/-- `strings.EqualFold` with a word of letters that fold with no others. -/
def equalFold (s word : Bytes) : Bool := s.map lowerByte = word.map lowerByte

end GoLib
