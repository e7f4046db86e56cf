import Konsul.Lib.Json

/-!
# A string inside a document is smaller than the document

Sizes are counted in ASCII bytes: a literal never decodes to more of them than
it is written with, and its quotes are two more. The count, unlike the length,
does not grow when bytes that are not UTF-8 are replaced.
-/

namespace GoLib.Json

open Utf8 (Rune)

/-- ASCII bytes of a byte string. -/
def asciis (s : Bytes) : ℕ := s.countP (· < 0x80)

/-- ASCII bytes of the text still to be read. -/
def left (rs : List Rune) : ℕ := asciis (Utf8.encode rs)

theorem asciis_append (s t : Bytes) : asciis (s ++ t) = asciis s + asciis t := List.countP_append

theorem left_cons (r : Rune) (rs : List Rune) : left (r :: rs) = asciis r.bytes + left rs := by
  simp only [left, Utf8.encode, List.flatMap_cons, asciis_append]

theorem left_ascii {b : UInt8} (h : b < 0x80) (rs : List Rune) :
    left (.ascii b :: rs) = left rs + 1 := by
  rw [left_cons, Nat.add_comm]
  simp only [asciis, Rune.bytes, List.countP_cons, List.countP_nil, h, decide_true, ite_true]

theorem left_le_of_suffix {rs qs : List Rune} (h : qs <:+ rs) : left qs ≤ left rs := by
  obtain ⟨ps, rfl⟩ := h
  rw [left, left, Utf8.encode_append, asciis_append]
  exact Nat.le_add_left ..

/-! ### String literals -/

def Item.weight : Item → ℕ
  | .text bs => asciis bs
  | .unit _ => 4

def weight (is : List Item) : ℕ := (is.map Item.weight).sum

@[simp] theorem weight_nil : weight [] = 0 := rfl

@[simp] theorem weight_cons (i : Item) (is : List Item) : weight (i :: is) = i.weight + weight is :=
  rfl

theorem asciis_encodeRune (n : ℕ) : asciis (encodeRune n) ≤ 4 := by
  have h : (encodeRune n).length ≤ 4 := by
    unfold encodeRune
    split_ifs <;> simp only [List.length_cons, List.length_nil] <;> omega
  exact Nat.le_trans List.countP_le_length h

theorem asciis_replacement : asciis Utf8.replacement = 0 := by decide

theorem asciis_join (is : List Item) : asciis (join is) ≤ weight is := by
  fun_induction join is with
  | case1 => exact Nat.zero_le _
  | case2 bs is ih =>
    rw [asciis_append, weight_cons, Item.weight]
    omega
  | case3 n _ m js _ ih =>
    have := asciis_encodeRune (0x10000 + (n - 0xD800) * 1024 + (m - 0xDC00))
    rw [asciis_append, weight_cons, weight_cons, Item.weight, Item.weight]
    omega
  | case4 n _ m js _ ih =>
    rw [asciis_append, asciis_replacement, weight_cons, Item.weight]
    omega
  | case5 n is _ _ ih =>
    rw [asciis_append, asciis_replacement, weight_cons, Item.weight]
    omega
  | case6 n is _ ih =>
    have := asciis_encodeRune n
    rw [asciis_append, weight_cons, Item.weight]
    omega

theorem unescape_ascii {e c : UInt8} (h : unescape e = some c) : e < 0x80 := by
  unfold unescape at h
  split_ifs at h with h1 h2 h3 h4 h5 h6
  · rcases h1 with rfl | rfl | rfl <;> decide
  all_goals subst e; decide

theorem hexVal_ascii {e : UInt8} {n : ℕ} (h : hexVal e = some n) : e < 0x80 := by
  unfold hexVal at h
  split_ifs at h with h1 h2 h3
  · exact isDigit_lt h1
  · rw [UInt8.lt_iff_toNat_lt]
    simp only [UInt8.le_iff_toNat_le, UInt8.reduceToNat] at h2 ⊢
    omega
  · rw [UInt8.lt_iff_toNat_lt]
    simp only [UInt8.le_iff_toNat_le, UInt8.reduceToNat] at h3 ⊢
    omega

theorem weight_push {rs rs' : List Rune} {i : Item} (hle : i.weight + left rs' ≤ left rs)
    (ih : ∀ is rest, scan rs' = some (is, rest) → weight is + left rest < left rs')
    {is : List Item} {rest : List Rune} (h : (scan rs').map (push i) = some (is, rest)) :
    weight is + left rest < left rs := by
  obtain ⟨⟨is', rest'⟩, h', heq⟩ := Option.map_eq_some_iff.mp h
  cases heq
  have hrest := ih _ _ h'
  simp only [weight_cons]
  omega

theorem weight_scan (rs : List Rune) : ∀ is rest, scan rs = some (is, rest) →
    weight is + left rest < left rs := by
  have hb : backslash < 0x80 := by decide
  fun_induction scan rs with
  | case2 bs rs ih =>
    exact fun is rest => weight_push (by rw [left_cons]; exact Nat.le_refl _) ih
  | case3 b rs ih =>
    refine fun is rest => weight_push ?_ ih
    rw [left_cons, Item.weight, asciis_replacement]
    omega
  | case4 rs =>
    intro is rest h
    cases h
    rw [left_ascii (by decide), weight_nil]
    omega
  | case5 h1 h2 h3 h4 rs n1 n2 n3 n4 e4 e3 e2 e1 _ ih =>
    refine fun is rest => weight_push ?_ ih
    rw [left_ascii hb, left_ascii (by decide), left_ascii (hexVal_ascii e1),
      left_ascii (hexVal_ascii e2), left_ascii (hexVal_ascii e3), left_ascii (hexVal_ascii e4)]
    simp only [Item.weight]
    omega
  | case8 e rs _ c he _ ih =>
    refine fun is rest => weight_push ?_ ih
    have hc : asciis [c] ≤ 1 := List.countP_le_length
    rw [left_ascii hb, left_ascii (unescape_ascii he), Item.weight]
    omega
  | case12 b rs _ _ _ ih =>
    exact fun is rest => weight_push (by rw [left_cons]; exact Nat.le_refl _) ih
  | _ => exact fun is rest h => nomatch h

theorem asciis_scan {rs rest : List Rune} {is : List Item} (h : scan rs = some (is, rest)) :
    asciis (join is) + left rest < left rs := by
  have h1 := weight_scan rs is rest h
  have h2 := asciis_join is
  omega

/-! ### Everything else reads a part of its text -/

theorem skipSpace_suffix (rs : List Rune) : skipSpace rs <:+ rs := by
  fun_induction skipSpace rs with
  | case1 b rest _ ih => exact ih.trans (List.suffix_cons ..)
  | case2 => exact List.suffix_rfl
  | case3 => exact List.suffix_rfl

theorem spanDigits_suffix (rs : List Rune) : (spanDigits rs).2 <:+ rs := by
  fun_induction spanDigits rs with
  | case1 b rest _ ih => exact ih.trans (List.suffix_cons ..)
  | case2 => exact List.suffix_rfl
  | case3 => exact List.suffix_rfl

theorem signPart_suffix (rs : List Rune) : (signPart rs).2 <:+ rs := by
  unfold signPart
  split
  · split_ifs
    · exact List.suffix_cons ..
    · exact List.suffix_rfl
  · exact List.suffix_rfl

theorem intPart_suffix {rs rest : List Rune} {ds : Bytes} (h : intPart rs = some (ds, rest)) :
    rest <:+ rs := by
  have hs := spanDigits_suffix rs
  unfold intPart at h
  split at h
  · cases h
  · rename_i d ds' rest' heq
    rw [heq] at hs
    split_ifs at h
    · cases h
      exact List.tail_suffix rs
    · cases h
      exact hs

theorem fracPart_suffix {rs rest : List Rune} {ds : Bytes} (h : fracPart rs = some (ds, rest)) :
    rest <:+ rs := by
  unfold fracPart at h
  split at h
  · rename_i b more
    split_ifs at h
    · have hs := spanDigits_suffix more
      split at h
      · cases h
      · rename_i heq
        cases h
        rw [heq] at hs
        exact hs.trans (List.suffix_cons ..)
    · cases h
      exact List.suffix_rfl
  · cases h
    exact List.suffix_rfl

theorem suffix_of_spanDigits {more rest : List Rune} {ds : Bytes} (e : UInt8) (sign : Bytes)
    (h : (match spanDigits more with
      | ([], _) => none
      | (ds, rest') => some (e :: (sign ++ ds), rest')) = some (ds, rest)) : rest <:+ more := by
  have hs := spanDigits_suffix more
  split at h
  · cases h
  · rename_i heq
    cases h
    rw [heq] at hs
    exact hs

theorem expPart_suffix {rs rest : List Rune} {ds : Bytes} (h : expPart rs = some (ds, rest)) :
    rest <:+ rs := by
  unfold expPart at h
  split at h
  · rename_i e more
    split_ifs at h with he
    · refine List.IsSuffix.trans ?_ (List.suffix_cons ..)
      cases more with
      | nil => exact suffix_of_spanDigits e [] h
      | cons r more =>
        cases r with
        | ascii s =>
          simp only at h
          split_ifs at h with hs
          · exact (suffix_of_spanDigits e [s] h).trans (List.suffix_cons ..)
          · exact suffix_of_spanDigits e [] h
        | multi bs => exact suffix_of_spanDigits e [] h
        | bad b => exact suffix_of_spanDigits e [] h
    · cases h
      exact List.suffix_rfl
  · cases h
    exact List.suffix_rfl

theorem number_suffix {rs rest : List Rune} {lit : Bytes} (h : number rs = some (lit, rest)) :
    rest <:+ rs := by
  simp only [number, Option.bind_eq_bind, Option.bind_eq_some_iff, Prod.exists,
    Option.some.injEq, Prod.mk.injEq] at h
  obtain ⟨ds, r2, h1, fs, r3, h2, es, r4, h3, -, rfl⟩ := h
  exact (expPart_suffix h3).trans ((fracPart_suffix h2).trans
    ((intPart_suffix h1).trans (signPart_suffix rs)))

theorem word_suffix (w : Bytes) (rs : List Rune) : ∀ rest, word w rs = some rest → rest <:+ rs := by
  fun_induction word w rs with
  | case1 rs =>
    intro rest h
    cases h
    exact List.suffix_rfl
  | case2 b bs rs ih => exact fun rest h => (ih rest h).trans (List.suffix_cons ..)
  | _ => exact fun rest h => nomatch h

/-! ### Documents -/

mutual

/-- The strings a document holds, keys aside. -/
def strings : Json → List Bytes
  | .str s => [s]
  | .arr js => stringsItems js
  | .obj ms => stringsMembers ms
  | _ => []

def stringsItems : List Json → List Bytes
  | [] => []
  | j :: js => strings j ++ stringsItems js

def stringsMembers : List (Bytes × Json) → List Bytes
  | [] => []
  | (_, j) :: ms => strings j ++ stringsMembers ms

end

/-- Reading from `rs` down to `rest` yields strings smaller than what was read. -/
def Within (ss : List Bytes) (rest rs : List Rune) : Prop :=
  left rest ≤ left rs ∧ ∀ s ∈ ss, asciis s + left rest < left rs

theorem Within.nil {rest rs : List Rune} (h : rest <:+ rs) : Within [] rest rs :=
  ⟨left_le_of_suffix h, by simp only [List.not_mem_nil, false_implies, implies_true]⟩

theorem Within.append {ss ts : List Bytes} {r3 r2 r1 : List Rune} (h : Within ss r2 r1)
    (h' : Within ts r3 r2) : Within (ss ++ ts) r3 r1 := by
  refine ⟨h'.1.trans h.1, fun s hs => ?_⟩
  rcases List.mem_append.mp hs with hs | hs
  · have h1 := h.2 s hs
    have h2 := h'.1
    omega
  · have h1 := h.1
    have h2 := h'.2 s hs
    omega

theorem Within.mono {ss : List Bytes} {r2 r1 q2 q1 : List Rune} (h : Within ss r2 r1)
    (h2 : q2 <:+ r2) (h1 : r1 <:+ q1) : Within ss q2 q1 := by
  have hl2 := left_le_of_suffix h2
  have hl1 := left_le_of_suffix h1
  refine ⟨hl2.trans (h.1.trans hl1), fun s hs => ?_⟩
  have := h.2 s hs
  omega

theorem left_le_skip {c : UInt8} {rs more : List Rune} (h : skipSpace rs = .ascii c :: more) :
    more <:+ rs := by
  have := skipSpace_suffix rs
  rw [h] at this
  exact (List.suffix_cons ..).trans this

theorem within_scan {rs rest : List Rune} {is : List Item} (h : scan rs = some (is, rest)) :
    Within [join is] rest rs := by
  have := asciis_scan h
  refine ⟨by omega, fun s hs => ?_⟩
  rw [List.mem_singleton.mp hs]
  exact this

theorem map_pair_eq_some {α β γ : Type*} {f : α → γ} {o : Option (α × β)} {c : γ} {r : β}
    (h : o.map (fun p => (f p.1, p.2)) = some (c, r)) : ∃ a, o = some (a, r) ∧ f a = c := by
  obtain ⟨⟨a, r'⟩, ho, heq⟩ := Option.map_eq_some_iff.mp h
  cases heq
  exact ⟨a, ho, rfl⟩

def WithinValue (fuel : ℕ) : Prop :=
  ∀ d rs j rest, parseValue fuel d rs = some (j, rest) → Within (strings j) rest rs

def WithinItems (fuel : ℕ) : Prop :=
  ∀ d rs js rest, parseItems fuel d rs = some (js, rest) → Within (stringsItems js) rest rs

def WithinMembers (fuel : ℕ) : Prop :=
  ∀ d rs ms rest, parseMembers fuel d rs = some (ms, rest) → Within (stringsMembers ms) rest rs

theorem WithinValue.succ {fuel : ℕ} (hitems : WithinItems fuel) (hmembers : WithinMembers fuel) :
    WithinValue (fuel + 1) := by
  intro d rs j rest h
  rw [parseValue.eq_def] at h
  simp only at h
  split at h
  · rename_i b more hskip
    have hmore := left_le_skip hskip
    have hall : .ascii b :: more <:+ rs := hskip ▸ skipSpace_suffix rs
    have hword {w : Bytes} {j' : Json}
        (h : (word w (.ascii b :: more)).map (fun r => (j', r)) = some (j, rest)) :
        rest <:+ rs ∧ j' = j := by
      obtain ⟨rest', hw, heq⟩ := Option.map_eq_some_iff.mp h
      cases heq
      exact ⟨(word_suffix _ _ _ hw).trans hall, rfl⟩
    split_ifs at h
    · split at h
      · cases h
      · split at h
        · rename_i hskip'
          split_ifs at h
          · cases h
            exact Within.nil ((left_le_skip hskip').trans hmore)
          · obtain ⟨ms, hm, rfl⟩ := map_pair_eq_some h
            rw [strings]
            exact (hmembers _ _ _ _ hm).mono List.suffix_rfl
              ((hskip' ▸ skipSpace_suffix more).trans hmore)
        · cases h
    · split at h
      · cases h
      · split at h
        · rename_i hskip'
          split_ifs at h
          · cases h
            exact Within.nil ((left_le_skip hskip').trans hmore)
          · obtain ⟨js, hi, rfl⟩ := map_pair_eq_some h
            rw [strings]
            exact (hitems _ _ _ _ hi).mono List.suffix_rfl
              ((hskip' ▸ skipSpace_suffix more).trans hmore)
        · cases h
    · obtain ⟨⟨is, rest'⟩, hs, heq⟩ := Option.map_eq_some_iff.mp h
      cases heq
      rw [strings]
      exact (within_scan hs).mono List.suffix_rfl hmore
    · obtain ⟨hsuffix, rfl⟩ := hword h
      exact Within.nil hsuffix
    · obtain ⟨hsuffix, rfl⟩ := hword h
      exact Within.nil hsuffix
    · obtain ⟨hsuffix, rfl⟩ := hword h
      exact Within.nil hsuffix
    · obtain ⟨lit, hn, rfl⟩ := map_pair_eq_some h
      exact Within.nil ((number_suffix hn).trans hall)
  · cases h

theorem WithinItems.succ {fuel : ℕ} (hvalue : WithinValue fuel) (hitems : WithinItems fuel) :
    WithinItems (fuel + 1) := by
  intro d rs js rest h
  rw [parseItems.eq_def] at h
  simp only at h
  split at h
  · cases h
  · rename_i j r1 hj
    have h1 := hvalue _ _ _ _ hj
    split at h
    · rename_i c r2 hskip
      have h2 := left_le_skip hskip
      split_ifs at h
      · obtain ⟨js', hi, rfl⟩ := map_pair_eq_some h
        rw [stringsItems]
        exact h1.append ((hitems _ _ _ _ hi).mono List.suffix_rfl h2)
      · cases h
        rw [stringsItems]
        exact h1.append (Within.nil h2)
    · cases h

theorem WithinMembers.succ {fuel : ℕ} (hvalue : WithinValue fuel) (hmembers : WithinMembers fuel) :
    WithinMembers (fuel + 1) := by
  intro d rs ms rest h
  rw [parseMembers.eq_def] at h
  simp only at h
  split at h
  · rename_i q r1 hskip
    split_ifs at h
    split at h
    · cases h
    · rename_i key r2 hkey
      split at h
      · rename_i c r3 hskip'
        split_ifs at h
        split at h
        · cases h
        · rename_i j r4 hj
          -- the key has been read before the value, and counts as read
          have h3 : Within (strings j) r4 rs := by
            have hv := hvalue _ _ _ _ hj
            have hk := (within_scan hkey).1
            have hl := left_le_of_suffix (left_le_skip hskip)
            have hl' := left_le_of_suffix (left_le_skip hskip')
            exact ⟨by have := hv.1; omega, fun s hs => by have := hv.2 s hs; omega⟩
          split at h
          · rename_i c' r5 hskip''
            have h4 := left_le_skip hskip''
            split_ifs at h
            · obtain ⟨ms', hm, rfl⟩ := map_pair_eq_some h
              rw [stringsMembers]
              exact h3.append ((hmembers _ _ _ _ hm).mono List.suffix_rfl h4)
            · cases h
              rw [stringsMembers]
              exact h3.append (Within.nil h4)
          · cases h
      · cases h
  · cases h

theorem within_parse (fuel : ℕ) : WithinValue fuel ∧ WithinItems fuel ∧ WithinMembers fuel := by
  induction fuel with
  | zero =>
    exact ⟨fun _ _ _ _ h => (by simp [parseValue] at h),
      fun _ _ _ _ h => (by simp [parseItems] at h), fun _ _ _ _ h => (by simp [parseMembers] at h)⟩
  | succ fuel ih =>
    obtain ⟨hvalue, hitems, hmembers⟩ := ih
    exact ⟨.succ hitems hmembers, .succ hvalue hitems, .succ hvalue hmembers⟩

theorem asciis_parse {s : Bytes} {j : Json} (h : parse s = some j) :
    ∀ t ∈ strings j, asciis t < asciis s := by
  intro t ht
  unfold parse at h
  simp only at h
  split at h
  · rename_i j' rest hp
    split_ifs at h
    cases h
    have := ((within_parse _).1 _ _ _ _ hp).2 t ht
    rw [left, left, Utf8.encode_decode] at this
    omega
  · cases h

end GoLib.Json
