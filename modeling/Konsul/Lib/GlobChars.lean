import Konsul.Lib.Glob
import Konsul.Lib.Chars
import Mathlib.Data.List.Chain

/-!
# Globs of characters

A glob compares bytes. One that is written in text compares characters too: its literals
start where runes start, so a run that stands before a literal, or at the end, takes whole
runes, and of a run of any bytes the end may be moved.
-/

namespace GoLib

namespace Glob

open Utf8

def anyChar (_ : Char) : Bool := true

def elementChar (c : Char) : Bool := c ≠ '/'

def starRune : Rune := .ascii Path.star

/-- The bytes that a written rune accepts; `none` stands for any text. -/
def byteItems : Option Rune → List (Item UInt8)
  | none => [.run anyByte]
  | some r => if r = starRune then [.run inElement] else r.bytes.map .lit

/-- The characters that a written character accepts. -/
def charItem : Option Char → Item Char
  | none => .run anyChar
  | some c => if c = '*' then .run elementChar else .lit c

/-- Text without U+FFFD, where a literal follows the run of an element. -/
structure Written (us : List (Option Rune)) : Prop where
  text : ∀ r, some r ∈ us → r.good ∧ r.char ≠ Char.ofNat 0xFFFD
  apart : us.IsChain fun u v => u = some starRune → ∃ r, v = some r ∧ r ≠ starRune

theorem Written.tail {u : Option Rune} {us : List (Option Rune)} (h : Written (u :: us)) :
    Written us where
  text r hr := h.text r (List.mem_cons_of_mem u hr)
  apart := h.apart.tail

theorem mem_chars_slash_iff (key : Bytes) : '/' ∈ chars key ↔ Path.slash ∈ key := by
  have hchar : ∀ r ∈ decode key, r.char = '/' ↔ Path.slash ∈ r.bytes := by
    intro r hr
    rw [mem_bytes_iff (b := Path.slash) (by decide) hr]
    exact char_eq_ascii_iff (b := Path.slash) (by decide) hr
  constructor
  · intro h
    obtain ⟨r, hr, hslash⟩ := List.mem_map.mp h
    rw [← encode_decode key]
    exact List.mem_flatMap.mpr ⟨r, hr, (hchar r hr).mp hslash⟩
  · intro h
    rw [← encode_decode key] at h
    obtain ⟨r, hr, hslash⟩ := List.mem_flatMap.mp h
    exact List.mem_map.mpr ⟨r, hr, (hchar r hr).mpr hslash⟩

theorem forall_inElement_iff (u : Bytes) :
    (∀ b ∈ u, inElement b) ↔ ∀ c ∈ chars u, elementChar c := by
  have hleft : (∀ b ∈ u, inElement b) ↔ Path.slash ∉ u :=
    ⟨fun h hmem => of_decide_eq_true (h _ hmem) rfl,
      fun h b hb => decide_eq_true fun heq => h (heq ▸ hb)⟩
  have hright : (∀ c ∈ chars u, elementChar c) ↔ '/' ∉ chars u :=
    ⟨fun h hmem => of_decide_eq_true (h _ hmem) rfl,
      fun h c hc => decide_eq_true fun heq => h (heq ▸ hc)⟩
  rw [hleft, hright, mem_chars_slash_iff]

/-- A cut between two characters is one between two bytes. -/
theorem exists_split {key : Bytes} {a b : List Char} (h : chars key = a ++ b) :
    ∃ u v, key = u ++ v ∧ chars v = b ∧ ((∀ c ∈ a, elementChar c) → ∀ c ∈ u, inElement c) := by
  obtain ⟨rs, qs, hdecode, rfl, rfl⟩ := List.map_eq_append_iff.mp h
  refine ⟨encode rs, encode qs, ?_, ?_, fun hall c hc => ?_⟩
  · rw [← encode_append, ← hdecode, encode_decode]
  · rw [chars, decode_suffix hdecode]
  · obtain ⟨r, hr, hmem⟩ := List.mem_flatMap.mp hc
    have hdec : r ∈ decode key := hdecode ▸ List.mem_append_left qs hr
    refine decide_eq_true fun hslash => ?_
    rw [hslash, mem_bytes_iff (b := Path.slash) (by decide) hdec] at hmem
    refine of_decide_eq_true (hall r.char (List.mem_map_of_mem hr)) ?_
    exact (char_eq_ascii_iff (b := Path.slash) (by decide) hdec).mpr hmem

section

variable {us : List (Option Rune)}

def charItems (us : List (Option Rune)) : List (Item Char) :=
  us.map fun u => charItem (u.map Rune.char)

/-- What is accepted at a literal starts a rune. -/
theorem boundary_of_literal {r : Rune} {key : Bytes} (hr : r.good) (hstar : r ≠ starRune)
    (h : accepts ((some r :: us).flatMap byteItems) key) : Boundary key := by
  rw [List.flatMap_cons, byteItems, if_neg hstar, accepts_lits_iff] at h
  obtain ⟨v, rfl, -⟩ := h
  exact boundary_bytes hr v

/-- What is accepted behind the run of an element starts a rune. -/
theorem Written.boundary {key : Bytes} (h : Written (some starRune :: us))
    (haccepts : accepts (us.flatMap byteItems) key) : Boundary key := by
  cases us with
  | nil =>
    rw [(accepts_nil_iff key).mp haccepts]
    exact fun b hb => nomatch hb
  | cons u us =>
    obtain ⟨r, rfl, hr⟩ := (List.isChain_cons_cons.mp h.apart).1 rfl
    exact boundary_of_literal (h.text r (by simp)).1 hr haccepts

theorem charItems_cons_none (us : List (Option Rune)) :
    charItems (none :: us) = .run anyChar :: charItems us := rfl

theorem charItems_cons_star (us : List (Option Rune)) :
    charItems (some starRune :: us) = .run elementChar :: charItems us := rfl

theorem charItems_cons_literal {r : Rune} (hr : r.good) (hstar : r ≠ starRune)
    (us : List (Option Rune)) : charItems (some r :: us) = .lit r.char :: charItems us := by
  have hne : r.char ≠ '*' := fun h => hstar (char_injective (q := starRune) hr (by decide) h)
  rw [charItems, List.map_cons, Option.map_some, charItem, if_neg hne]
  rfl

/-- The first character of a key, where it is a character of text. -/
theorem exists_first {key : Bytes} {r : Rune} {cs : List Char} (hr : r.good)
    (hne : r.char ≠ Char.ofNat 0xFFFD) (h : chars key = r.char :: cs) :
    ∃ v, key = r.bytes ++ v ∧ chars v = cs := by
  obtain ⟨q, qs, hdecode, hchar, rfl⟩ := List.map_eq_cons_iff.mp h
  have hq : q ∈ decode key := hdecode ▸ List.mem_cons_self
  have hqr : q = r := by
    rcases good_or_high key q hq with hgood | ⟨b, rfl, -⟩
    · exact char_injective hgood hr hchar
    · exact absurd hchar.symm hne
  rw [hqr] at hdecode
  refine ⟨encode qs, ?_, ?_⟩
  · rw [← encode_decode key, hdecode]
    rfl
  · rw [chars, decode_suffix (show decode key = [r] ++ qs from hdecode)]

theorem accepts_byteItems (h : Written us) :
    (∀ key, accepts (us.flatMap byteItems) key ↔ accepts (charItems us) (chars key)) ∧
      ∀ u v, accepts (us.flatMap byteItems) v →
        ∃ a b, chars (u ++ v) = a ++ b ∧ accepts (charItems us) b := by
  induction us with
  | nil =>
    constructor
    · intro key
      rw [List.flatMap_nil, accepts_nil_iff, charItems, List.map_nil, accepts_nil_iff, chars,
        List.map_eq_nil_iff, decode_eq_nil_iff]
    · intro u v hv
      rw [(accepts_nil_iff v).mp hv]
      exact ⟨chars (u ++ []), [], (List.append_nil _).symm, rfl⟩
  | cons o us ih =>
    obtain ⟨hkey, hmoved⟩ := ih h.tail
    cases o with
    | none =>
      rw [charItems_cons_none]
      change (∀ key, accepts (.run anyByte :: us.flatMap byteItems) key ↔ _) ∧
        ∀ u v, accepts (.run anyByte :: us.flatMap byteItems) v → _
      constructor
      · intro key
        rw [accepts_run_iff, accepts_run_iff]
        constructor
        · rintro ⟨u, v, rfl, -, hv⟩
          obtain ⟨a, b, hab, hb⟩ := hmoved u v hv
          exact ⟨a, b, hab, fun _ _ => rfl, hb⟩
        · rintro ⟨a, b, hab, -, hb⟩
          obtain ⟨u, v, rfl, rfl, -⟩ := exists_split hab
          exact ⟨u, v, rfl, fun _ _ => rfl, (hkey v).mpr hb⟩
      · intro u v hv
        obtain ⟨w, v, rfl, -, hv⟩ := (accepts_run_iff _ _ _).mp hv
        obtain ⟨a, b, hab, hb⟩ := hmoved (u ++ w) v hv
        rw [List.append_assoc] at hab
        exact ⟨a, b, hab, (accepts_run_iff _ _ _).mpr ⟨[], b, rfl, fun _ _ => rfl, hb⟩⟩
    | some r =>
      by_cases hstar : r = starRune
      · subst hstar
        rw [charItems_cons_star]
        change (∀ key, accepts (.run inElement :: us.flatMap byteItems) key ↔ _) ∧
          ∀ u v, accepts (.run inElement :: us.flatMap byteItems) v → _
        constructor
        · intro key
          rw [accepts_run_iff, accepts_run_iff]
          constructor
          · rintro ⟨u, v, rfl, hu, hv⟩
            exact ⟨chars u, chars v, chars_append u (h.boundary hv), (forall_inElement_iff u).mp hu,
              (hkey v).mp hv⟩
          · rintro ⟨a, b, hab, ha, hb⟩
            obtain ⟨u, v, rfl, rfl, hu⟩ := exists_split hab
            exact ⟨u, v, rfl, hu ha, (hkey v).mpr hb⟩
        · intro u v hv
          obtain ⟨w, v, rfl, -, hv⟩ := (accepts_run_iff _ _ _).mp hv
          refine ⟨chars (u ++ w), chars v, ?_, (accepts_run_iff _ _ _).mpr
            ⟨[], chars v, rfl, fun c hc => absurd hc List.not_mem_nil, (hkey v).mp hv⟩⟩
          rw [← List.append_assoc]
          exact chars_append (u ++ w) (h.boundary hv)
      · obtain ⟨hgood, hne⟩ := h.text r List.mem_cons_self
        have hwhole : ∀ key, accepts ((some r :: us).flatMap byteItems) key ↔
            accepts (charItems (some r :: us)) (chars key) := by
          intro key
          rw [List.flatMap_cons, byteItems, if_neg hstar, accepts_lits_iff,
            charItems_cons_literal hgood hstar, accepts_lit_iff]
          constructor
          · rintro ⟨v, rfl, hv⟩
            exact ⟨chars v, chars_bytes_append hgood v, (hkey v).mp hv⟩
          · rintro ⟨cs, hcs, hv⟩
            obtain ⟨v, rfl, rfl⟩ := exists_first hgood hne hcs
            exact ⟨v, rfl, (hkey v).mpr hv⟩
        refine ⟨hwhole, fun u v hv => ?_⟩
        exact ⟨chars u, chars v, chars_append u (boundary_of_literal hgood hstar hv),
          (hwhole v).mp hv⟩

/-- A written glob accepts a key iff its characters do. -/
theorem accepts_byteItems_iff (h : Written us) (key : Bytes) :
    accepts (us.flatMap byteItems) key ↔ accepts (charItems us) (chars key) :=
  (accepts_byteItems h).1 key

end

/-! ### Written globs -/

theorem path_star {t : Bytes} (h : t.head? ≠ some Path.star) :
    path (Path.star :: t) = .run inElement :: path t := by
  cases t with
  | nil => rfl
  | cons b t =>
    have hb : b ≠ Path.star := fun heq => h (congrArg some heq)
    rw [path, if_pos rfl, if_neg hb]

theorem path_lits {w : Bytes} (h : Path.star ∉ w) (t : Bytes) :
    path (w ++ t) = w.map .lit ++ path t := by
  induction w with
  | nil => rfl
  | cons b w ih =>
    rw [List.mem_cons, not_or] at h
    have hb : ¬ b = Path.star := fun heq => h.1 heq.symm
    rw [List.cons_append, List.map_cons, List.cons_append, ← ih h.2]
    cases w ++ t with
    | nil => simp [path, hb]
    | cons c u => rw [path, if_neg hb]

theorem star_mem_bytes_iff {r : Rune} {s : Bytes} (hr : r ∈ decode s) :
    Path.star ∈ r.bytes ↔ r = starRune :=
  mem_bytes_iff (b := Path.star) (by decide) hr

/-- The glob of a path, rune by rune. -/
theorem path_eq {p : Bytes} {rs : List Rune} (hp : ∀ r ∈ rs, r ∈ decode p) :
    path (encode rs) = (cut [starRune, starRune] 0 rs).flatMap byteItems := by
  have hstars : [starRune, starRune] ≠ [] := List.cons_ne_nil _ _
  induction rs using cut_induction hstars with
  | nil => rfl
  | occurrence rs ih =>
    rw [List.forall_mem_append] at hp
    rw [encode_append, cut_occurrence (List.cons_ne_nil _ _), List.flatMap_cons, ← ih hp.2]
    rfl
  | letter r rs hpre ih =>
    rw [List.forall_mem_cons] at hp
    rw [cut_letter hpre, List.flatMap_cons, ← ih hp.2, encode, List.flatMap_cons, ← encode,
      byteItems]
    split_ifs with hr
    · subst hr
      refine path_star fun hhead => hpre ?_
      cases rs with
      | nil => cases hhead
      | cons q rs =>
        rw [List.forall_mem_cons] at hp
        obtain ⟨b, w, hw⟩ := List.exists_cons_of_ne_nil (bytes_ne_nil hp.2.1)
        have hmem : Path.star ∈ q.bytes := by
          rw [encode, List.flatMap_cons, hw] at hhead
          cases Option.some.inj hhead
          exact hw ▸ List.mem_cons_self
        rw [(star_mem_bytes_iff hp.2.1).mp hmem]
        exact ⟨rs, rfl⟩
    · exact path_lits (fun hmem => hr ((star_mem_bytes_iff hp.1).mp hmem)) _

/-- What a pattern of service names is written as. -/
def nameSymbol (r : Rune) : Option Rune := if r = starRune then none else some r

theorem name_append (p q : Bytes) : name (p ++ q) = name p ++ name q := List.map_append

/-- The glob of a name, rune by rune. -/
theorem name_eq {p : Bytes} {rs : List Rune} (hp : ∀ r ∈ rs, r ∈ decode p) :
    name (encode rs) = (rs.map nameSymbol).flatMap byteItems := by
  induction rs with
  | nil => rfl
  | cons r rs ih =>
    rw [List.forall_mem_cons] at hp
    rw [encode, List.flatMap_cons, ← encode, name_append, ih hp.2, List.map_cons,
      List.flatMap_cons, nameSymbol]
    split_ifs with hr
    · rw [hr]
      rfl
    · rw [byteItems, if_neg hr]
      refine congrArg (· ++ _) (List.map_congr_left fun b hb => if_neg fun heq => hr ?_)
      exact (star_mem_bytes_iff hp.1).mp (heq ▸ hb)

section

variable {p : Bytes}

/-- The runes of a pattern that stands for characters. -/
def Literal (p : Bytes) : Prop := valid p ∧ Char.ofNat 0xFFFD ∉ chars p

theorem Literal.rune (h : Literal p) {r : Rune} (hr : r ∈ decode p) :
    r.good ∧ r.char ≠ Char.ofNat 0xFFFD :=
  ⟨(valid_iff p).mp h.1 r hr, fun heq => h.2 (heq ▸ List.mem_map_of_mem hr)⟩

theorem written_path (h : Literal p) : Written (cut [starRune, starRune] 0 (decode p)) where
  text r hr := h.rune (mem_of_mem_cut (List.cons_ne_nil _ _) hr)
  apart := by
    have hstars : [starRune, starRune] ≠ [] := List.cons_ne_nil _ _
    induction decode p using cut_induction hstars with
    | nil => exact List.IsChain.nil
    | occurrence rs ih =>
      rw [cut_occurrence (List.cons_ne_nil _ _)]
      refine List.isChain_cons.mpr ⟨fun v _ hcontra => ?_, ih⟩
      cases hcontra
    | letter r rs hpre ih =>
      rw [cut_letter hpre]
      refine List.isChain_cons.mpr ⟨fun v hv hr => ?_, ih⟩
      cases hr
      cases rs with
      | nil => cases hv
      | cons q rs =>
        have hq : q ≠ starRune := fun heq => hpre (heq ▸ ⟨rs, rfl⟩)
        rw [cut_letter (not_prefix_of_ne (List.cons_ne_nil _ _)
          fun hhead => hq (Option.some.inj hhead).symm)] at hv
        cases hv
        exact ⟨q, rfl, hq⟩

theorem written_name (h : Literal p) : Written ((decode p).map nameSymbol) where
  text r hr := by
    obtain ⟨q, hq, hqr⟩ := List.mem_map.mp hr
    rw [nameSymbol] at hqr
    split_ifs at hqr
    cases hqr
    exact h.rune hq
  apart := by
    induction decode p with
    | nil => exact List.IsChain.nil
    | cons r rs ih =>
      refine List.isChain_cons.mpr ⟨fun v _ hr => ?_, ih⟩
      rw [nameSymbol] at hr
      split_ifs at hr with hstar
      exact absurd (Option.some.inj hr) hstar

/-- What the glob of a path accepts, character by character. -/
theorem accepts_path_iff (h : Literal p) (key : Bytes) :
    accepts (path p) key ↔ accepts ((cut ['*', '*'] 0 (chars p)).map charItem) (chars key) := by
  have hpath : path (encode (decode p)) = _ := path_eq fun r hr => hr
  have hcut : cut ['*', '*'] 0 (chars p) =
      (cut [starRune, starRune] 0 (decode p)).map (Option.map Rune.char) :=
    cut_map good_injective (show [starRune, starRune] ≠ [] from List.cons_ne_nil _ _) (by decide)
      ((valid_iff p).mp h.1)
  rw [encode_decode] at hpath
  rw [hpath, accepts_byteItems_iff (written_path h), charItems, hcut, List.map_map]
  rfl

/-- What the glob of a name accepts, character by character. -/
theorem accepts_name_iff (h : Literal p) (key : Bytes) :
    accepts (name p) key ↔
      accepts ((chars p).map fun c => charItem (if c = '*' then none else some c)) (chars key) := by
  have hname : name (encode (decode p)) = _ := name_eq fun r hr => hr
  have hsymbol : ∀ r ∈ decode p, charItem ((nameSymbol r).map Rune.char) =
      charItem (if r.char = '*' then none else some r.char) := by
    intro r hr
    have hiff := char_eq_ascii_iff (b := Path.star) (by decide) hr
    change r.char = '*' ↔ r = starRune at hiff
    rw [nameSymbol]
    by_cases hstar : r = starRune
    · rw [if_pos hstar, if_pos (hiff.mpr hstar)]
      rfl
    · rw [if_neg hstar, if_neg fun hc => hstar (hiff.mp hc)]
      rfl
  have hitems : (chars p).map (fun c => charItem (if c = '*' then none else some c)) =
      charItems ((decode p).map nameSymbol) := by
    rw [chars, charItems, List.map_map, List.map_map]
    exact (List.map_congr_left hsymbol).symm
  rw [encode_decode] at hname
  rw [hname, accepts_byteItems_iff (written_name h), hitems]

end

end Glob

end GoLib
