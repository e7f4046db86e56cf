import Konsul.Acl.Types
import Konsul.Lib.Chars
import Konsul.Lib.Regexp
import Mathlib.Data.Bool.AllAny

/-!
# The expression of a pattern

`Compile` rewrites a pattern by a dozen replacements, one after the other. On characters
they are one map: the special characters get a backslash, and stars become repetitions.
The two stars of a KV pattern pass through the marker `§DOUBLESTAR§` on their way, so a
pattern that holds the marker itself is rewritten too.
-/

namespace Konsul

open GoLib Utf8

/-- The engine of the standard library. The tables of Unicode and the limits on the size
of an expression are parameters. -/
def Regexp.go (category : Char → Char → Bool) (fits : GoString → Bool) : Regexp where
  compiles expr := valid expr && (Syntax.compile category (chars expr)).isSome && fits expr
  matchString expr text :=
    match Syntax.compile category (chars expr) with
    | some re => re.found (chars text)
    | none => false

/-! ### The replacements on characters -/

def specials : List Char := ['.', '+', '?', '[', ']', '(', ')', '{', '}']

def escaped (c : Char) : List Char := if c ∈ specials then ['\\', c] else [c]

def marker : List Char := "§DOUBLESTAR§".toList

/-- What a KV pattern is read as: `none` is a text of any kind. -/
def kvSymbols (pattern : List Char) : List (Option Char) :=
  cut marker 0 (substitute pattern ['*', '*'] marker)

def kvChar (c : Char) : List Char := if c = '*' then ['[', '^', '/', ']', '*'] else escaped c

def kvText (o : Option Char) : List Char := o.elim ['.', '*'] kvChar

def serviceText (c : Char) : List Char := if c = '*' then ['.', '*'] else escaped c

def anchored (expr : List Char) : List Char :=
  let expr := if ['^'] <+: expr then expr else '^' :: expr
  if ['$'] <:+ expr then expr else expr ++ ['$']

/-- Two texts, the first to be replaced by the second. -/
structure Rewrites (old new : GoString) : Prop where
  old_ne : old ≠ []
  old_valid : valid old = true
  new_ne : new ≠ []
  new_valid : valid new = true

instance (old new : GoString) : Decidable (Rewrites old new) :=
  decidable_of_iff (old ≠ [] ∧ valid old = true ∧ new ≠ [] ∧ valid new = true)
    ⟨fun ⟨a, b, c, d⟩ => ⟨a, b, c, d⟩, fun ⟨a, b, c, d⟩ => ⟨a, b, c, d⟩⟩

section

variable {old new s : GoString}

theorem Rewrites.valid_iff (h : Rewrites old new) (s : GoString) :
    valid (replaceAll s old new) ↔ valid s :=
  valid_replaceAll h.old_ne h.old_valid h.new_ne h.new_valid s

theorem Rewrites.chars (h : Rewrites old new) (hs : valid s) :
    chars (replaceAll s old new) = substitute (chars s) (chars old) (chars new) :=
  chars_replaceAll h.old_ne h.old_valid h.new_ne h.new_valid hs

end

/-! ### Special characters -/

theorem foldl_substitute {cs S : List Char} (hnodup : S.Nodup) (hback : '\\' ∉ S) :
    S.foldl (fun t c => substitute t [c] ['\\', c]) cs =
      cs.flatMap fun a => if a ∈ S then ['\\', a] else [a] := by
  induction S generalizing cs with
  | nil => simp
  | cons c S ih =>
    rw [List.nodup_cons] at hnodup
    rw [List.mem_cons, not_or] at hback
    rw [List.foldl_cons, ih hnodup.2 hback.2, substitute_singleton, List.flatMap_assoc]
    refine List.flatMap_congr fun a _ => ?_
    by_cases ha : a = c
    · simp [ha, hnodup.1, hback.2]
    · simp [ha]

theorem rewrites_special :
    ∀ c ∈ [".", "+", "?", "[", "]", "(", ")", "\x7b", "\x7d"], Rewrites (str c) (str "\\" ++ str c) := by
  decide

theorem valid_escapeSpecial_iff (s : GoString) : valid (escapeSpecial s) ↔ valid s := by
  have hfold : ∀ (texts : List String) (s : GoString),
      (∀ c ∈ texts, Rewrites (str c) (str "\\" ++ str c)) →
      (valid (texts.foldl (fun s c => replaceAll s (str c) (str "\\" ++ str c)) s) ↔ valid s) := by
    intro texts
    induction texts with
    | nil => exact fun s _ => Iff.rfl
    | cons c texts ih =>
      intro s htexts
      rw [List.forall_mem_cons] at htexts
      rw [List.foldl_cons, ih _ htexts.2, htexts.1.valid_iff]
  exact hfold _ s rewrites_special

theorem chars_escapeSpecial {s : GoString} (hs : valid s) :
    chars (escapeSpecial s) = (chars s).flatMap escaped := by
  have hfold : ∀ (texts : List String) (s : GoString),
      (∀ c ∈ texts, Rewrites (str c) (str "\\" ++ str c)) → valid s →
      chars (texts.foldl (fun s c => replaceAll s (str c) (str "\\" ++ str c)) s) =
        texts.foldl (fun t c => substitute t (chars (str c)) (chars (str "\\" ++ str c)))
          (chars s) := by
    intro texts
    induction texts with
    | nil => exact fun s _ hs => rfl
    | cons c texts ih =>
      intro s htexts hs
      rw [List.forall_mem_cons] at htexts
      rw [List.foldl_cons, List.foldl_cons, ← htexts.1.chars hs]
      exact ih _ htexts.2 ((htexts.1.valid_iff s).mpr hs)
  exact (hfold _ s rewrites_special hs).trans
    (foldl_substitute (S := specials) (by decide) (by decide))

theorem mem_escaped {a b : Char} (h : b ∈ escaped a) : b = '\\' ∨ b = a := by
  rw [escaped] at h
  split_ifs at h
  · simpa using h
  · exact .inr (List.mem_singleton.mp h)

theorem escaped_ne_nil (c : Char) : escaped c ≠ [] := by
  rw [escaped]
  split_ifs <;> exact List.cons_ne_nil _ _

theorem transparent_escaped : Transparent ['*', '*'] escaped where
  fixed := List.all_iff_forall_prop.mp (by decide)
  apart a ha := by
    refine ⟨escaped_ne_nil a, fun b hb => ?_⟩
    rcases mem_escaped hb with rfl | rfl
    · decide
    · exact ha

theorem transparent_kvChar : Transparent marker kvChar where
  fixed := List.all_iff_forall_prop.mp (by decide)
  apart a ha := by
    rw [kvChar]
    split_ifs
    · exact ⟨List.cons_ne_nil _ _, List.all_iff_forall_prop.mp (by decide)⟩
    · refine ⟨escaped_ne_nil a, fun b hb => ?_⟩
      rcases mem_escaped hb with rfl | rfl
      · decide
      · exact ha

/-! ### The two expressions -/

/-- The star is no special character, and no special character is written with one. -/
theorem flatMap_escaped_star (cs stars : List Char) :
    substitute (cs.flatMap escaped) ['*'] stars =
      cs.flatMap fun c => if c = '*' then stars else escaped c := by
  rw [substitute_singleton, List.flatMap_assoc]
  refine List.flatMap_congr fun a _ => ?_
  by_cases ha : a = '*'
  · simp [ha, escaped, specials]
  · rw [if_neg ha]
    refine (List.flatMap_congr fun b hb => ?_).trans (List.flatMap_singleton' (escaped a))
    refine if_neg fun hstar => ?_
    rcases mem_escaped hb with rfl | rfl
    · exact absurd hstar (by decide)
    · exact ha hstar

theorem substitute_stars_escaped (cs : List Char) :
    substitute (cs.flatMap escaped) ['*', '*'] marker =
      (substitute cs ['*', '*'] marker).flatMap escaped := by
  rw [transparent_escaped.substitute_flatMap (by decide), substitute, List.flatMap_assoc]
  refine List.flatMap_congr fun o _ => ?_
  cases o with
  | none => rfl
  | some a => exact (List.append_nil (escaped a)).symm

theorem boundary_dollar : Boundary (str "$") :=
  boundary_of_valid (show valid (str "$") from by decide) (by decide) []

theorem valid_anchor_iff (expr : GoString) : valid (anchor expr) ↔ valid expr := by
  have hfront : ∀ s, valid (str "^" ++ s) ↔ valid s := fun s => by
    rw [Utf8.valid_iff, Utf8.valid_iff, decode_valid_append (by decide), List.forall_mem_append]
    exact and_iff_right (by decide)
  have hback : ∀ s, valid (s ++ str "$") ↔ valid s := fun s => by
    rw [valid_append s boundary_dollar]
    exact and_iff_left (by decide)
  rw [anchor]
  split_ifs <;> simp only [hfront, hback]

theorem chars_anchor {expr : GoString} (h : valid expr) :
    chars (anchor expr) = anchored (chars expr) := by
  have hfront : ∀ s, chars (str "^" ++ s) = '^' :: chars s := fun s => by
    rw [Utf8.chars, decode_valid_append (by decide), List.map_append]
    rfl
  have hback : ∀ s, chars (s ++ str "$") = chars s ++ ['$'] := fun s =>
    chars_append s boundary_dollar
  have hvalid : valid (str "^" ++ expr) := by
    rw [Utf8.valid_iff, decode_valid_append (by decide), List.forall_mem_append]
    exact ⟨by decide, (Utf8.valid_iff expr).mp h⟩
  have hcaret : valid (str "^") := by decide
  have hdollar : valid (str "$") := by decide
  have hpre := hasPrefix_chars_iff hcaret h
  have hsuf := hasSuffix_chars_iff (by decide) hdollar h
  have hsuf' := hasSuffix_chars_iff (by decide) hdollar hvalid
  rw [hfront] at hsuf'
  change _ ↔ ['^'] <+: chars expr at hpre
  change _ ↔ ['$'] <:+ chars expr at hsuf
  change _ ↔ ['$'] <:+ '^' :: chars expr at hsuf'
  rw [anchor, anchored]
  split_ifs <;> simp_all

theorem rewrites_stars : Rewrites (str "**") (str "§DOUBLESTAR§") := by decide
theorem rewrites_star : Rewrites (str "*") (str "[^/]*") := by decide
theorem rewrites_marker : Rewrites (str "§DOUBLESTAR§") (str ".*") := by decide
theorem rewrites_any : Rewrites (str "*") (str ".*") := by decide

theorem valid_kvCompile_iff (r : KVRule) : valid r.compile ↔ valid r.path := by
  rw [KVRule.compile, valid_anchor_iff, rewrites_marker.valid_iff, rewrites_star.valid_iff,
    rewrites_stars.valid_iff, valid_escapeSpecial_iff]

/-- The expression of a KV pattern. -/
theorem chars_kvCompile {r : KVRule} (h : valid r.path) :
    chars r.compile = anchored ((kvSymbols (chars r.path)).flatMap kvText) := by
  have hescape := (valid_escapeSpecial_iff r.path).mpr h
  have hstars := (rewrites_stars.valid_iff _).mpr hescape
  have hstar := (rewrites_star.valid_iff _).mpr hstars
  have hmarker := (rewrites_marker.valid_iff _).mpr hstar
  have hmarked : substitute (chars (escapeSpecial r.path)) (chars (str "**"))
      (chars (str "§DOUBLESTAR§")) = (substitute (chars r.path) ['*', '*'] marker).flatMap escaped := by
    rw [chars_escapeSpecial h]
    exact substitute_stars_escaped (chars r.path)
  rw [KVRule.compile, chars_anchor hmarker, rewrites_marker.chars hstar, rewrites_star.chars hstars,
    rewrites_stars.chars hescape, hmarked]
  refine congrArg anchored ?_
  refine (congrArg (substitute · _ _) (flatMap_escaped_star _ _)).trans ?_
  exact transparent_kvChar.substitute_flatMap (by decide) _ _

theorem valid_serviceCompile_iff (r : ServiceRule) : valid r.compile ↔ valid r.name := by
  rw [ServiceRule.compile, valid_anchor_iff, rewrites_any.valid_iff, valid_escapeSpecial_iff]

/-- The expression of a service pattern. -/
theorem chars_serviceCompile {r : ServiceRule} (h : valid r.name) :
    chars r.compile = anchored ((chars r.name).flatMap serviceText) := by
  have hescape := (valid_escapeSpecial_iff r.name).mpr h
  have hany := (rewrites_any.valid_iff _).mpr hescape
  rw [ServiceRule.compile, chars_anchor hany, rewrites_any.chars hescape, chars_escapeSpecial h]
  exact congrArg anchored (flatMap_escaped_star _ _)

end Konsul
