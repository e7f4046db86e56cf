import Konsul.Lib.MatchPath
import Konsul.Watch.Manager

/-!
# What a watch pattern matches

`matchesPattern` compares a pattern without stars, takes one with two stars in a row for
a prefix, and gives any other to `filepath.Match`. The guide describes one language of
globs.
-/

namespace Konsul.Watch

open GoLib

/-- The pattern matches the keys its glob accepts, and no others. -/
def MeansGlob (pattern : GoString) : Prop :=
  ∀ key, matchesPattern key pattern = true ↔ Glob.accepts (Glob.path pattern) key

/-- A pattern without stars; one whose only stars are two at its end; one without two stars
in a row and without the other operators of `filepath.Match`. -/
inductive Guided (pattern : GoString) : Prop where
  | exact (h : Path.star ∉ pattern)
  | multiLevel (pfx : GoString) (hpattern : pattern = pfx ++ str "**") (h : Path.star ∉ pfx)
  | singleLevel (hsingle : Path.Single pattern) (hplain : Path.Plain pattern)

section

variable {pattern key : GoString}

/-! ### The three regimes -/

theorem matchesPattern_exact (h : Path.star ∉ pattern) :
    matchesPattern key pattern = true ↔ key = pattern := by
  have hcontains : contains pattern (str "*") = false := by
    rw [Bool.eq_false_iff]
    exact fun hc => h ((contains_singleton_iff pattern Path.star).mp hc)
  simp [matchesPattern, hcontains]

theorem matchesPattern_multiLevel (h : ¬ Path.Single pattern) :
    matchesPattern key pattern = true ↔
      key = pattern ∨ hasPrefix key (trimSuffix pattern (str "**")) = true := by
  have hcontains : contains pattern (str "**") = true := (Path.contains_stars_iff pattern).mpr h
  have hstar : contains pattern (str "*") = true := by
    obtain ⟨u, v, heq⟩ := (contains_iff pattern (str "**")).mp hcontains
    exact (contains_iff pattern (str "*")).mpr ⟨u, str "*" ++ v, heq⟩
  unfold matchesPattern
  split_ifs with hkey
  · exact iff_of_true rfl (.inl hkey)
  · simp [hstar] at *
  · simp [hkey]

theorem matchesPattern_singleLevel (hsingle : Path.Single pattern) (hstar : Path.star ∈ pattern) :
    matchesPattern key pattern = true ↔
      key = pattern ∨ Path.matchPath pattern key = .ok true := by
  have hcontains : contains pattern (str "**") = false := by
    rw [Bool.eq_false_iff]
    exact fun hc => (Path.contains_stars_iff pattern).mp hc hsingle
  have hone : contains pattern (str "*") = true := (contains_singleton_iff pattern Path.star).mpr hstar
  unfold matchesPattern
  rw [hcontains, hone]
  by_cases hkey : key = pattern
  · rw [if_pos hkey]
    exact iff_of_true rfl (.inl hkey)
  · simp only [Bool.not_true, Bool.false_eq_true, ite_false, hkey, false_or]
    cases Path.matchPath pattern key with
    | error e => exact iff_of_false Bool.false_ne_true nofun
    | ok matched => rw [Except.ok.injEq]

/-! ### The globs -/

theorem path_of_notMem (h : Path.star ∉ pattern) : Glob.path pattern = pattern.map .lit := by
  have hne : ∀ b ∈ pattern, b ≠ Path.star := fun b hb heq => h (heq ▸ hb)
  have hsingle : Path.Single pattern := by
    rw [← not_not (a := Path.Single pattern), ← Path.contains_stars_iff]
    intro hc
    obtain ⟨u, v, rfl⟩ := (contains_iff pattern _).mp hc
    exact h (by simp)
  rw [Path.path_of_single hsingle, Path.map_single_of_literal hne]

theorem path_append_stars {pfx : GoString} (h : Path.star ∉ pfx) :
    Glob.path (pfx ++ str "**") = pfx.map .lit ++ [.run Glob.anyByte] := by
  induction pfx with
  | nil => rfl
  | cons b pfx ih =>
    rw [List.mem_cons, not_or] at h
    have hrest := ih h.2
    have hb : ¬ b = Path.star := fun heq => h.1 heq.symm
    obtain ⟨c, rest, hcons⟩ : ∃ c rest, pfx ++ str "**" = c :: rest :=
      List.exists_cons_of_ne_nil (List.append_ne_nil_of_right_ne_nil pfx (by decide))
    rw [List.cons_append, hcons, Glob.path, if_neg hb, ← hcons, hrest]
    rfl

/-- A star accepts a star. -/
theorem accepts_self (p : GoString) : Glob.accepts (p.map Path.single) p := by
  induction p with
  | nil => rfl
  | cons b p ih =>
    rw [List.map_cons, Path.single]
    split_ifs with hb
    · rw [Glob.accepts_run_iff]
      refine ⟨[b], p, rfl, fun a ha => ?_, ih⟩
      rw [List.mem_singleton.mp ha, hb]
      rfl
    · exact (Glob.accepts_lit_iff b _ _).mpr ⟨p, rfl, ih⟩

theorem filter_noStar_length (h : Path.star ∈ pattern) :
    (pattern.filter Path.noStar).length < pattern.length := by
  refine List.length_filter_lt_length_iff_exists.mpr ⟨Path.star, h, by decide⟩

theorem notMem_of_shorter {p q : GoString} (h : p <+: q.filter Path.noStar)
    (hlen : q.length ≤ p.length) : Path.star ∉ q := by
  intro hstar
  have := h.length_le
  have := filter_noStar_length hstar
  omega

theorem meansGlob_of_notMem (h : Path.star ∉ pattern) : MeansGlob pattern := by
  intro key
  have hlits := Glob.accepts_lits_iff pattern [] key
  rw [List.append_nil] at hlits
  rw [matchesPattern_exact h, path_of_notMem h, hlits]
  constructor
  · rintro rfl
    exact ⟨[], (List.append_nil _).symm, rfl⟩
  · rintro ⟨v, rfl, hv⟩
    rw [(Glob.accepts_nil_iff v).mp hv, List.append_nil]

end

/-- A pattern means its glob iff it is one the guide describes. -/
theorem meansGlob_iff (pattern : GoString) : MeansGlob pattern ↔ Guided pattern := by
  constructor
  · intro h
    by_cases hstar : Path.star ∈ pattern
    · -- the key that leaves the stars out
      have hshort := filter_noStar_length hstar
      have hne : pattern.filter Path.noStar ≠ pattern := fun heq => by
        rw [heq] at hshort
        exact Nat.lt_irrefl _ hshort
      have haccepts : Glob.accepts (Glob.path pattern) (pattern.filter Path.noStar) := by
        rw [← Path.literals_path]
        exact Glob.accepts_literals _
      have hmatch := (h _).mpr haccepts
      by_cases hsingle : Path.Single pattern
      · have hpath := ((matchesPattern_singleLevel hsingle hstar).mp hmatch).resolve_left hne
        refine .singleLevel hsingle (Path.plain_of_matchPath hpath fun name hname => ?_)
        exact (h name).mp ((matchesPattern_singleLevel hsingle hstar).mpr (.inr hname))
      · have hpre := ((matchesPattern_multiLevel hsingle).mp hmatch).resolve_left hne
        rw [hasPrefix, List.isPrefixOf_iff_prefix, trimSuffix] at hpre
        by_cases hsuffix : hasSuffix pattern (str "**") = true
        · rw [if_pos hsuffix] at hpre
          obtain ⟨pfx, hpattern⟩ := List.isSuffixOf_iff_suffix.mp hsuffix
          rw [← hpattern, List.length_append, Nat.add_sub_cancel, List.take_left,
            List.filter_append] at hpre
          have hstars : (str "**").filter Path.noStar = [] := by decide
          rw [hstars, List.append_nil] at hpre
          exact .multiLevel pfx hpattern.symm (notMem_of_shorter hpre (le_refl _))
        · rw [if_neg hsuffix] at hpre
          exact absurd hstar (notMem_of_shorter hpre (le_refl _))
    · exact .exact hstar
  · intro h key
    cases h with
    | exact hstar => exact meansGlob_of_notMem hstar key
    | multiLevel pfx hpattern hstar =>
      have hnot : ¬ Path.Single pattern := by
        rw [← Path.contains_stars_iff, contains_iff]
        exact ⟨pfx, [], by rw [hpattern]; rfl⟩
      have htrim : trimSuffix pattern (str "**") = pfx := by
        have hsuffix : hasSuffix pattern (str "**") = true :=
          List.isSuffixOf_iff_suffix.mpr ⟨pfx, hpattern.symm⟩
        rw [trimSuffix, if_pos hsuffix, hpattern, List.length_append, Nat.add_sub_cancel,
          List.take_left]
      rw [matchesPattern_multiLevel hnot, htrim, hasPrefix_iff, hpattern, path_append_stars hstar,
        Glob.accepts_lits_iff]
      constructor
      · rintro (rfl | ⟨rest, rfl⟩)
        · exact ⟨str "**", rfl, by decide⟩
        · exact ⟨rest, rfl, (Glob.accepts_run_iff _ _ _).mpr
            ⟨rest, [], (List.append_nil rest).symm, fun _ _ => rfl, rfl⟩⟩
      · rintro ⟨v, rfl, -⟩
        exact .inr ⟨v, rfl⟩
    | singleLevel hsingle hplain =>
      by_cases hstar : Path.star ∈ pattern
      · rw [matchesPattern_singleLevel hsingle hstar, Path.matchPath_iff hplain hsingle]
        refine ⟨?_, .inr⟩
        rintro (rfl | haccepts)
        · rw [Path.path_of_single hsingle]
          exact accepts_self key
        · exact haccepts
      · exact meansGlob_of_notMem hstar key

/-- Two stars in the middle are taken for a prefix. -/
theorem middle_stars_not_matched : ¬ ∀ pattern, MeansGlob pattern := by
  intro h
  have hkey := (h (str "a/**/b") (str "a/x/b")).mpr (by decide)
  exact absurd hkey (by decide)

end Konsul.Watch
