import Konsul.Lib.Glob
import Mathlib.Data.List.Chain

/-!
# What `filepath.Match` matches

A pattern without brackets, question marks and backslashes is a glob whose stars stop at
slashes: the loop tries each chunk at its leftmost place, which loses nothing. A pattern
with one of them that matches anything also matches a name below its own text.
-/

namespace GoLib

theorem contains_iff (s sub : Bytes) : contains s sub = true ↔ ∃ u v, s = u ++ (sub ++ v) := by
  rw [contains, List.any_eq_true]
  constructor
  · rintro ⟨t, ht, hpre⟩
    obtain ⟨u, hu⟩ := (List.mem_tails t s).mp ht
    obtain ⟨v, hv⟩ := List.isPrefixOf_iff_prefix.mp hpre
    rw [← hu, ← hv]
    exact ⟨u, v, rfl⟩
  · rintro ⟨u, v, rfl⟩
    exact ⟨sub ++ v, (List.mem_tails _ _).mpr ⟨u, rfl⟩,
      List.isPrefixOf_iff_prefix.mpr (List.prefix_append sub v)⟩

theorem contains_singleton_iff (s : Bytes) (b : UInt8) : contains s [b] = true ↔ b ∈ s := by
  rw [contains_iff, List.mem_iff_append]
  rfl

namespace Path

open Glob

/-- No operator but the star. -/
def Plain (p : Bytes) : Prop := ∀ b ∈ p, b ≠ openBracket ∧ b ≠ question ∧ b ≠ backslash

instance (p : Bytes) : Decidable (Plain p) := inferInstanceAs (Decidable (∀ b ∈ p, _))

def single (b : UInt8) : Item UInt8 := if b = star then .run inElement else .lit b

theorem plain_append {p q : Bytes} : Plain (p ++ q) ↔ Plain p ∧ Plain q := List.forall_mem_append

theorem plain_cons {b : UInt8} {p : Bytes} :
    Plain (b :: p) ↔ (b ≠ openBracket ∧ b ≠ question ∧ b ≠ backslash) ∧ Plain p :=
  List.forall_mem_cons

/-- No two stars in a row. -/
def Single (p : Bytes) : Prop := p.IsChain fun b c => ¬ (b = star ∧ c = star)

theorem contains_stars_iff (p : Bytes) : contains p [star, star] = true ↔ ¬ Single p := by
  induction p with
  | nil => exact iff_of_false (by decide) (not_not_intro List.IsChain.nil)
  | cons b p ih =>
    have hhead : contains (b :: p) [star, star] = true ↔
        (b = star ∧ p.head? = some star) ∨ contains p [star, star] = true := by
      rw [contains, List.tails_cons, List.any_cons, Bool.or_eq_true, ← contains]
      refine or_congr_left ?_
      cases p with
      | nil => simp [List.isPrefixOf]
      | cons c p =>
        simp only [List.isPrefixOf, Bool.and_true, Bool.and_eq_true, beq_iff_eq, List.head?_cons,
          Option.some_inj]
        exact and_congr eq_comm eq_comm
    rw [hhead, ih, Single, Single]
    cases p with
    | nil => simp
    | cons c p =>
      rw [List.isChain_cons_cons, List.head?_cons, Option.some_inj]
      tauto

theorem path_of_single {p : Bytes} (h : Single p) : Glob.path p = p.map single := by
  induction p with
  | nil => rfl
  | cons b p ih =>
    cases p with
    | nil =>
      rw [Glob.path, List.map_singleton, single]
      split_ifs <;> rfl
    | cons c p =>
      have htail := ih (List.isChain_cons_cons.mp h).2
      have hpair := (List.isChain_cons_cons.mp h).1
      rw [Glob.path, List.map_cons, single, ← htail]
      by_cases hb : b = star
      · have hc : c ≠ star := fun hc => hpair ⟨hb, hc⟩
        rw [if_pos hb, if_neg hc, if_pos hb]
      · rw [if_neg hb, if_neg hb]

/-! ### A chunk of literals -/

/-- What is left of a text behind the chunk. -/
def strip (chunk s : Bytes) : Option Bytes :=
  if hasPrefix s chunk then some (s.drop chunk.length) else none

theorem strip_eq_some_iff (chunk s t : Bytes) : strip chunk s = some t ↔ s = chunk ++ t := by
  unfold strip
  by_cases h : hasPrefix s chunk = true
  · obtain ⟨rest, rfl⟩ := (hasPrefix_iff s chunk).mp h
    rw [if_pos h, List.drop_left, Option.some_inj, List.append_cancel_left_eq]
  · rw [if_neg h]
    refine iff_of_false (fun h => nomatch h) fun heq => h ((hasPrefix_iff s chunk).mpr ⟨t, heq⟩)

theorem strip_cons (c : UInt8) (chunk s : Bytes) :
    strip (c :: chunk) s = (matchByte c s).bind (strip chunk) := by
  refine Option.ext fun t => ?_
  rw [strip_eq_some_iff, Option.bind_eq_some_iff]
  cases s with
  | nil => exact iff_of_false (fun h => nomatch h) fun ⟨s, h, _⟩ => nomatch h
  | cons b s =>
    rw [matchByte]
    split_ifs with hb
    · rw [hb, List.cons_append, List.cons.injEq]
      simp only [true_and, Option.some_inj, strip_eq_some_iff, exists_eq_left']
    · refine iff_of_false (fun h => hb (List.cons.inj h).1) fun ⟨s, h, _⟩ => nomatch h

theorem matchChunk_plain {chunk : Bytes} (hplain : Plain chunk) {n : ℕ} (hn : chunk.length ≤ n)
    (s : Option Bytes) : matchChunk n chunk s = .ok (s.bind (strip chunk)) := by
  induction chunk generalizing n s with
  | nil =>
    have hstrip : ∀ s, strip [] s = some s := fun s => (strip_eq_some_iff [] s s).mpr rfl
    cases s <;> cases n <;> simp [matchChunk, hstrip]
  | cons c chunk ih =>
    obtain ⟨⟨hopen, hquestion, hback⟩, hrest⟩ := plain_cons.mp hplain
    cases n with
    | zero => exact absurd hn (by simp)
    | succ n =>
      have hlen : chunk.length ≤ n := by simpa using hn
      simp only [matchChunk, hopen, hquestion, hback, ite_false, ih hrest hlen]
      cases s with
      | none => rfl
      | some s =>
        cases s with
        | nil => rfl
        | cons b s => simp only [Option.some.injEq, reduceCtorEq, ite_false, Option.bind_some,
            strip_cons]

/-! ### The places of a chunk behind a star -/

/-- The chunk stands behind `u`, which a star skips, and `t` behind the chunk. -/
structure Place (chunk : Bytes) (last : Bool) (name u t : Bytes) : Prop where
  name_eq : name = u ++ (chunk ++ t)
  skipped : ∀ b ∈ u, inElement b
  ends : last → t = []

/-- Whether the chunk and the rest of the text make an end of the name, as a last one must. -/
theorem place_nil_iff {chunk name t : Bytes} {last : Bool} :
    Place chunk last name [] t ↔ strip chunk name = some t ∧ (last → t = []) := by
  rw [strip_eq_some_iff]
  constructor
  · intro h
    exact ⟨h.name_eq, h.ends⟩
  · intro h
    exact ⟨h.1, fun b hb => absurd hb List.not_mem_nil, h.2⟩

theorem place_cons_iff {chunk name u t : Bytes} {last : Bool} {a b : UInt8} :
    Place chunk last (a :: name) (b :: u) t ↔ a = b ∧ inElement b ∧ Place chunk last name u t := by
  constructor
  · intro h
    have hname := h.name_eq
    rw [List.cons_append, List.cons.injEq] at hname
    have hskip := List.forall_mem_cons.mp h.skipped
    exact ⟨hname.1, hskip.1, hname.2, hskip.2, h.ends⟩
  · rintro ⟨rfl, hb, h⟩
    refine ⟨?_, List.forall_mem_cons.mpr ⟨hb, h.skipped⟩, h.ends⟩
    rw [h.name_eq]
    rfl

theorem matchLater_plain {chunk : Bytes} (hplain : Plain chunk) (last : Bool) (name : Bytes) :
    (∃ b u t, matchLater chunk last name = .ok (some t) ∧ Place chunk last name (b :: u) t ∧
      ∀ b' u' t', Place chunk last name (b' :: u') t' → u.length ≤ u'.length) ∨
    matchLater chunk last name = .ok none ∧
      ∀ b u t, ¬ Place chunk last name (b :: u) t := by
  induction name with
  | nil => exact .inr ⟨rfl, fun b u t h => nomatch h.name_eq⟩
  | cons a name ih =>
    by_cases hslash : a = slash
    · refine .inr ⟨by rw [matchLater, if_pos hslash], fun b u t h => ?_⟩
      obtain ⟨rfl, hb, -⟩ := place_cons_iff.mp h
      exact absurd hslash (of_decide_eq_true hb)
    · have ha : inElement a := decide_eq_true hslash
      have hchunk := matchChunk_plain hplain (le_refl _) (some name)
      -- either the chunk stands right behind `a`, or the search goes on
      have hgoes : (∀ t, ¬ Place chunk last name [] t) →
          matchLater chunk last (a :: name) = matchLater chunk last name := by
        intro hnone
        rw [matchLater, if_neg hslash, hchunk, Option.bind_some]
        cases hstrip : strip chunk name with
        | none => rfl
        | some t =>
          have hnot : last = true ∧ t ≠ [] := by
            by_contra hends
            exact hnone t (place_nil_iff.mpr ⟨hstrip, fun hlast => by_contra fun ht =>
              hends ⟨hlast, ht⟩⟩)
          show (if last ∧ t ≠ [] then _ else _) = _
          rw [if_pos hnot]
      by_cases hhere : ∃ t, Place chunk last name [] t
      · obtain ⟨t, ht⟩ := hhere
        obtain ⟨hstrip, hends⟩ := place_nil_iff.mp ht
        refine .inl ⟨a, [], t, ?_, place_cons_iff.mpr ⟨rfl, ha, ht⟩, fun _ _ _ _ => Nat.zero_le _⟩
        rw [matchLater, if_neg hslash, hchunk, Option.bind_some, hstrip]
        show (if last ∧ t ≠ [] then _ else _) = _
        rw [if_neg fun h => h.2 (hends h.1)]
        rfl
      · have hnone : ∀ t, ¬ Place chunk last name [] t := fun t ht => hhere ⟨t, ht⟩
        rw [hgoes hnone]
        rcases ih with ⟨b, u, t, hmatch, hplace, hfirst⟩ | ⟨hmatch, hno⟩
        · refine .inl ⟨a, b :: u, t, hmatch, place_cons_iff.mpr ⟨rfl, ha, hplace⟩, ?_⟩
          intro b' u' t' hplace'
          obtain ⟨-, -, hplace'⟩ := place_cons_iff.mp hplace'
          cases u' with
          | nil => exact absurd hplace' (hnone t')
          | cons c u' => exact Nat.succ_le_succ (hfirst c u' t' hplace')
        · refine .inr ⟨hmatch, fun b u t hplace => ?_⟩
          obtain ⟨-, -, hplace⟩ := place_cons_iff.mp hplace
          cases u with
          | nil => exact hnone t hplace
          | cons c u => exact hno c u t hplace

/-! ### The loop over the chunks -/

/-- A byte of a chunk. -/
def noStar (b : UInt8) : Bool := b ≠ star

theorem chunkLength_plain {p : Bytes} (h : Plain p) :
    chunkLength false p = (p.takeWhile noStar).length := by
  induction p with
  | nil => rfl
  | cons b p ih =>
    obtain ⟨⟨hopen, hquestion, hback⟩, hrest⟩ := plain_cons.mp h
    have htail := ih hrest
    rw [List.takeWhile_cons, noStar]
    cases p with
    | nil =>
      rw [chunkLength]
      by_cases hb : b = star <;> simp [hb]
    | cons c p =>
      rw [chunkLength, if_neg hback, if_neg hopen, htail]
      by_cases hb : b = star
      · simp [hb, star, closeBracket]
      · simp [hb]
        omega

theorem scanChunk_plain {p : Bytes} (h : Plain p) :
    scanChunk p = (decide ((p.dropWhile (· = star)).length < p.length),
      (p.dropWhile (· = star)).takeWhile noStar, (p.dropWhile (· = star)).dropWhile noStar) := by
  have hbody : Plain (p.dropWhile (· = star)) :=
    fun b hb => h b ((List.dropWhile_sublist _).subset hb)
  have hsplit := List.takeWhile_append_dropWhile (p := noStar) (l := p.dropWhile (· = star))
  simp only [scanChunk, chunkLength_plain hbody]
  rw [Prod.mk.injEq, Prod.mk.injEq]
  refine ⟨rfl, ?_, ?_⟩
  · have htake := congrArg (List.take ((p.dropWhile (· = star)).takeWhile noStar).length) hsplit
    rw [List.take_left] at htake
    exact htake.symm
  · have hdrop := congrArg (List.drop ((p.dropWhile (· = star)).takeWhile noStar).length) hsplit
    rw [List.drop_left] at hdrop
    exact hdrop.symm

/-- A pattern cut as the loop cuts it: perhaps a star, a chunk without stars, and a rest
that begins with a star. -/
structure Cut (p : Bytes) (starred : Bool) (chunk rest : Bytes) : Prop where
  scan : scanChunk p = (starred, chunk, rest)
  split : p = (if starred then [star] else []) ++ (chunk ++ rest)
  literal : ∀ b ∈ chunk, b ≠ star
  continues : rest = [] ∨ ∃ r, rest = star :: r
  progress : chunk = [] → starred = true ∧ rest = []

theorem exists_cut {p : Bytes} (hplain : Plain p) (hsingle : Single p) (hp : p ≠ []) :
    ∃ starred chunk rest, Cut p starred chunk rest := by
  have hliteral : ∀ body : Bytes, ∀ b ∈ body.takeWhile noStar, b ≠ star := by
    intro body b hb
    have hall := List.all_takeWhile (p := noStar) (l := body)
    exact of_decide_eq_true (List.all_eq_true.mp hall b hb)
  have hcontinues : ∀ body : Bytes, body.dropWhile noStar = [] ∨
      ∃ r, body.dropWhile noStar = star :: r := by
    intro body
    cases hdrop : body.dropWhile noStar with
    | nil => exact .inl rfl
    | cons c r =>
      have hc := List.head?_dropWhile_not noStar body
      simp only [hdrop, List.head?_cons] at hc
      have hstar : c = star := by simpa [noStar] using hc
      exact .inr ⟨r, by rw [hstar]⟩
  have hscan := scanChunk_plain hplain
  cases p with
  | nil => exact absurd rfl hp
  | cons b q =>
    by_cases hb : b = star
    · have hbody : (b :: q).dropWhile (· = star) = q := by
        cases q with
        | nil => simp [hb]
        | cons c q =>
          have hc : c ≠ star := fun hc => (List.isChain_cons_cons.mp hsingle).1 ⟨hb, hc⟩
          simp [hb, hc]
      rw [hbody] at hscan
      refine ⟨true, q.takeWhile noStar, q.dropWhile noStar, ?_, ?_, hliteral q, hcontinues q, ?_⟩
      · rw [hscan, List.length_cons, decide_eq_true (Nat.lt_succ_self _)]
      · rw [List.takeWhile_append_dropWhile, hb]
        rfl
      · intro hnil
        refine ⟨rfl, ?_⟩
        cases q with
        | nil => rfl
        | cons c q =>
          have hc : c ≠ star := fun hc => (List.isChain_cons_cons.mp hsingle).1 ⟨hb, hc⟩
          simp [noStar, hc] at hnil
    · have hbody : (b :: q).dropWhile (· = star) = b :: q := by simp [hb]
      rw [hbody] at hscan
      refine ⟨false, _, _, ?_, ?_, hliteral (b :: q), hcontinues (b :: q), ?_⟩
      · rw [hscan, decide_eq_false (Nat.lt_irrefl _)]
      · rw [List.takeWhile_append_dropWhile]
        rfl
      · intro hnil
        simp [noStar, hb] at hnil

theorem map_single_of_literal {chunk : Bytes} (h : ∀ b ∈ chunk, b ≠ star) :
    chunk.map single = chunk.map .lit :=
  List.map_congr_left fun b hb => if_neg (h b hb)

/-- What is accepted behind a star and a chunk, by the places of the chunk. -/
theorem accepts_star_iff {chunk name : Bytes} {rest : List (Item UInt8)} :
    accepts (.run inElement :: (chunk.map .lit ++ rest)) name ↔
      ∃ u t, Place chunk (rest.isEmpty) name u t ∧ accepts rest t := by
  rw [accepts_run_iff]
  constructor
  · rintro ⟨u, v, rfl, hu, hv⟩
    obtain ⟨t, rfl, ht⟩ := (accepts_lits_iff chunk rest v).mp hv
    refine ⟨u, t, ⟨rfl, hu, fun hlast => ?_⟩, ht⟩
    rw [List.isEmpty_iff.mp hlast] at ht
    exact (accepts_nil_iff t).mp ht
  · rintro ⟨u, t, hplace, ht⟩
    exact ⟨u, chunk ++ t, hplace.name_eq, hplace.skipped,
      (accepts_lits_iff chunk rest _).mpr ⟨t, rfl, ht⟩⟩

/-- From an earlier place the rest is accepted as well. -/
theorem Place.earlier {chunk name u t u' t' : Bytes} {rest : List (Item UInt8)}
    (h : Place chunk rest.isEmpty name u t) (h' : Place chunk rest.isEmpty name u' t')
    (hlen : u.length ≤ u'.length) (hrest : rest = [] ∨ ∃ r, rest = .run inElement :: r)
    (haccepts : accepts rest t') : accepts rest t := by
  rcases hrest with rfl | ⟨r, rfl⟩
  · exact (accepts_nil_iff t).mpr (h.ends rfl)
  · obtain ⟨z, rfl, hz⟩ :=
      rest_of_later (h.name_eq.symm.trans h'.name_eq) hlen h'.skipped
    exact accepts_run_append hz haccepts

theorem checkChunks_plain {p : Bytes} (hplain : Plain p) (fuel : ℕ) :
    checkChunks fuel p = .ok () := by
  induction fuel generalizing p with
  | zero => cases p <;> rfl
  | succ fuel ih =>
    cases p with
    | nil => rfl
    | cons b q =>
      have hsub : ∀ {l : Bytes}, l.Sublist (b :: q) → Plain l :=
        fun hl b hb => hplain b (hl.subset hb)
      have hbody := List.dropWhile_sublist (p := (· = star)) (l := b :: q)
      rw [checkChunks, scanChunk_plain hplain]
      dsimp only
      rw [matchChunk_plain (hsub ((List.takeWhile_sublist _).trans hbody)) (le_refl _)]
      exact ih (hsub ((List.dropWhile_sublist _).trans hbody))

/-- What is accepted behind a chunk at the front. -/
theorem accepts_chunk_iff {chunk name : Bytes} {rest : List (Item UInt8)} :
    accepts (chunk.map .lit ++ rest) name ↔
      ∃ t, Place chunk rest.isEmpty name [] t ∧ accepts rest t := by
  rw [accepts_lits_iff]
  constructor
  · rintro ⟨t, rfl, ht⟩
    refine ⟨t, ⟨rfl, fun b hb => absurd hb List.not_mem_nil, fun hlast => ?_⟩, ht⟩
    rw [List.isEmpty_iff.mp hlast] at ht
    exact (accepts_nil_iff t).mp ht
  · rintro ⟨t, hplace, ht⟩
    exact ⟨t, hplace.name_eq, ht⟩

/-- One round of the loop, where the chunk matches at the front. -/
theorem matchFrom_here {fuel : ℕ} {b : UInt8} {q chunk rest name t : Bytes} {starred : Bool}
    (hscan : scanChunk (b :: q) = (starred, chunk, rest)) (hsome : ¬ (starred = true ∧ chunk = []))
    (hmatch : matchChunk chunk.length chunk (some name) = .ok (some t)) (hgo : t = [] ∨ rest ≠ []) :
    matchFrom (fuel + 1) (b :: q) name = matchFrom fuel rest t := by
  rw [matchFrom, hscan]
  dsimp only
  rw [if_neg hsome, hmatch]
  show (if t = [] ∨ rest ≠ [] then _ else _) = _
  rw [if_pos hgo]

/-- One round of the loop, where it does not. -/
theorem matchFrom_later {fuel : ℕ} {b : UInt8} {q chunk rest name : Bytes} {starred : Bool}
    (hscan : scanChunk (b :: q) = (starred, chunk, rest)) (hplain : Plain chunk)
    (hrest : Plain rest) (hsome : ¬ (starred = true ∧ chunk = []))
    (hnone : ∀ t, ¬ Place chunk (decide (rest = [])) name [] t) :
    matchFrom (fuel + 1) (b :: q) name =
      if starred then do
        match ← matchLater chunk (decide (rest = [])) name with
        | some t => matchFrom fuel rest t
        | none => .ok false
      else .ok false := by
  have hcheck := checkChunks_plain hrest fuel
  rw [matchFrom, hscan]
  dsimp only
  rw [if_neg hsome, matchChunk_plain hplain (le_refl _), Option.bind_some]
  have hrefused : ∀ t, strip chunk name = some t → ¬ (t = [] ∨ rest ≠ []) := by
    rintro t hstrip hgo
    refine hnone t (place_nil_iff.mpr ⟨hstrip, fun hlast => ?_⟩)
    exact hgo.resolve_right (not_not.mpr (of_decide_eq_true hlast))
  have hfail : (checkChunks fuel rest >>= fun _ => (pure false : Except MatchError Bool)) =
      .ok false := by
    rw [hcheck]
    rfl
  simp only [hfail]
  cases hstrip : strip chunk name with
  | none => rfl
  | some t =>
    show (if t = [] ∨ rest ≠ [] then _ else _) = _
    exact (if_neg (hrefused t hstrip)).trans rfl

/-- A plain pattern matches as the glob it is written as. -/
theorem matchFrom_plain {fuel : ℕ} {p : Bytes} (hplain : Plain p) (hsingle : Single p)
    (hfuel : p.length ≤ fuel) (name : Bytes) :
    matchFrom fuel p name = .ok (accepts (p.map single) name) := by
  induction fuel generalizing p name with
  | zero =>
    rw [List.length_eq_zero_iff.mp (Nat.le_zero.mp hfuel)]
    cases name <;> rfl
  | succ fuel ih =>
    by_cases hp : p = []
    · rw [hp]
      cases name <;> rfl
    obtain ⟨starred, chunk, rest, hcut⟩ := exists_cut hplain hsingle hp
    obtain ⟨b, q, rfl⟩ := List.exists_cons_of_ne_nil hp
    have hparts : Plain chunk ∧ Plain rest := by
      have hsplit := hplain
      rw [hcut.split] at hsplit
      exact plain_append.mp (plain_append.mp hsplit).2
    have hmap : ((b :: q).map single) = (if starred then [.run inElement] else []) ++
        (chunk.map .lit ++ rest.map single) := by
      conv_lhs => rw [hcut.split]
      rw [List.map_append, List.map_append, map_single_of_literal hcut.literal]
      cases starred <;> rfl
    have hrest : rest.map single = [] ∨ ∃ r, rest.map single = .run inElement :: r := by
      rcases hcut.continues with rfl | ⟨r, rfl⟩
      · exact .inl rfl
      · exact .inr ⟨r.map single, rfl⟩
    have hlast : (rest.map single).isEmpty = decide (rest = []) := by
      cases rest <;> rfl
    rw [hmap]
    by_cases hsome : starred = true ∧ chunk = []
    · obtain ⟨-, hnil⟩ := hcut.progress hsome.2
      have hall : accepts [.run inElement] name = !contains name [slash] := by
        rw [Bool.eq_iff_iff, Bool.not_eq_true', ← Bool.not_eq_true, contains_singleton_iff,
          accepts_run_iff]
        constructor
        · rintro ⟨u, v, rfl, hu, hv⟩ hslash
          rw [(accepts_nil_iff v).mp hv, List.append_nil] at hslash
          exact of_decide_eq_true (hu slash hslash) rfl
        · intro hslash
          refine ⟨name, [], (List.append_nil name).symm, fun b hb => ?_, rfl⟩
          exact decide_eq_true fun heq => hslash (heq ▸ hb)
      rw [matchFrom, hcut.scan]
      dsimp only
      rw [if_pos hsome, hsome.1, hsome.2, hnil]
      exact congrArg Except.ok hall.symm
    · have hrestLength : rest.length ≤ fuel := by
        have hlength := congrArg List.length hcut.split
        simp only [List.length_cons, List.length_append] at hlength hfuel
        by_cases hchunk : chunk = []
        · exact absurd ⟨(hcut.progress hchunk).1, hchunk⟩ hsome
        · have hpos := List.length_pos_of_ne_nil hchunk
          omega
      have hsingleRest : Single rest := by
        have hsplit := hsingle
        rw [hcut.split] at hsplit
        exact hsplit.right_of_append.right_of_append
      have hnext := ih hparts.2 hsingleRest hrestLength
      by_cases hhere : ∃ t, Place chunk (decide (rest = [])) name [] t
      · obtain ⟨t, ht⟩ := hhere
        obtain ⟨hstrip, hends⟩ := place_nil_iff.mp ht
        have hmatch : matchChunk chunk.length chunk (some name) = .ok (some t) := by
          rw [matchChunk_plain hparts.1 (le_refl _), Option.bind_some, hstrip]
        have hgo : t = [] ∨ rest ≠ [] := by
          by_cases hnil : rest = []
          · exact .inl (hends (decide_eq_true hnil))
          · exact .inr hnil
        rw [matchFrom_here hcut.scan hsome hmatch hgo, hnext]
        rw [← hlast] at ht
        refine congrArg Except.ok (Bool.eq_iff_iff.mpr ⟨fun haccepts => ?_, fun haccepts => ?_⟩)
        · cases starred with
          | false => exact accepts_chunk_iff.mpr ⟨t, ht, haccepts⟩
          | true => exact accepts_star_iff.mpr ⟨[], t, ht, haccepts⟩
        · cases starred with
          | false =>
            obtain ⟨t', ht', haccepts⟩ := accepts_chunk_iff.mp haccepts
            exact ht.earlier ht' (le_refl _) hrest haccepts
          | true =>
            obtain ⟨u', t', ht', haccepts⟩ := accepts_star_iff.mp haccepts
            exact ht.earlier ht' (Nat.zero_le _) hrest haccepts
      · have hnone : ∀ t, ¬ Place chunk (decide (rest = [])) name [] t := fun t ht => hhere ⟨t, ht⟩
        rw [matchFrom_later hcut.scan hparts.1 hparts.2 hsome hnone]
        cases starred with
        | false =>
          refine congrArg Except.ok (Bool.eq_iff_iff.mpr ⟨nofun, fun haccepts => ?_⟩)
          obtain ⟨t, ht, -⟩ := accepts_chunk_iff.mp haccepts
          rw [hlast] at ht
          exact absurd ht (hnone t)
        | true =>
          rw [if_pos rfl, if_pos rfl]
          rcases matchLater_plain hparts.1 (decide (rest = [])) name with
            ⟨b', u, t, hmatch, hplace, hfirst⟩ | ⟨hmatch, hno⟩
          · rw [hmatch]
            show matchFrom fuel rest t = _
            rw [hnext]
            rw [← hlast] at hplace
            refine congrArg Except.ok (Bool.eq_iff_iff.mpr ⟨fun haccepts => ?_, fun haccepts => ?_⟩)
            · exact accepts_star_iff.mpr ⟨_, t, hplace, haccepts⟩
            · obtain ⟨u', t', hplace', haccepts⟩ := accepts_star_iff.mp haccepts
              cases u' with
              | nil =>
                rw [hlast] at hplace'
                exact absurd hplace' (hnone t')
              | cons c u' =>
                rw [hlast] at hplace'
                have hlen := Nat.succ_le_succ (hfirst c u' t' hplace')
                rw [← hlast] at hplace'
                exact hplace.earlier hplace' hlen hrest haccepts
          · rw [hmatch]
            refine congrArg Except.ok (Bool.eq_iff_iff.mpr ⟨nofun, fun haccepts => ?_⟩)
            obtain ⟨u', t', hplace', -⟩ := accepts_star_iff.mp haccepts
            rw [hlast] at hplace'
            cases u' with
            | nil => exact absurd hplace' (hnone t')
            | cons c u' => exact absurd hplace' (hno c u' t')

/-! ### A name below the text of a pattern -/

/-- A byte that begins a rune and is no star. -/
def heavy (b : UInt8) : Bool := !Utf8.tail b && b ≠ star

/-- `w` is lighter than `u`, or no longer and the same only where `u` is plain; stars
aside. -/
def Below (w u : Bytes) : Prop :=
  w.countP heavy < u.countP heavy ∨
    w.countP heavy ≤ u.countP heavy ∧ (w.filter noStar).length ≤ (u.filter noStar).length ∧
      (w.filter noStar = u.filter noStar → Plain u)

theorem Below.append {w w' u u' : Bytes} (h : Below w u) (h' : Below w' u') :
    Below (w ++ w') (u ++ u') := by
  unfold Below at h h' ⊢
  simp only [List.countP_append, List.filter_append, List.length_append]
  rcases h with h | ⟨hle, hlen, hplain⟩
  · rcases h' with h' | ⟨hle', -⟩ <;> exact .inl (by omega)
  · rcases h' with h' | ⟨hle', hlen', hplain'⟩
    · exact .inl (by omega)
    · refine .inr ⟨by omega, by omega, fun heq => ?_⟩
      obtain ⟨hfirst, hsecond⟩ := List.append_inj' heq (by
        have := congrArg List.length heq
        simp only [List.length_append] at this
        omega)
      exact plain_append.mpr ⟨hplain hfirst, hplain' hsecond⟩

theorem below_self {u : Bytes} (h : Plain u) : Below u u :=
  .inr ⟨le_refl _, le_refl _, fun _ => h⟩

theorem matchChunk_none {n : ℕ} {chunk : Bytes} {r : Option Bytes}
    (h : matchChunk n chunk none = .ok r) : r = none := by
  induction n generalizing chunk with
  | zero =>
    cases chunk with
    | nil =>
      cases h
      rfl
    | cons c chunk => cases h
  | succ n ih =>
    cases chunk with
    | nil =>
      cases h
      rfl
    | cons c chunk =>
      simp only [matchChunk, Option.map_none, Option.bind_none, ite_self] at h
      split_ifs at h with hopen hquestion hback
      · generalize matchRanges 0 _ _ _ _ = ranges at h
        cases ranges with
        | error e => cases h
        | ok p => exact ih h
      · generalize matchRanges 0 _ _ _ _ = ranges at h
        cases ranges with
        | error e => cases h
        | ok p => exact ih h
      · exact ih h
      · cases chunk with
        | nil => cases h
        | cons c chunk => exact ih h
      · exact ih h

/-- What the operator at the front does where the chunk matches. -/
theorem matchChunk_cases {n : ℕ} {c : UInt8} {chunk s t : Bytes}
    (h : matchChunk (n + 1) (c :: chunk) (some s) = .ok (some t)) :
    (c = openBracket ∧ s ≠ [] ∧ ∃ hit rest,
      matchRanges (Utf8.decodeRune s).1 (chunk.length + 1) true false
        (if decide (chunk.head? = some caret) then chunk.tail else chunk) = .ok (hit, rest) ∧
      hit ≠ decide (chunk.head? = some caret) ∧
      matchChunk n rest (some (s.drop (Utf8.decodeRune s).2)) = .ok (some t)) ∨
    (c = question ∧ ∃ s', matchChunk n chunk (some s') = .ok (some t)) ∨
    (c = backslash ∧ ∃ c' chunk' s', chunk = c' :: chunk' ∧
      matchChunk n chunk' (some s') = .ok (some t)) ∨
    ((c ≠ openBracket ∧ c ≠ question ∧ c ≠ backslash) ∧
      ∃ s', matchChunk n chunk (some s') = .ok (some t)) := by
  by_cases hs : s = []
  · rw [hs] at h
    have hnone : matchChunk (n + 1) (c :: chunk) none = .ok (some t) := h
    exact nomatch matchChunk_none hnone
  · have hsome : ¬ some s = some [] := fun heq => hs (Option.some_inj.mp heq)
    simp only [matchChunk, if_neg hsome] at h
    by_cases hopen : c = openBracket
    · rw [if_pos hopen, Option.map_some] at h
      refine .inl ⟨hopen, hs, ?_⟩
      cases hranges : matchRanges (Utf8.decodeRune s).1 (chunk.length + 1) true false
          (if decide (chunk.head? = some caret) then chunk.tail else chunk) with
      | error e =>
        rw [hranges] at h
        cases h
      | ok r =>
        rw [hranges] at h
        obtain ⟨hit, rest⟩ := r
        change matchChunk n rest (if hit = decide (chunk.head? = some caret) then none else _) = _
          at h
        by_cases hhit : hit = decide (chunk.head? = some caret)
        · rw [if_pos hhit] at h
          exact nomatch matchChunk_none h
        · rw [if_neg hhit] at h
          exact ⟨hit, rest, rfl, hhit, h⟩
    · rw [if_neg hopen] at h
      refine .inr ?_
      by_cases hquestion : c = question
      · rw [if_pos hquestion, Option.bind_some] at h
        refine .inl ⟨hquestion, ?_⟩
        split_ifs at h with hslash
        · exact nomatch matchChunk_none h
        · exact ⟨_, h⟩
      · rw [if_neg hquestion] at h
        refine .inr ?_
        by_cases hback : c = backslash
        · rw [if_pos hback] at h
          refine .inl ⟨hback, ?_⟩
          cases chunk with
          | nil => cases h
          | cons c' chunk' =>
            dsimp only at h
            rw [Option.bind_some] at h
            cases hbyte : matchByte c' s with
            | none =>
              rw [hbyte] at h
              exact nomatch matchChunk_none h
            | some s' =>
              rw [hbyte] at h
              exact ⟨c', chunk', s', rfl, h⟩
        · rw [if_neg hback, Option.bind_some] at h
          refine .inr ⟨⟨hopen, hquestion, hback⟩, ?_⟩
          cases hbyte : matchByte c s with
          | none =>
            rw [hbyte] at h
            exact nomatch matchChunk_none h
          | some s' =>
            rw [hbyte] at h
            exact ⟨s', h⟩

/-- The rest behind an element of a class. -/
theorem getEsc_suffix {chunk rest : Bytes} {r : ℕ} (h : getEsc chunk = .ok (r, rest)) :
    rest <:+ chunk := by
  unfold getEsc at h
  cases chunk with
  | nil => cases h
  | cons b s =>
    dsimp only at h
    by_cases hbad : b = hyphen ∨ b = closeBracket
    · rw [if_pos hbad] at h
      cases h
    · rw [if_neg hbad] at h
      generalize hread : (if b = backslash then s else b :: s) = read at h
      have hsuffix : read <:+ b :: s := by
        rw [← hread]
        split_ifs
        · exact List.suffix_cons b s
        · exact List.suffix_refl _
      split_ifs at h
      cases h
      exact (List.drop_suffix _ _).trans hsuffix

theorem matchRanges_suffix {r fuel : ℕ} {first hit hit' : Bool} {chunk rest : Bytes}
    (h : matchRanges r fuel first hit chunk = .ok (hit', rest)) : closeBracket :: rest <:+ chunk := by
  induction fuel generalizing first hit chunk with
  | zero => cases h
  | succ fuel ih =>
    rw [matchRanges] at h
    by_cases hclose : chunk.head? = some closeBracket ∧ (!first) = true
    · rw [if_pos hclose] at h
      cases h
      obtain ⟨s, hs⟩ := List.head?_eq_some_iff.mp hclose.1
      rw [hs]
      exact List.suffix_refl _
    · rw [if_neg hclose] at h
      cases hlo : getEsc chunk with
      | error e =>
        rw [hlo] at h
        cases h
      | ok lo =>
        rw [hlo] at h
        obtain ⟨lo, behind⟩ := lo
        have hbehind := getEsc_suffix hlo
        change (if behind.head? = some hyphen then getEsc behind.tail >>= fun q =>
            matchRanges r fuel false (hit || (decide (lo ≤ r) && decide (r ≤ q.1))) q.2
          else matchRanges r fuel false (hit || (decide (lo ≤ r) && decide (r ≤ lo))) behind) = _ at h
        by_cases hrange : behind.head? = some hyphen
        · rw [if_pos hrange] at h
          cases hhi : getEsc behind.tail with
          | error e =>
            rw [hhi] at h
            cases h
          | ok hi =>
            rw [hhi] at h
            have htail := (getEsc_suffix hhi).trans (List.tail_suffix behind)
            exact (ih h).trans (htail.trans hbehind)
        · rw [if_neg hrange] at h
          exact (ih h).trans hbehind

theorem heavy_tail {b : UInt8} (h : Utf8.tail b = true) : heavy b = false := by
  rw [heavy, h]
  rfl

/-- A good rune has one byte that begins it. -/
theorem countP_good {q : Utf8.Rune} (h : q.good) : q.bytes.countP heavy ≤ 1 := by
  have hsingle : ∀ b : UInt8, List.countP heavy [b] ≤ 1 := fun b => List.countP_le_length
  cases q with
  | ascii b => exact hsingle b
  | bad b => exact hsingle b
  | multi bs =>
    have htails : ∀ b ∈ bs.tail, heavy b = false := by
      match bs, h with
      | [a, b], h =>
        simp only [Utf8.Rune.good, Utf8.seq, Utf8.two, Bool.and_eq_true] at h
        simpa using heavy_tail h.2
      | [a, b, c], h =>
        simp only [Utf8.Rune.good, Utf8.seq, Utf8.three, Bool.and_eq_true] at h
        simp only [List.tail_cons, List.forall_mem_cons, List.not_mem_nil, false_implies,
          implies_true, and_true]
        exact ⟨heavy_tail h.1.1.1.2, heavy_tail h.1.1.2⟩
      | [a, b, c, d], h =>
        simp only [Utf8.Rune.good, Utf8.seq, Utf8.four, Bool.and_eq_true] at h
        simp only [List.tail_cons, List.forall_mem_cons, List.not_mem_nil, false_implies,
          implies_true, and_true]
        exact ⟨heavy_tail h.1.1.1.1.2, heavy_tail h.1.1.1.2, heavy_tail h.1.1.2⟩
    show bs.countP heavy ≤ 1
    cases bs with
    | nil => exact Nat.zero_le 1
    | cons a bs =>
      have hzero : bs.countP heavy = 0 :=
        List.countP_eq_zero.mpr fun b hb => by simp [htails b hb]
      rw [List.countP_cons, hzero]
      split_ifs <;> omega

/-- A rune read from a text, written down. -/
theorem exists_rune {s : Bytes} (hs : s ≠ []) : ∃ w : Bytes, w.countP heavy ≤ 1 ∧ w ≠ [] ∧
    ∀ t, Utf8.decodeRune (w ++ t) = ((Utf8.decodeRune s).1, w.length) := by
  cases hdecode : Utf8.decode s with
  | nil =>
    have hempty := Utf8.encode_decode s
    rw [hdecode] at hempty
    exact absurd hempty.symm hs
  | cons q qs =>
    have hq := Utf8.good_or_bad_of_mem_decode s q (hdecode ▸ List.mem_cons_self ..)
    have hgood := Utf8.fixed_good hq
    have hvalue : q.fixed.value = q.value := by
      rcases hq with hq | ⟨b, rfl⟩
      · rw [Utf8.fixed_of_good hq]
      · rfl
    refine ⟨q.fixed.bytes, countP_good hgood, ?_, fun t => ?_⟩
    · intro hnil
      have hself := Utf8.decode_bytes_append hgood []
      rw [hnil] at hself
      cases hself
    · rw [Utf8.decodeRune, Utf8.decode_bytes_append hgood, Utf8.decodeRune, hdecode]
      exact Prod.ext hvalue rfl

theorem matchChunk_bracket {n : ℕ} {chunk rest s : Bytes} {hit : Bool} (hs : s ≠ [])
    (hranges : matchRanges (Utf8.decodeRune s).1 (chunk.length + 1) true false
      (if decide (chunk.head? = some caret) then chunk.tail else chunk) = .ok (hit, rest))
    (hhit : hit ≠ decide (chunk.head? = some caret)) :
    matchChunk (n + 1) (openBracket :: chunk) (some s) =
      matchChunk n rest (some (s.drop (Utf8.decodeRune s).2)) := by
  have hsome : ¬ some s = some [] := fun heq => hs (Option.some_inj.mp heq)
  simp only [matchChunk, if_neg hsome, ite_true, Option.map_some, hranges]
  show matchChunk n rest (if hit = decide (chunk.head? = some caret) then none else _) = _
  rw [if_neg hhit]

theorem matchChunk_literal {n : ℕ} {c : UInt8} {chunk s : Bytes}
    (h : c ≠ openBracket ∧ c ≠ question ∧ c ≠ backslash) :
    matchChunk (n + 1) (c :: chunk) (some (c :: s)) = matchChunk n chunk (some s) := by
  simp only [matchChunk, if_neg h.1, if_neg h.2.1, if_neg h.2.2, Option.some_inj, reduceCtorEq,
    ite_false, Option.bind_some, matchByte, ite_true]

theorem matchChunk_escape {n : ℕ} {c : UInt8} {chunk s : Bytes} :
    matchChunk (n + 1) (backslash :: c :: chunk) (some (c :: s)) = matchChunk n chunk (some s) := by
  have hopen : backslash ≠ openBracket := by decide
  have hquestion : backslash ≠ question := by decide
  simp only [matchChunk, if_neg hopen, if_neg hquestion, Option.some_inj, reduceCtorEq, ite_false,
    ite_true, Option.bind_some, matchByte]

/-- `x` is a rune that a question mark matches. -/
theorem matchChunk_question {n : ℕ} {chunk s : Bytes} :
    matchChunk (n + 1) (question :: chunk) (some (0x78 :: s)) = matchChunk n chunk (some s) := by
  have hopen : question ≠ openBracket := by decide
  have hslash : (0x78 : UInt8) ≠ slash := by decide
  have hrune : (Utf8.decodeRune (0x78 :: s)).2 = 1 := by
    rw [Utf8.decodeRune, Utf8.decode_ascii (by decide)]
    rfl
  simp only [matchChunk, if_neg hopen, Option.some_inj, reduceCtorEq, ite_false, ite_true,
    Option.bind_some, List.head?_cons, if_neg hslash, hrune, List.drop_one, List.tail_cons]

/-- A chunk that matches something also matches a text below its own. -/
theorem exists_below {n : ℕ} {chunk s t : Bytes}
    (h : matchChunk n chunk (some s) = .ok (some t)) :
    ∃ w, Below w chunk ∧ ∀ t', matchChunk n chunk (some (w ++ t')) = .ok (some t') := by
  induction n generalizing chunk s with
  | zero =>
    cases chunk with
    | nil => exact ⟨[], below_self fun b hb => absurd hb List.not_mem_nil, fun t' => rfl⟩
    | cons c chunk => cases h
  | succ n ih =>
    cases chunk with
    | nil => exact ⟨[], below_self fun b hb => absurd hb List.not_mem_nil, fun t' => rfl⟩
    | cons c chunk =>
      rcases matchChunk_cases h with ⟨rfl, hs, hit, rest, hranges, hhit, hrest⟩ | ⟨rfl, s', hrest⟩ |
        ⟨rfl, c', chunk', s', rfl, hrest⟩ | ⟨hplain, s', hrest⟩
      · -- a class: any rune it matches is shorter than the class
        obtain ⟨w, hbelow, hw⟩ := ih hrest
        obtain ⟨r, hcount, hne, hrune⟩ := exists_rune hs
        obtain ⟨ranges, hchunk⟩ : closeBracket :: rest <:+ chunk := by
          refine (matchRanges_suffix hranges).trans ?_
          split_ifs
          · exact List.tail_suffix chunk
          · exact List.suffix_refl chunk
        refine ⟨r ++ w, ?_, fun t' => ?_⟩
        · have htext : openBracket :: chunk = (openBracket :: ranges ++ [closeBracket]) ++ rest := by
            rw [← hchunk]
            simp
          rw [htext]
          refine Below.append (.inl ?_) hbelow
          have hopen : heavy openBracket = true := by decide
          have hclose : heavy closeBracket = true := by decide
          simp only [List.cons_append, List.countP_cons, List.countP_append, hopen, hclose,
            List.countP_nil, ite_true]
          omega
        · have hread := hrune (w ++ t')
          have hnonempty : r ++ (w ++ t') ≠ [] := List.append_ne_nil_of_left_ne_nil hne _
          rw [List.append_assoc, matchChunk_bracket hnonempty (by rw [hread]; exact hranges) hhit,
            hread, List.drop_left]
          exact hw t'
      · obtain ⟨w, hbelow, hw⟩ := ih hrest
        refine ⟨0x78 :: w, Below.append (w := [0x78]) (u := [question]) ?_ hbelow, fun t' => ?_⟩
        · exact .inr ⟨by decide, by decide, by decide⟩
        · exact matchChunk_question.trans (hw t')
      · obtain ⟨w, hbelow, hw⟩ := ih hrest
        refine ⟨c' :: w, Below.append (w := [c']) (u := [backslash, c']) (.inl ?_) hbelow,
          fun t' => ?_⟩
        · have hback : heavy backslash = true := by decide
          rw [List.countP_cons_of_pos hback]
          exact Nat.lt_succ_self _
        · exact matchChunk_escape.trans (hw t')
      · obtain ⟨w, hbelow, hw⟩ := ih hrest
        have hc : Plain [c] := fun b hb => List.mem_singleton.mp hb ▸ hplain
        exact ⟨c :: w, Below.append (below_self hc) hbelow,
          fun t' => (matchChunk_literal hplain).trans (hw t')⟩

theorem matchLater_some {chunk name t : Bytes} {last : Bool}
    (h : matchLater chunk last name = .ok (some t)) :
    ∃ name', matchChunk chunk.length chunk (some name') = .ok (some t) := by
  induction name with
  | nil => cases h
  | cons b name ih =>
    rw [matchLater] at h
    split_ifs at h with hslash
    · cases h
    cases hmatch : matchChunk chunk.length chunk (some name) with
    | error e =>
      rw [hmatch] at h
      cases h
    | ok r =>
      rw [hmatch] at h
      cases r with
      | none => exact ih h
      | some t' =>
        change (if last = true ∧ t' ≠ [] then matchLater chunk last name else _) = _ at h
        by_cases hlast : last = true ∧ t' ≠ []
        · rw [if_pos hlast] at h
          exact ih h
        · rw [if_neg hlast] at h
          cases h
          exact ⟨name, hmatch⟩

/-- A name that matches is cut by the chunk of each round. -/
theorem matchFrom_cases {fuel : ℕ} {b : UInt8} {q chunk rest name : Bytes} {starred : Bool}
    (hscan : scanChunk (b :: q) = (starred, chunk, rest)) (hsome : ¬ (starred = true ∧ chunk = []))
    (h : matchFrom (fuel + 1) (b :: q) name = .ok true) :
    ∃ name' t, matchChunk chunk.length chunk (some name') = .ok (some t) ∧
      matchFrom fuel rest t = .ok true := by
  have hfail : (checkChunks fuel rest >>= fun _ => (pure false : Except MatchError Bool)) ≠
      .ok true := by
    cases checkChunks fuel rest <;> exact nofun
  rw [matchFrom, hscan] at h
  dsimp only at h
  rw [if_neg hsome] at h
  have hlater : (if starred = true then do
        let __do_lift ← matchLater chunk (decide (rest = [])) name
        match __do_lift with
          | some t => matchFrom fuel rest t
          | none => do
            checkChunks fuel rest
            pure false
      else do
        checkChunks fuel rest
        pure false) = .ok true → ∃ name' t,
      matchChunk chunk.length chunk (some name') = .ok (some t) ∧
        matchFrom fuel rest t = .ok true := by
    intro h
    split_ifs at h
    · cases hlater : matchLater chunk (decide (rest = [])) name with
      | error e =>
        rw [hlater] at h
        cases h
      | ok r =>
        rw [hlater] at h
        cases r with
        | none => exact absurd h hfail
        | some t =>
          obtain ⟨name', hmatch⟩ := matchLater_some hlater
          exact ⟨name', t, hmatch, h⟩
    · exact absurd h hfail
  cases hmatch : matchChunk chunk.length chunk (some name) with
  | error e =>
    rw [hmatch] at h
    cases h
  | ok r =>
    rw [hmatch] at h
    cases r with
    | none => exact hlater h
    | some t =>
      change (if t = [] ∨ rest ≠ [] then _ else _) = _ at h
      by_cases hgo : t = [] ∨ rest ≠ []
      · rw [if_pos hgo] at h
        exact ⟨name, t, hmatch, h⟩
      · rw [if_neg hgo] at h
        exact hlater h

theorem scanChunk_split (p : Bytes) : ∃ starred lead chunk rest,
    scanChunk p = (starred, chunk, rest) ∧ p = lead ++ (chunk ++ rest) := by
  refine ⟨_, p.takeWhile (· = star), _, _, rfl, ?_⟩
  rw [List.take_append_drop, List.takeWhile_append_dropWhile]

theorem below_nil (u : Bytes) : Below [] u := by
  refine .inr ⟨Nat.zero_le _, Nat.zero_le _, fun heq b hb => ?_⟩
  have hstar : b = star := by
    by_contra hne
    have hmem : b ∈ u.filter noStar := List.mem_filter.mpr ⟨hb, decide_eq_true hne⟩
    rw [← heq] at hmem
    cases hmem
  rw [hstar]
  decide

/-- A pattern that matches something also matches a name below its own text. -/
theorem exists_below_match {fuel : ℕ} {p name : Bytes} (h : matchFrom fuel p name = .ok true) :
    ∃ w, Below w p ∧ matchFrom fuel p w = .ok true := by
  induction fuel generalizing p name with
  | zero =>
    cases p with
    | nil => exact ⟨[], below_nil [], rfl⟩
    | cons b q => cases h
  | succ fuel ih =>
    cases p with
    | nil => exact ⟨[], below_nil [], rfl⟩
    | cons b q =>
      obtain ⟨starred, lead, chunk, rest, hscan, hsplit⟩ := scanChunk_split (b :: q)
      by_cases hsome : starred = true ∧ chunk = []
      · refine ⟨[], below_nil _, ?_⟩
        rw [matchFrom, hscan]
        dsimp only
        rw [if_pos hsome]
        rfl
      · obtain ⟨name', t, hmatch, hrest⟩ := matchFrom_cases hscan hsome h
        obtain ⟨w, hbelow, hw⟩ := exists_below hmatch
        obtain ⟨w', hbelow', hw'⟩ := ih hrest
        refine ⟨w ++ w', ?_, ?_⟩
        · rw [hsplit]
          exact (below_nil lead).append (hbelow.append hbelow')
        · have hgo : w' = [] ∨ rest ≠ [] := by
            by_cases hnil : rest = []
            · rw [hnil] at hw'
              cases fuel with
              | zero => exact .inl (of_decide_eq_true (Except.ok.inj hw'))
              | succ fuel => exact .inl (of_decide_eq_true (Except.ok.inj hw'))
            · exact .inr hnil
          rw [matchFrom_here hscan hsome (hw w') hgo]
          exact hw'

/-! ### The two together -/

/-- The text of a pattern without its stars is the shortest its glob accepts. -/
theorem literals_path (p : Bytes) : literals (Glob.path p) = p.filter noStar := by
  fun_induction Glob.path p with
  | case1 => rfl
  | case2 => rfl
  | case3 b hb => simp [literals, noStar, hb]
  | case4 p ih => exact ih
  | case5 c p hc ih => exact ih
  | case6 b c p hb ih => simp [literals, noStar, hb, ih]

/-- A pattern with an operator other than the star does not match as the glob it is
written as. -/
theorem plain_of_matchPath {p name : Bytes} (hmatch : matchPath p name = .ok true)
    (hglob : ∀ name, matchPath p name = .ok true → accepts (Glob.path p) name) : Plain p := by
  obtain ⟨w, hbelow, hw⟩ := exists_below_match hmatch
  have hsub := literals_sublist (hglob w hw)
  rw [literals_path] at hsub
  have hheavy : (p.filter noStar).countP heavy = p.countP heavy := by
    rw [List.countP_filter]
    refine List.countP_congr fun b _ => ?_
    simp only [heavy, noStar, Bool.and_eq_true]
    tauto
  have hcount : (p.filter noStar).countP heavy ≤ w.countP heavy := hsub.countP_le
  have hfilter := hsub.filter noStar
  simp only [List.filter_filter, Bool.and_self] at hfilter
  rcases hbelow with hlt | ⟨-, hlen, hplain⟩
  · omega
  · exact hplain (hfilter.eq_of_length_le hlen).symm

/-- A plain pattern without two stars in a row matches as the glob it is written as. -/
theorem matchPath_iff {p : Bytes} (hplain : Plain p) (hsingle : Single p) (name : Bytes) :
    matchPath p name = .ok true ↔ accepts (Glob.path p) name := by
  rw [matchPath, matchFrom_plain hplain hsingle (le_refl _), path_of_single hsingle,
    Except.ok.injEq]

end Path

end GoLib
