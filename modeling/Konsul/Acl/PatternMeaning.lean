import Konsul.Acl.Patterns
import Konsul.Lib.MatchPath

/-!
# Patterns as globs

The guide gives the patterns of a policy as globs. A pattern that stands for itself is one
on the keys without newlines, and on all keys when it has no run that stands for a dot.
-/

namespace Konsul

open GoLib Utf8 Syntax

/-! ### The keys that a glob does not tell apart from others -/

section

variable {pattern : GoString} {glob : List (Glob.Item UInt8)}

theorem literals_name (pattern : GoString) :
    Glob.literals (Glob.name pattern) = pattern.filter Path.noStar := by
  induction pattern with
  | nil => rfl
  | cons b pattern ih =>
    rw [Glob.name, List.map_cons, ← Glob.name]
    by_cases hb : b = Path.star
    · rw [if_pos hb, Glob.literals, ih]
      simp [Path.noStar, hb]
    · rw [if_neg hb, Glob.literals, ih]
      simp [Path.noStar, hb]

/-- The engine reads a byte outside any sequence as U+FFFD. -/
theorem notMem_replacement (hglob : Glob.literals glob = pattern.filter Path.noStar)
    (hvalid : valid pattern) {found : List Char → Bool}
    (h : ∀ key, found (chars key) ↔ Glob.accepts glob key) :
    Char.ofNat 0xFFFD ∉ chars pattern := by
  intro hmem
  obtain ⟨r, hr, hchar⟩ := List.mem_map.mp hmem
  have hgood := (valid_iff pattern).mp hvalid r hr
  have hrep : r = .multi replacement := char_injective hgood (by decide) hchar
  obtain ⟨rs, qs, hdecode⟩ := List.append_of_mem hr
  have hpattern : pattern = encode rs ++ (replacement ++ encode qs) := by
    rw [← encode_decode pattern, hdecode, encode_append, hrep]
    rfl
  -- one byte in place of the three has the same characters
  have hfilter : Glob.literals glob = (encode rs).filter Path.noStar ++
      (replacement ++ (encode qs).filter Path.noStar) := by
    rw [hglob, hpattern, List.filter_append, List.filter_append]
    rfl
  have hchars : chars (Glob.literals glob) =
      chars ((encode rs).filter Path.noStar ++ 0xFF :: (encode qs).filter Path.noStar) := by
    rw [hfilter, chars_bad_append, chars_append _ (boundary_of_valid (by decide) (by decide) _)]
    exact congrArg _ (chars_bytes_append (r := .multi replacement) (by decide) _)
  have hfound := (h _).mpr (Glob.accepts_literals glob)
  rw [hchars] at hfound
  have hlength := (Glob.literals_sublist ((h _).mp hfound)).length_le
  rw [hfilter] at hlength
  simp only [List.length_append, List.length_cons, replacement] at hlength
  omega

/-- The runes of the operators. -/
def operatorRunes : List Rune := [.ascii 0x7C, .ascii 0x5E, .ascii 0x24]

theorem mem_operatorRunes_iff {r : Rune} (h : r.good) : r ∈ operatorRunes ↔ r.char ∈ operators := by
  have heq : ∀ b : UInt8, b < 0x80 → (r = .ascii b ↔ r.char = Char.ofNat b.toNat) := fun b hb =>
    ⟨fun heq => heq ▸ rfl, fun heq => char_injective (q := .ascii b) h (decide_eq_true hb) heq⟩
  simp only [operatorRunes, List.mem_cons, List.not_mem_nil, or_false, heq 0x7C (by decide),
    heq 0x5E (by decide), heq 0x24 (by decide), operators]
  rfl

/-- A letter in place of the operators. -/
def blur (c : Char) : Char := if c ∈ operators then 'x' else c

def blurRune (r : Rune) : Rune := if r ∈ operatorRunes then .ascii 0x78 else r

theorem good_blurRune {r : Rune} (h : r.good) : (blurRune r).good := by
  rw [blurRune]
  split_ifs
  · decide
  · exact h

theorem char_blurRune {r : Rune} (h : r.good) : (blurRune r).char = blur r.char := by
  rw [blurRune, blur]
  by_cases hr : r ∈ operatorRunes
  · rw [if_pos hr, if_pos ((mem_operatorRunes_iff h).mp hr)]
    rfl
  · rw [if_neg hr, if_neg fun hc => hr ((mem_operatorRunes_iff h).mpr hc)]

theorem notMem_map_blurRune {r : Rune} (hr : r ∈ operatorRunes) (rs : List Rune) :
    r ∉ rs.map blurRune := by
  intro hmem
  obtain ⟨q, -, hq⟩ := List.mem_map.mp hmem
  rw [blurRune] at hq
  split_ifs at hq with hop
  · exact absurd (hq ▸ hr) (by decide)
  · exact hop (hq ▸ hr)

theorem filter_encode {rs : List Rune} (hrs : ∀ r ∈ rs, r ∈ decode pattern) :
    (encode rs).filter Path.noStar = encode (rs.filter (· ≠ Glob.starRune)) := by
  induction rs with
  | nil => rfl
  | cons r rs ih =>
    rw [List.forall_mem_cons] at hrs
    have hstar := Glob.star_mem_bytes_iff hrs.1
    rw [encode, List.flatMap_cons, List.filter_append, ← encode, ih hrs.2]
    by_cases hr : r = Glob.starRune
    · rw [hr, List.filter_cons_of_neg (by simp)]
      rfl
    · have hall : r.bytes.filter Path.noStar = r.bytes :=
        List.filter_eq_self.mpr fun b hb => decide_eq_true fun heq => hr (hstar.mp (heq ▸ hb))
      rw [hall, List.filter_cons_of_pos (by simpa using hr)]
      rfl

/-- An expression that does not tell operators from letters does not match them. -/
theorem notMem_operators (hglob : Glob.literals glob = pattern.filter Path.noStar)
    (hvalid : valid pattern) {re : Re} (hblind : re.Blind blur)
    (h : ∀ key, re.found (chars key) ↔ Glob.accepts glob key) :
    ∀ c ∈ operators, c ∉ chars pattern := by
  intro c hc hmem
  obtain ⟨r, hr, rfl⟩ := List.mem_map.mp hmem
  have hgood := (valid_iff pattern).mp hvalid
  have hop := (mem_operatorRunes_iff (hgood r hr)).mpr hc
  have hstar : r ≠ Glob.starRune := fun heq => absurd (heq ▸ hop) (by decide)
  -- the shortest key that the glob accepts, and the same key with letters for operators
  have hliterals := filter_encode fun r (hr : r ∈ decode pattern) => hr
  rw [encode_decode, ← hglob] at hliterals
  have hrs : ∀ q ∈ (decode pattern).filter (· ≠ Glob.starRune), q.good := fun q hq =>
    hgood q (List.mem_filter.mp hq).1
  have hblurred : ∀ q ∈ ((decode pattern).filter (· ≠ Glob.starRune)).map blurRune, q.good := by
    intro q hq
    obtain ⟨q', hq', rfl⟩ := List.mem_map.mp hq
    exact good_blurRune (hrs q' hq')
  have hfound := hblind.found ((h _).mpr (Glob.accepts_literals glob))
  have hchars : (chars (Glob.literals glob)).map blur =
      chars (encode (((decode pattern).filter (· ≠ Glob.starRune)).map blurRune)) := by
    rw [chars_encode hblurred, hliterals, chars_encode hrs, List.map_map, List.map_map]
    exact List.map_congr_left fun q hq => (char_blurRune (hrs q hq)).symm
  rw [hchars, h] at hfound
  have hsub := Glob.literals_sublist hfound
  obtain ⟨b, hb, rfl⟩ : ∃ b, b < 0x80 ∧ r = .ascii b := by
    simp only [operatorRunes, List.mem_cons, List.not_mem_nil, or_false] at hop
    rcases hop with rfl | rfl | rfl
    · exact ⟨_, by decide, rfl⟩
    · exact ⟨_, by decide, rfl⟩
    · exact ⟨_, by decide, rfl⟩
  have hin : b ∈ Glob.literals glob := by
    rw [hliterals]
    exact List.mem_flatMap.mpr ⟨.ascii b, List.mem_filter.mpr ⟨hr, decide_eq_true hstar⟩,
      List.mem_singleton_self b⟩
  obtain ⟨q, hq, hbq⟩ := List.mem_flatMap.mp (hsub.subset hin)
  have hqdecode : q ∈ decode (encode
      (((decode pattern).filter (· ≠ Glob.starRune)).map blurRune)) := by
    rw [decode_encode' hblurred]
    exact hq
  rw [mem_bytes_iff hb hqdecode] at hbq
  exact notMem_map_blurRune hop _ (hbq ▸ hq)

end

/-- The tokens of a guarded pattern do not tell operators from letters. -/
theorem blind_symbolTokens (o : Option Char) : ∀ token ∈ symbolTokens o, token.Blind blur := by
  have hrun : ∀ ok : Char → Bool, ok 'x' → ∀ token ∈ starred ok, token.Blind blur := by
    intro ok hx
    refine List.forall_mem_cons.mpr ⟨fun c hc => ?_, List.forall_mem_singleton.mpr trivial⟩
    rw [blur]
    split_ifs
    · exact hx
    · exact hc
  cases o with
  | none => exact hrun notNewline (by decide)
  | some c =>
    rw [symbolTokens]
    split_ifs with hstar hop
    · exact hrun notSlash (by decide)
    · intro token htoken
      have hall : ∀ c ∈ operators, ∀ token, operator c = some token → token.Blind blur := by
        intro c hc token htoken
        simp only [operators, List.mem_cons, List.not_mem_nil, or_false] at hc
        rcases hc with rfl | rfl | rfl <;> cases htoken <;> exact trivial
      exact hall c hop token (Option.mem_toList.mp htoken)
    · refine List.forall_mem_singleton.mpr fun d hd => ?_
      obtain rfl := of_decide_eq_true hd
      rw [blur, if_neg hop]
      exact decide_eq_true rfl

theorem blind_compile {category : Char → Char → Bool} {us : List (Option Char)} {re : Re}
    (hguarded : GuardedSymbols us)
    (h : Syntax.compile category (anchored (us.flatMap kvText)) = some re) : re.Blind blur := by
  obtain ⟨front, back, hexpr, hfront, hback⟩ := anchored_cases (us.flatMap kvText)
  obtain ⟨tokens', htokens, hblind⟩ : ∃ ts,
      tokens category (us.flatMap kvText ++ back) = some ts ∧ ∀ token ∈ ts, token.Blind blur := by
    have hall : ∀ token ∈ us.flatMap symbolTokens, token.Blind blur := by
      intro token htoken
      obtain ⟨o, -, ho⟩ := List.mem_flatMap.mp htoken
      exact blind_symbolTokens o token ho
    rcases hback with rfl | rfl
    · refine ⟨us.flatMap symbolTokens ++ [], ?_, ?_⟩
      · rw [tokens_symbols hguarded (by decide)]
        rfl
      · rwa [List.append_nil]
    · refine ⟨us.flatMap symbolTokens ++ [.item .endText], ?_, ?_⟩
      · rw [tokens_symbols hguarded (by decide)]
        rfl
      · exact List.forall_mem_append.mpr ⟨hall, List.forall_mem_singleton.mpr trivial⟩
  rw [compile_eq, hexpr] at h
  rcases hfront with rfl | rfl
  · rw [List.nil_append, htokens] at h
    exact blind_parse hblind h
  · have hcaret : operator '^' = some (.item .beginText) := rfl
    rw [List.singleton_append, tokens_operator hcaret, htokens] at h
    exact blind_parse (List.forall_mem_cons.mpr
      ⟨show Token.Blind blur (.item .beginText) from trivial, hblind⟩) h

/-! ### Runs that stand for dots -/

/-- The slashes with a newline behind them. -/
def gaps : List Char → ℕ
  | c :: d :: t => (if c = '/' ∧ d = '\n' then 1 else 0) + gaps (d :: t)
  | _ => 0

theorem gaps_append (u v : List Char) :
    gaps (u ++ v) =
      gaps u + (if u.getLast? = some '/' ∧ v.head? = some '\n' then 1 else 0) + gaps v := by
  fun_induction gaps u with
  | case1 c d t ih =>
    rw [List.cons_append, List.cons_append, gaps, ← List.cons_append, ih, List.getLast?_cons_cons]
    omega
  | case2 u h =>
    match u, h with
    | [], _ => simp
    | [c], _ =>
      cases v with
      | nil => simp [gaps]
      | cons d v => simp [gaps]
    | c :: d :: t, h => exact absurd rfl (h c d t)

theorem gaps_append_le (u v : List Char) : gaps (u ++ v) ≤ gaps u + gaps v + 1 := by
  rw [gaps_append]
  split_ifs <;> omega

theorem le_gaps_append (u v : List Char) : gaps u + gaps v ≤ gaps (u ++ v) := by
  rw [gaps_append]
  omega

theorem gaps_of_forall {ok : Char → Bool} (hok : ok '/' = false ∨ ok '\n' = false) {u : List Char}
    (h : ∀ c ∈ u, ok c) : gaps u = 0 := by
  fun_induction gaps u with
  | case1 c d t ih =>
    rw [List.forall_mem_cons] at h
    rw [ih h.2, if_neg]
    rintro ⟨rfl, rfl⟩
    have hd := h.2 '\n' List.mem_cons_self
    rcases hok with hok | hok
    · exact absurd (hok.symm.trans h.1) (by decide)
    · exact absurd (hok.symm.trans hd) (by decide)
  | case2 => rfl

/-- The expression gives a gap no place but between two items. -/
theorem gaps_le {us : List (Option Char)} {t : List Char}
    (h : Glob.accepts (us.map symbolItem) t) : gaps t ≤ us.length := by
  induction us generalizing t with
  | nil =>
    rw [(Glob.accepts_nil_iff t).mp h]
    exact le_refl _
  | cons o us ih =>
    have hone : ∃ u v, t = u ++ v ∧ gaps u = 0 ∧ Glob.accepts (us.map symbolItem) v := by
      rw [List.map_cons] at h
      cases o with
      | none =>
        obtain ⟨u, v, rfl, hu, hv⟩ := (Glob.accepts_run_iff _ _ _).mp h
        exact ⟨u, v, rfl, gaps_of_forall (.inr (by decide)) hu, hv⟩
      | some c =>
        rw [symbolItem] at h
        split_ifs at h
        · obtain ⟨u, v, rfl, hu, hv⟩ := (Glob.accepts_run_iff _ _ _).mp h
          exact ⟨u, v, rfl, gaps_of_forall (.inl (by decide)) hu, hv⟩
        · obtain ⟨v, rfl, hv⟩ := (Glob.accepts_lit_iff _ _ _).mp h
          exact ⟨[c], v, rfl, rfl, hv⟩
    obtain ⟨u, v, rfl, hu, hv⟩ := hone
    have := gaps_append_le u v
    have := ih hv
    rw [List.length_cons]
    omega

/-- A text for each symbol, with gaps where any text may stand. -/
def filled (n : ℕ) : Option Char → List Char
  | none => (List.replicate n ['/', '\n']).flatten
  | some c => if c = '*' then [] else [c]

theorem le_gaps_replicate (n : ℕ) : n ≤ gaps (List.replicate n ['/', '\n']).flatten := by
  induction n with
  | zero => exact Nat.zero_le _
  | succ n ih =>
    have := le_gaps_append ['/', '\n'] (List.replicate n ['/', '\n']).flatten
    have hone : gaps ['/', '\n'] = 1 := by decide
    rw [List.replicate_succ, List.flatten_cons]
    omega

theorem accepts_filled (n : ℕ) (us : List (Option Char)) :
    Glob.accepts (us.map Glob.charItem) (us.flatMap (filled n)) := by
  induction us with
  | nil => rfl
  | cons o us ih =>
    rw [List.map_cons, List.flatMap_cons]
    cases o with
    | none => exact (Glob.accepts_run_iff _ _ _).mpr ⟨_, _, rfl, fun _ _ => rfl, ih⟩
    | some c =>
      rw [Glob.charItem, filled]
      split_ifs
      · exact (Glob.accepts_run_iff _ _ _).mpr
          ⟨[], _, rfl, fun c hc => absurd hc List.not_mem_nil, ih⟩
      · exact (Glob.accepts_lit_iff _ _ _).mpr ⟨_, rfl, ih⟩

theorem le_gaps_filled {n : ℕ} {us : List (Option Char)} (h : none ∈ us) :
    n ≤ gaps (us.flatMap (filled n)) := by
  induction us with
  | nil => exact absurd h List.not_mem_nil
  | cons o us ih =>
    have happend := le_gaps_append (filled n o) (us.flatMap (filled n))
    rw [List.flatMap_cons]
    rcases List.mem_cons.mp h with rfl | h
    · have := le_gaps_replicate n
      rw [filled] at happend ⊢
      omega
    · have := ih h
      omega

/-- Without newlines in its runs a pattern accepts less than its glob. -/
theorem none_notMem {us : List (Option Char)} (hgood : ∀ c, some c ∈ us → ∃ r : Rune, r.good ∧ r.char = c)
    (h : ∀ key, Glob.accepts (us.map symbolItem) (chars key) ↔
      Glob.accepts (us.map Glob.charItem) (chars key)) : none ∉ us := by
  intro hmem
  have hchars : ∀ c ∈ us.flatMap (filled (us.length + 1)), ∃ r : Rune, r.good ∧ r.char = c := by
    intro c hc
    obtain ⟨o, ho, hco⟩ := List.mem_flatMap.mp hc
    cases o with
    | none =>
      obtain ⟨l, hl, hcl⟩ := List.mem_flatten.mp hco
      rw [List.eq_of_mem_replicate hl] at hcl
      rcases List.mem_cons.mp hcl with rfl | hcl
      · exact ⟨.ascii 0x2F, by decide, rfl⟩
      · rw [List.mem_singleton.mp hcl]
        exact ⟨.ascii 0x0A, by decide, rfl⟩
    | some d =>
      rw [filled] at hco
      split_ifs at hco
      · exact absurd hco List.not_mem_nil
      · rw [List.mem_singleton.mp hco]
        exact hgood d ho
  obtain ⟨key, hkey⟩ := exists_chars hchars
  have haccepts := accepts_filled (us.length + 1) us
  rw [← hkey, ← h, hkey] at haccepts
  have := gaps_le haccepts
  have := le_gaps_filled (n := us.length + 1) hmem
  omega

/-! ### The rules -/

/-- The pattern compiles, and matches the keys its glob accepts. -/
structure KVRule.MeansGlob (re : Regexp) (r : KVRule) : Prop where
  compiles : re.compiles r.compile
  isMatch_iff : ∀ key, r.isMatch re key ↔ Glob.accepts (Glob.path r.path) key

structure ServiceRule.MeansGlob (re : Regexp) (r : ServiceRule) : Prop where
  compiles : re.compiles r.compile
  isMatch_iff : ∀ name, r.isMatch re name ↔ Glob.accepts (Glob.name r.name) name

/-- A pattern that stands for itself, without the marker and without two stars in a row,
whose expression is within the limits. -/
structure KVRule.Plain (fits : GoString → Bool) (r : KVRule) : Prop where
  verbatim : Verbatim r.path
  unmarked : Unmarked (chars r.path)
  single : ¬ ['*', '*'] <:+: chars r.path
  fits : fits r.compile

/-- A pattern that stands for itself and has no star. -/
structure ServiceRule.Plain (fits : GoString → Bool) (r : ServiceRule) : Prop where
  verbatim : Verbatim r.name
  starless : '*' ∉ chars r.name
  fits : fits r.compile

section

variable {category : Char → Char → Bool} {fits : GoString → Bool}

theorem accepts_service_iff {pattern : GoString} (h : Glob.Literal pattern) (name : GoString) :
    Glob.accepts (Glob.name pattern) name ↔
      Glob.accepts (((chars pattern).map serviceSymbol).map Glob.charItem) (chars name) := by
  rw [Glob.accepts_name_iff h, List.map_map]
  rfl

theorem KVRule.isMatch_iff_of_lines {r : KVRule} (h : Verbatim r.path)
    (hunmarked : Unmarked (chars r.path)) {key : GoString} (hkey : '\n' ∉ chars key) :
    r.isMatch (Regexp.go category fits) key ↔ Glob.accepts (Glob.path r.path) key := by
  rw [(kv_spec h hunmarked).2 key, Glob.accepts_path_iff h.literal]
  exact accepts_congr (P := fun c => c ≠ '\n') (fun _ _ _ c hc => decide_eq_true hc)
    fun c hc heq => hkey (heq ▸ hc)

theorem KVRule.meansGlob_of_plain {r : KVRule} (h : r.Plain fits) :
    r.MeansGlob (Regexp.go category fits) := by
  obtain ⟨hcompiles, hmatch⟩ := @kv_spec category fits r h.verbatim h.unmarked
  refine ⟨hcompiles.mpr h.fits, fun key => ?_⟩
  rw [hmatch, Glob.accepts_path_iff h.verbatim.literal]
  refine accepts_congr (P := fun _ => True) (fun o ho hnone => ?_) fun _ _ => trivial
  exact absurd ((none_mem_cut_iff (List.cons_ne_nil _ _)).mp (hnone ▸ ho)) h.single

theorem ServiceRule.isMatch_iff_of_lines {r : ServiceRule} (h : Verbatim r.name)
    {name : GoString} (hname : '\n' ∉ chars name) :
    r.isMatch (Regexp.go category fits) name ↔ Glob.accepts (Glob.name r.name) name := by
  rw [(service_spec h).2 name, accepts_service_iff h.literal]
  exact accepts_congr (P := fun c => c ≠ '\n') (fun _ _ _ c hc => decide_eq_true hc)
    fun c hc heq => hname (heq ▸ hc)

theorem ServiceRule.meansGlob_of_plain {r : ServiceRule} (h : r.Plain fits) :
    r.MeansGlob (Regexp.go category fits) := by
  obtain ⟨hcompiles, hmatch⟩ := @service_spec category fits r h.verbatim
  refine ⟨hcompiles.mpr h.fits, fun name => ?_⟩
  rw [hmatch, accepts_service_iff h.verbatim.literal]
  refine accepts_congr (P := fun _ => True) (fun o ho hnone => ?_) fun _ _ => trivial
  obtain ⟨c, hc, hsymbol⟩ := List.mem_map.mp (hnone ▸ ho)
  rw [serviceSymbol] at hsymbol
  split_ifs at hsymbol with hstar
  exact absurd (hstar ▸ hc) h.starless

/-- What is matched is what an expression that compiles finds. -/
theorem go_found {expr : GoString} (h : (Regexp.go category fits).compiles expr) :
    valid expr ∧ fits expr ∧ ∃ re, Syntax.compile category (chars expr) = some re ∧
      ∀ key, (Regexp.go category fits).matchString expr key = re.found (chars key) := by
  simp only [Regexp.go, Bool.and_eq_true, Option.isSome_iff_exists] at h
  obtain ⟨⟨hvalid, re, hre⟩, hfits⟩ := h
  exact ⟨hvalid, hfits, re, hre, fun key => by simp [Regexp.go, hre]⟩

theorem KVRule.plain_of_meansGlob {r : KVRule} (hguarded : Guarded (chars r.path))
    (hunmarked : Unmarked (chars r.path)) (h : r.MeansGlob (Regexp.go category fits)) :
    r.Plain fits := by
  obtain ⟨hvalid, hfits, re, hre, hfound⟩ := go_found h.compiles
  rw [valid_kvCompile_iff] at hvalid
  have hmatch : ∀ key, re.found (chars key) ↔ Glob.accepts (Glob.path r.path) key := fun key => by
    rw [← hfound]
    exact h.isMatch_iff key
  rw [chars_kvCompile hvalid, kvSymbols_of_unmarked hunmarked] at hre
  have hliterals := Path.literals_path r.path
  have hverbatim : Verbatim r.path :=
    ⟨⟨hvalid, notMem_replacement hliterals hvalid hmatch⟩, hguarded,
      notMem_operators hliterals hvalid (blind_compile (guardedSymbols_cut hguarded) hre) hmatch⟩
  refine ⟨hverbatim, hunmarked, fun hinfix => ?_, hfits⟩
  refine @none_notMem (cut ['*', '*'] 0 (chars r.path)) (fun c hc => ?_) (fun key => ?_)
    ((none_mem_cut_iff (List.cons_ne_nil _ _)).mpr hinfix)
  · obtain ⟨q, hq, rfl⟩ := List.mem_map.mp (mem_of_mem_cut (List.cons_ne_nil _ _) hc)
    exact ⟨q, (valid_iff r.path).mp hvalid q hq, rfl⟩
  · rw [← (kv_spec hverbatim hunmarked).2 key, ← Glob.accepts_path_iff hverbatim.literal]
    exact h.isMatch_iff key

theorem ServiceRule.plain_of_meansGlob {r : ServiceRule} (hguarded : Guarded (chars r.name))
    (h : r.MeansGlob (Regexp.go category fits)) : r.Plain fits := by
  obtain ⟨hvalid, hfits, re, hre, hfound⟩ := go_found h.compiles
  rw [valid_serviceCompile_iff] at hvalid
  have hmatch : ∀ name, re.found (chars name) ↔ Glob.accepts (Glob.name r.name) name := fun name => by
    rw [← hfound]
    exact h.isMatch_iff name
  rw [chars_serviceCompile_symbols hvalid] at hre
  have hliterals := literals_name r.name
  have hverbatim : Verbatim r.name :=
    ⟨⟨hvalid, notMem_replacement hliterals hvalid hmatch⟩, hguarded,
      notMem_operators hliterals hvalid (blind_compile (guardedSymbols_service hguarded) hre) hmatch⟩
  refine ⟨hverbatim, fun hstar => ?_, hfits⟩
  refine @none_notMem ((chars r.name).map serviceSymbol) (fun c hc => ?_) (fun name => ?_)
    (List.mem_map.mpr ⟨'*', hstar, rfl⟩)
  · obtain ⟨d, hd, hdc⟩ := List.mem_map.mp hc
    rw [serviceSymbol] at hdc
    split_ifs at hdc
    cases hdc
    obtain ⟨q, hq, rfl⟩ := List.mem_map.mp hd
    exact ⟨q, (valid_iff r.name).mp hvalid q hq, rfl⟩
  · rw [← (service_spec hverbatim).2 name, ← accepts_service_iff hverbatim.literal]
    exact h.isMatch_iff name

end

/-- Plain patterns mean their globs; of the patterns whose backslashes stand before closing
characters, and that do not hold the marker, no others do. -/
theorem patterns_mean_globs (category : Char → Char → Bool) (fits : GoString → Bool) :
    (∀ r : KVRule, r.Plain fits → r.MeansGlob (Regexp.go category fits)) ∧
    (∀ r : ServiceRule, r.Plain fits → r.MeansGlob (Regexp.go category fits)) ∧
    (∀ r : KVRule, Guarded (chars r.path) → Unmarked (chars r.path) →
      r.MeansGlob (Regexp.go category fits) → r.Plain fits) ∧
    (∀ r : ServiceRule, Guarded (chars r.name) →
      r.MeansGlob (Regexp.go category fits) → r.Plain fits) ∧
    (∀ r : KVRule, Verbatim r.path → Unmarked (chars r.path) → ∀ key, '\n' ∉ chars key →
      (r.isMatch (Regexp.go category fits) key ↔ Glob.accepts (Glob.path r.path) key)) ∧
    ∀ r : ServiceRule, Verbatim r.name → ∀ name, '\n' ∉ chars name →
      (r.isMatch (Regexp.go category fits) name ↔ Glob.accepts (Glob.name r.name) name) :=
  ⟨fun _ => KVRule.meansGlob_of_plain, fun _ => ServiceRule.meansGlob_of_plain,
    fun _ hguarded hunmarked => KVRule.plain_of_meansGlob hguarded hunmarked,
    fun _ => ServiceRule.plain_of_meansGlob,
    fun _ h hunmarked _ => KVRule.isMatch_iff_of_lines h hunmarked,
    fun _ h _ => ServiceRule.isMatch_iff_of_lines h⟩

theorem patterns_mean_globs_app :
    KVRule.MeansGlob (Regexp.go (fun _ _ => false) fun _ => true) ⟨str "app/*", []⟩ :=
  (patterns_mean_globs (fun _ _ => false) fun _ => true).1 ⟨str "app/*", []⟩
    ⟨⟨⟨by decide, by decide⟩, rfl, List.all_iff_forall_prop.mp (by decide)⟩,
      ⟨by decide, by decide⟩, by decide, rfl⟩

def eitherRule : KVRule := ⟨str "a|b", [Capability.read]⟩

/-- Each alternative of an expression has one anchor only. -/
theorem alternation_escapes_anchors :
    ¬ ∀ r : KVRule, r.MeansGlob (Regexp.go (fun _ _ => false) fun _ => true) := by
  intro h
  have haccepts := ((h eitherRule).isMatch_iff (str "axx")).mp (by decide)
  exact absurd haccepts (by decide)

end Konsul
