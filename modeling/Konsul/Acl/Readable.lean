import Konsul.Acl.Expressions
import Konsul.Lib.RegexpStates

/-!
# Patterns that compile

`MustCompile` panics on an expression that the parser refuses. The rewriting leaves the
backslashes of a pattern alone, and a backslash takes away the one that the rewriting puts
before a special character: a reader of patterns, which takes each symbol as the expression
has it, decides what compiles.
-/

namespace Konsul

open GoLib Utf8 Syntax

/-! ### The reader of patterns -/

namespace Pattern

section

variable {α : Type*} (text : α → List Char)

/-- The reader takes a symbol of a pattern. -/
def symbol (r : Reader) (o : α) : Option Reader := (text o).foldlM Reader.step r

/-- The pattern may end here: every group is closed, and the reader is in no class and in no
escape but an octal number. A backslash at the end stands before the anchor. -/
def closes (r : Reader) : Bool :=
  r.depth = 0 &&
    match r.mode with
    | .ready (.outside _) => true
    | .lazy => true
    | .escape (.outside _) => true
    | .octal (.outside _) _ _ => true
    | .quote _ => true
    | .quoteBack _ => true
    | _ => false

/-- A pattern that is read to its end. -/
def reads (us : List α) : Bool :=
  (us.foldlM (symbol text) ⟨0, .ready (.outside .item)⟩).any closes

variable {text}

theorem foldlM_symbol (us : List α) (r : Reader) :
    us.foldlM (symbol text) r = (us.flatMap text).foldlM Reader.step r := by
  induction us generalizing r with
  | nil => rfl
  | cons o us ih =>
    rw [List.foldlM_cons, List.flatMap_cons, List.foldlM_append]
    exact Option.bind_congr fun r' _ => ih r'

end

/-- The anchor at the end, of whose outcomes `f` accepts those where every group is closed. -/
theorem any_dollar {f : Reader → Bool}
    (houtside : ∀ d, f ⟨d, .ready (.outside .item)⟩ = decide (d = 0))
    (hquote : ∀ d, f ⟨d, .quote .item⟩ = decide (d = 0))
    (hitems : ∀ d, f ⟨d, .ready .items⟩ = false) (hlow : ∀ d, f ⟨d, .ready (.low '$')⟩ = false)
    (r : Reader) : (r.step '$').any f = closes r := by
  have hhyphen : ∀ (lo c : Char) (next : Place → Option Reader), (next .items).any f = false →
      (((Place.hyphen lo).char c).bind next).any f = false := by
    intro lo c next h
    rw [Place.char]
    split_ifs
    · rfl
    · exact h
  have hbare : ∀ d lo, (((Place.hyphen lo).char '$').map fun p => Reader.mk d (.ready p)).any f =
      false := by
    intro d lo
    rw [Option.map_eq_bind]
    exact hhyphen lo '$' _ (hitems d)
  have hopen : ∀ d, decide (d = 0) = (decide (d = 0) && true) := fun d => (Bool.and_true _).symm
  have hshut : ∀ d, false = (decide (d = 0) && false) := fun d => (Bool.and_false _).symm
  obtain ⟨d, mode⟩ := r
  cases mode with
  | ready p =>
    cases p with
    | outside behind => exact (houtside d).trans (hopen d)
    | items => exact (hlow d).trans (hshut d)
    | low lo => exact (hlow d).trans (hshut d)
    | hyphen lo => exact (hbare d lo).trans (hshut d)
  | lazy => exact (houtside d).trans (hopen d)
  | opened => exact (hlow d).trans (hshut d)
  | first => exact (hlow d).trans (hshut d)
  | escape p =>
    cases p with
    | outside behind => exact (houtside d).trans (hopen d)
    | items => exact (hlow d).trans (hshut d)
    | low lo => exact (hlow d).trans (hshut d)
    | hyphen lo => exact (hbare d lo).trans (hshut d)
  | category p => exact hshut d
  | octalDigit p n => exact hshut d
  | octal p more n =>
    have hstep : Reader.step ⟨d, .octal p more n⟩ '$' =
        (p.char (Char.ofNat n)).bind fun p => Reader.stepReady d p '$' := by
      cases more <;> rfl
    rw [hstep]
    cases p with
    | outside behind => exact (houtside d).trans (hopen d)
    | items => exact (hlow d).trans (hshut d)
    | low lo => exact (hlow d).trans (hshut d)
    | hyphen lo => exact (hhyphen lo _ (fun p => Reader.stepReady d p '$') (hlow d)).trans (hshut d)
  | hex p => exact hshut d
  | hexDigit p x => exact hshut d
  | quote behind => exact (hquote d).trans (hopen d)
  | quoteBack behind => exact (hquote d).trans (hopen d)

theorem accepting_dollar (r : Reader) : (r.step '$').any Reader.accepting = closes r :=
  any_dollar (fun _ => rfl) (fun _ => rfl) (fun _ => rfl) (fun _ => rfl) r

theorem closes_dollar (r : Reader) : (r.step '$').any closes = closes r :=
  any_dollar (fun _ => Bool.and_true _) (fun _ => Bool.and_true _) (fun _ => Bool.and_false _)
    (fun _ => Bool.and_false _) r

/-- The anchors of the pattern's own serve as well. -/
theorem run_anchored (expr : List Char) :
    Level.run ⟨0, .nothing⟩ (anchored expr) =
      (expr.foldlM Reader.step ⟨0, .ready (.outside .item)⟩).any closes := by
  have hcaret : ∀ t, Level.run ⟨0, .nothing⟩ ('^' :: t) =
      (t.foldlM Reader.step ⟨0, .ready (.outside .item)⟩).any Reader.accepting := fun _ => rfl
  have hlast : ∀ (f : Reader → Bool) (t : List Char) (r : Reader),
      ((t ++ ['$']).foldlM Reader.step r).any f =
        (t.foldlM Reader.step r).any fun r => (r.step '$').any f := by
    intro f t r
    rw [List.foldlM_append]
    cases t.foldlM Reader.step r with
    | none => rfl
    | some r' =>
      change ((r'.step '$' >>= pure).any f) = (r'.step '$').any f
      rw [bind_pure]
  obtain ⟨t, ht, hclose⟩ : ∃ t, (if ['^'] <+: expr then expr else '^' :: expr) = '^' :: t ∧
      (t.foldlM Reader.step ⟨0, .ready (.outside .item)⟩).any closes =
        (expr.foldlM Reader.step ⟨0, .ready (.outside .item)⟩).any closes := by
    by_cases hfront : ['^'] <+: expr
    · obtain ⟨t, rfl⟩ := hfront
      exact ⟨t, if_pos ⟨t, rfl⟩, rfl⟩
    · exact ⟨expr, if_neg hfront, rfl⟩
  simp only [anchored, ht]
  rw [← hclose]
  split_ifs with hsuffix
  · obtain ⟨w, hw⟩ := hsuffix
    cases w with
    | nil => cases hw
    | cons c w =>
      rw [List.cons_append] at hw
      obtain ⟨-, rfl⟩ := List.cons.inj hw
      simp only [hcaret, hlast, accepting_dollar, closes_dollar]
  · rw [List.cons_append, hcaret, hlast]
    simp only [accepting_dollar]

/-! ### Symbols outside classes and escapes -/

/-- Between two rounds of the parser. -/
def Outside (r : Reader) : Prop := r.mode = .lazy ∨ ∃ behind, r.mode = .ready (.outside behind)

theorem Outside.step {r : Reader} (h : Outside r) : ∃ behind, ∀ c ≠ '?',
    r.step c = Reader.stepOutside r.depth behind c := by
  obtain ⟨d, mode⟩ := r
  obtain rfl | ⟨behind, rfl⟩ := h
  · exact ⟨.repetition, fun c hc => if_neg hc⟩
  · exact ⟨behind, fun c _ => rfl⟩

/-- The reader goes on outside when it has read the text. -/
def StaysOutside (t : List Char) : Prop :=
  ∀ r, Outside r → ∃ r', t.foldlM Reader.step r = some r' ∧ Outside r' ∧ r'.depth = r.depth

theorem staysOutside_of_step {c : Char} {t : List Char} (hc : c ≠ '?')
    (h : ∀ d behind, ∃ mode, (Reader.stepOutside d behind c).bind (t.foldlM Reader.step ·) =
      some ⟨d, mode⟩ ∧ Outside ⟨d, mode⟩) : StaysOutside (c :: t) := by
  intro r hr
  obtain ⟨behind, hstep⟩ := hr.step
  obtain ⟨mode, hread, houtside⟩ := h r.depth behind
  refine ⟨⟨r.depth, mode⟩, ?_, houtside, rfl⟩
  rw [List.foldlM_cons, hstep c hc]
  exact hread

theorem staysOutside_escaped {c : Char} (hback : c ≠ '\\') (hstar : c ≠ '*') :
    StaysOutside (escaped c) := by
  rw [escaped]
  split_ifs with hspecial
  · refine staysOutside_of_step (by decide) fun d behind =>
      ⟨.ready (.outside .item), ?_, .inr ⟨.item, rfl⟩⟩
    simp only [specials, List.mem_cons, List.not_mem_nil, or_false] at hspecial
    rcases hspecial with rfl | rfl | rfl | rfl | rfl | rfl | rfl | rfl | rfl
    all_goals rfl
  · simp only [specials, List.mem_cons, List.not_mem_nil, or_false, not_or] at hspecial
    refine staysOutside_of_step hspecial.2.2.1 fun d behind => ?_
    by_cases hbar : c = '|'
    · exact ⟨.ready (.outside .nothing), by rw [hbar]; rfl, .inr ⟨.nothing, rfl⟩⟩
    · refine ⟨.ready (.outside .item), ?_, .inr ⟨.item, rfl⟩⟩
      simp [Reader.stepOutside, hspecial, hbar, hback, hstar]

theorem staysOutside_kvText {o : Option Char} (h : o ≠ some '\\') : StaysOutside (kvText o) := by
  cases o with
  | none =>
    exact staysOutside_of_step (by decide) fun d behind => ⟨.lazy, rfl, .inl rfl⟩
  | some c =>
    rw [kvText, Option.elim, kvChar]
    split_ifs with hstar
    · exact staysOutside_of_step (by decide) fun d behind => ⟨.lazy, rfl, .inl rfl⟩
    · exact staysOutside_escaped (fun heq => h (congrArg some heq)) hstar

theorem staysOutside_serviceText {c : Char} (h : c ≠ '\\') : StaysOutside (serviceText c) := by
  rw [serviceText]
  split_ifs with hstar
  · exact staysOutside_of_step (by decide) fun d behind => ⟨.lazy, rfl, .inl rfl⟩
  · exact staysOutside_escaped h hstar

theorem reads_of_staysOutside {α : Type*} {text : α → List Char} {us : List α}
    (h : ∀ o ∈ us, StaysOutside (text o)) : reads text us := by
  have hrun : ∀ r, Outside r → ∃ r', us.foldlM (symbol text) r = some r' ∧ Outside r' ∧
      r'.depth = r.depth := by
    induction us with
    | nil => exact fun r hr => ⟨r, rfl, hr, rfl⟩
    | cons o us ih =>
      rw [List.forall_mem_cons] at h
      intro r hr
      obtain ⟨r', hread, hr', hdepth⟩ := h.1 r hr
      obtain ⟨r'', hreads, hr'', hdepth'⟩ := ih h.2 r' hr'
      refine ⟨r'', ?_, hr'', hdepth'.trans hdepth⟩
      rw [List.foldlM_cons, symbol, hread]
      exact hreads
  obtain ⟨⟨d, mode⟩, hreads, hr, rfl⟩ := hrun ⟨0, .ready (.outside .item)⟩ (.inr ⟨.item, rfl⟩)
  rw [reads, hreads]
  obtain rfl | ⟨behind, rfl⟩ := hr <;> rfl

end Pattern

/-! ### Rules -/

/-- The path is a text that is read to its end, and its expression is within the limits. -/
structure KVRule.Readable (fits : GoString → Bool) (r : KVRule) : Prop where
  valid : Utf8.valid r.path
  reads : Pattern.reads kvText (kvSymbols (chars r.path))
  fits : fits r.compile

structure ServiceRule.Readable (fits : GoString → Bool) (r : ServiceRule) : Prop where
  valid : Utf8.valid r.name
  reads : Pattern.reads serviceText (chars r.name)
  fits : fits r.compile

section

variable {category : Char → Char → Bool} {fits : GoString → Bool}

theorem isSome_compile_anchored {α : Type*} (text : α → List Char) (us : List α) :
    (Syntax.compile category (anchored (us.flatMap text))).isSome = Pattern.reads text us := by
  rw [isSome_compile, Pattern.run_anchored, ← Pattern.foldlM_symbol]
  rfl

-- a group that is closed, and one that is not
example : Pattern.reads serviceText "api\\(a\\)".toList = true := by decide
example : Pattern.reads serviceText "api\\(a".toList = false := by decide

theorem KVRule.compiles_iff (r : KVRule) :
    (Regexp.go category fits).compiles r.compile ↔ r.Readable fits := by
  simp only [Regexp.go, Bool.and_eq_true, valid_kvCompile_iff]
  constructor
  · rintro ⟨⟨hvalid, hcompiles⟩, hfits⟩
    rw [chars_kvCompile hvalid, isSome_compile_anchored] at hcompiles
    exact ⟨hvalid, hcompiles, hfits⟩
  · rintro ⟨hvalid, hreads, hfits⟩
    rw [chars_kvCompile hvalid, isSome_compile_anchored]
    exact ⟨⟨hvalid, hreads⟩, hfits⟩

theorem ServiceRule.compiles_iff (r : ServiceRule) :
    (Regexp.go category fits).compiles r.compile ↔ r.Readable fits := by
  simp only [Regexp.go, Bool.and_eq_true, valid_serviceCompile_iff]
  constructor
  · rintro ⟨⟨hvalid, hcompiles⟩, hfits⟩
    rw [chars_serviceCompile hvalid, isSome_compile_anchored] at hcompiles
    exact ⟨hvalid, hcompiles, hfits⟩
  · rintro ⟨hvalid, hreads, hfits⟩
    rw [chars_serviceCompile hvalid, isSome_compile_anchored]
    exact ⟨⟨hvalid, hreads⟩, hfits⟩

/-- Only a backslash keeps a text from compiling. -/
theorem KVRule.readable_of_notMem {r : KVRule} (hvalid : Utf8.valid r.path)
    (hback : '\\' ∉ chars r.path) (hfits : fits r.compile) : r.Readable fits := by
  refine ⟨hvalid, Pattern.reads_of_staysOutside fun o ho => ?_, hfits⟩
  refine Pattern.staysOutside_kvText fun hsome => ?_
  rw [hsome] at ho
  have hmem := mem_of_mem_cut (List.cons_ne_nil _ _) ho
  have hall : ∀ c ∈ substitute (chars r.path) ['*', '*'] marker, c ≠ '\\' :=
    (forall_mem_substitute (List.cons_ne_nil _ _) (List.all_iff_forall_prop.mp (by decide))
      (List.all_iff_forall_prop.mp (by decide)) (chars r.path)).mpr fun c hc heq => hback (heq ▸ hc)
  exact hall '\\' hmem rfl

theorem ServiceRule.readable_of_notMem {r : ServiceRule} (hvalid : Utf8.valid r.name)
    (hback : '\\' ∉ chars r.name) (hfits : fits r.compile) : r.Readable fits := by
  refine ⟨hvalid, Pattern.reads_of_staysOutside fun c hc => ?_, hfits⟩
  refine Pattern.staysOutside_serviceText fun heq => ?_
  rw [heq] at hc
  exact hback hc

end

end Konsul
