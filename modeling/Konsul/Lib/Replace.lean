import Konsul.Lib.Strings

/-!
# Replacements

`strings.ReplaceAll` replaces the occurrences it meets from left to right. They are a cut
of the text; a map that leaves the letters of the old text alone, and puts none of them
elsewhere, commutes with it. On runes the function does what it does on bytes.
-/

namespace GoLib

section

variable {α : Type*}

/-- What a replacement writes for a letter or an occurrence. -/
def written (new : List α) : Option α → List α
  | none => new
  | some a => [a]

@[simp] theorem written_none (new : List α) : written new none = new := rfl
@[simp] theorem written_some (new : List α) (a : α) : written new (some a) = [a] := rfl

theorem flatMap_written (u new : List α) : (u.map some).flatMap (written new) = u := by
  induction u with
  | nil => rfl
  | cons a u ih => rw [List.map_cons, List.flatMap_cons, ih]; rfl

theorem not_prefix_of_ne {old u : List α} {a : α} (hold : old ≠ []) (h : old.head? ≠ some a) :
    ¬ old <+: a :: u := by
  obtain ⟨b, v, rfl⟩ := List.exists_cons_of_ne_nil hold
  rintro ⟨w, hw⟩
  rw [List.cons_append, List.cons.injEq] at hw
  exact h (congrArg some hw.1)

variable [DecidableEq α]

/-- The occurrences from left to right (`none`), and the letters around them; the counter
runs over the rest of an occurrence. -/
def cut (old : List α) : ℕ → List α → List (Option α)
  | _, [] => []
  | skip + 1, _ :: s => cut old skip s
  | 0, a :: s =>
    if old.isPrefixOf (a :: s) then none :: cut old (old.length - 1) s
    else some a :: cut old 0 s

/-- `strings.ReplaceAll` on lists of any letters. -/
def substitute (s old new : List α) : List α := (cut old 0 s).flatMap (written new)

theorem cut_drop (old u s : List α) : cut old u.length (u ++ s) = cut old 0 s := by
  induction u with
  | nil => rfl
  | cons a u ih => exact ih

theorem cut_occurrence {old : List α} (hold : old ≠ []) (s : List α) :
    cut old 0 (old ++ s) = none :: cut old 0 s := by
  obtain ⟨a, u, rfl⟩ := List.exists_cons_of_ne_nil hold
  have hpre : (a :: u).isPrefixOf (a :: (u ++ s)) = true :=
    List.isPrefixOf_iff_prefix.mpr (List.prefix_append (a :: u) s)
  rw [List.cons_append, cut, if_pos hpre, List.length_cons, Nat.add_sub_cancel, cut_drop]

theorem cut_letter {old s : List α} {a : α} (h : ¬ old <+: a :: s) :
    cut old 0 (a :: s) = some a :: cut old 0 s := by
  rw [cut, if_neg]
  rwa [List.isPrefixOf_iff_prefix]

/-- A text is empty, or starts with an occurrence, or with another letter. -/
theorem cut_induction {old : List α} (hold : old ≠ []) {P : List α → Prop} (nil : P [])
    (occurrence : ∀ s, P s → P (old ++ s)) (letter : ∀ a s, ¬ old <+: a :: s → P s → P (a :: s))
    (s : List α) : P s := by
  induction hn : s.length using Nat.strong_induction_on generalizing s with
  | _ n ih =>
    by_cases hpre : old <+: s
    · obtain ⟨t, rfl⟩ := hpre
      have hpos : 0 < old.length := List.length_pos_of_ne_nil hold
      rw [List.length_append] at hn
      exact occurrence t (ih t.length (by omega) t rfl)
    · cases s with
      | nil => exact nil
      | cons a s =>
        rw [List.length_cons] at hn
        exact letter a s hpre (ih s.length (by omega) s rfl)

/-- No occurrence starts at these letters. -/
theorem cut_append {old u : List α} (hold : old ≠ []) (h : ∀ a ∈ u, old.head? ≠ some a)
    (s : List α) : cut old 0 (u ++ s) = u.map some ++ cut old 0 s := by
  induction u with
  | nil => rfl
  | cons a u ih =>
    rw [List.forall_mem_cons] at h
    rw [List.cons_append, cut_letter (not_prefix_of_ne hold h.1), ih h.2]
    rfl

theorem cut_singleton (a : α) (s : List α) :
    cut [a] 0 s = s.map fun b => if b = a then none else some b := by
  induction s with
  | nil => rfl
  | cons b s ih =>
    rw [List.map_cons]
    split_ifs with hb
    · rw [hb, ← ih]
      exact cut_occurrence (List.cons_ne_nil a []) s
    · rw [← ih]
      refine cut_letter fun ⟨t, ht⟩ => hb ?_
      exact (List.cons.inj ht).1.symm

theorem none_mem_cut_iff {old : List α} (hold : old ≠ []) {s : List α} :
    none ∈ cut old 0 s ↔ old <:+: s := by
  induction s using cut_induction hold with
  | nil => exact iff_of_false List.not_mem_nil fun h => hold (List.eq_nil_of_infix_nil h)
  | occurrence s ih =>
    rw [cut_occurrence hold]
    exact iff_of_true List.mem_cons_self (List.prefix_append old s).isInfix
  | letter a s hpre ih =>
    rw [cut_letter hpre, List.mem_cons, ih, List.infix_cons_iff]
    exact ⟨fun h => .inr (h.resolve_left nofun), fun h => .inr (h.resolve_left hpre)⟩

theorem mem_of_mem_cut {old s : List α} (hold : old ≠ []) {a : α} (h : some a ∈ cut old 0 s) :
    a ∈ s := by
  induction s using cut_induction hold with
  | nil => exact absurd h List.not_mem_nil
  | occurrence s ih =>
    rw [cut_occurrence hold] at h
    rcases List.mem_cons.mp h with h | h
    · cases h
    · exact List.mem_append_right old (ih h)
  | letter b s hpre ih =>
    rw [cut_letter hpre] at h
    rcases List.mem_cons.mp h with h | h
    · cases h
      exact List.mem_cons_self
    · exact List.mem_cons_of_mem b (ih h)

theorem substitute_occurrence {old : List α} (hold : old ≠ []) (s new : List α) :
    substitute (old ++ s) old new = new ++ substitute s old new := by
  rw [substitute, cut_occurrence hold, List.flatMap_cons]
  rfl

theorem substitute_append {old u : List α} (hold : old ≠ []) (h : ∀ a ∈ u, old.head? ≠ some a)
    (s new : List α) : substitute (u ++ s) old new = u ++ substitute s old new := by
  rw [substitute, cut_append hold h, List.flatMap_append, flatMap_written]
  rfl

theorem substitute_letter {old s : List α} {a : α} (h : ¬ old <+: a :: s) (new : List α) :
    substitute (a :: s) old new = a :: substitute s old new := by
  rw [substitute, cut_letter h, List.flatMap_cons]
  rfl

/-- Replacing one letter is a map. -/
theorem substitute_singleton (s new : List α) (a : α) :
    substitute s [a] new = s.flatMap fun b => if b = a then new else [b] := by
  rw [substitute, cut_singleton, List.flatMap_map]
  refine List.flatMap_congr fun b _ => ?_
  split_ifs <;> rfl

/-- The map leaves the letters of a text alone and writes none of them for another. -/
structure Transparent (old : List α) (f : α → List α) : Prop where
  fixed : ∀ a ∈ old, f a = [a]
  apart : ∀ a ∉ old, f a ≠ [] ∧ ∀ b ∈ f a, b ∉ old

theorem Transparent.prefix_iff {old : List α} {f : α → List α} (h : Transparent old f)
    {u : List α} (hu : ∀ a ∈ u, a ∈ old) (s : List α) : u <+: s.flatMap f ↔ u <+: s := by
  induction u generalizing s with
  | nil => exact iff_of_true (List.nil_prefix) (List.nil_prefix)
  | cons a u ih =>
    rw [List.forall_mem_cons] at hu
    cases s with
    | nil => rfl
    | cons b s =>
      rw [List.flatMap_cons, List.cons_prefix_cons]
      by_cases hb : b ∈ old
      · rw [h.fixed b hb, List.singleton_append, List.cons_prefix_cons, ih hu.2]
      · obtain ⟨hne, hapart⟩ := h.apart b hb
        obtain ⟨c, v, hc⟩ := List.exists_cons_of_ne_nil hne
        rw [hc, List.cons_append, List.cons_prefix_cons]
        have hac : a ≠ c := fun heq => hapart c (hc ▸ List.mem_cons_self) (heq ▸ hu.1)
        have hab : a ≠ b := fun heq => hb (heq ▸ hu.1)
        exact iff_of_false (fun hpre => hac hpre.1) fun hpre => hab hpre.1

theorem Transparent.cut_flatMap {old : List α} (hold : old ≠ []) {f : α → List α}
    (h : Transparent old f) (s : List α) :
    cut old 0 (s.flatMap f) =
      (cut old 0 s).flatMap fun o => o.elim [none] fun a => (f a).map some := by
  induction s using cut_induction hold with
  | nil => rfl
  | occurrence s ih =>
    have hfix : old.flatMap f = old := by
      rw [List.flatMap_congr h.fixed]
      exact List.flatMap_singleton' old
    rw [List.flatMap_append, hfix, cut_occurrence hold, cut_occurrence hold, List.flatMap_cons, ih]
    rfl
  | letter a s hpre ih =>
    rw [cut_letter hpre, List.flatMap_cons, List.flatMap_cons, ← ih, Option.elim]
    by_cases ha : a ∈ old
    · rw [h.fixed a ha]
      refine cut_letter fun hcontra => hpre ?_
      rw [← h.prefix_iff (fun _ hb => hb), List.flatMap_cons, h.fixed a ha]
      exact hcontra
    · refine cut_append hold (fun b hb hhead => (h.apart a ha).2 b hb ?_) (s.flatMap f)
      exact List.mem_of_mem_head? hhead

/-- The map and the replacement, one after the other. -/
theorem Transparent.substitute_flatMap {old : List α} (hold : old ≠ []) {f : α → List α}
    (h : Transparent old f) (s new : List α) :
    substitute (s.flatMap f) old new = (cut old 0 s).flatMap fun o => o.elim new f := by
  rw [substitute, h.cut_flatMap hold, List.flatMap_assoc]
  refine List.flatMap_congr fun o _ => ?_
  cases o with
  | none => exact List.append_nil new
  | some a => exact flatMap_written (f a) new

theorem forall_mem_substitute {old new : List α} (hold : old ≠ []) {P : α → Prop}
    (hPold : ∀ a ∈ old, P a) (hPnew : ∀ a ∈ new, P a) (s : List α) :
    (∀ a ∈ substitute s old new, P a) ↔ ∀ a ∈ s, P a := by
  induction s using cut_induction hold with
  | nil => rfl
  | occurrence s ih =>
    rw [substitute_occurrence hold, List.forall_mem_append, List.forall_mem_append, ih]
    exact and_congr_left' (iff_of_true hPnew hPold)
  | letter a s hpre ih => rw [substitute_letter hpre, List.forall_mem_cons, List.forall_mem_cons, ih]

end

theorem replaceAll_eq (s old new : Bytes) : replaceAll s old new = substitute s old new := by
  have hfrom : ∀ skip, replaceFrom old new skip s = (cut old skip s).flatMap (written new) := by
    induction s with
    | nil => intro skip; cases skip <;> rfl
    | cons b s ih =>
      intro skip
      cases skip with
      | zero =>
        rw [replaceFrom, cut]
        split_ifs
        · rw [ih, List.flatMap_cons, written_none]
        · rw [ih, List.flatMap_cons, written_some, List.singleton_append]
      | succ skip => exact ih skip
  exact hfrom 0

/-! ### Runes -/

namespace Utf8

/-- A byte string that is empty or starts a rune. -/
def Boundary (s : Bytes) : Prop := ∀ b ∈ s.head?, tail b = false

theorem not_tail_of_lead {b : UInt8} (h : b < 0x80 ∨ 0xBF < b) : tail b = false := by
  rw [tail, Bool.and_eq_false_iff, decide_eq_false_iff_not, decide_eq_false_iff_not]
  simp only [UInt8.lt_iff_toNat_lt, UInt8.le_iff_toNat_le, UInt8.reduceToNat] at h ⊢
  omega

theorem lead_of_seq {a : UInt8} {bs : Bytes} (h : seq (a :: bs)) : 0xBF < a := by
  rw [UInt8.lt_iff_toNat_lt]
  match bs, h with
  | [b], h =>
    simp only [seq, two, Bool.and_eq_true, decide_eq_true_eq, UInt8.le_iff_toNat_le] at h
    simp only [UInt8.reduceToNat] at h ⊢
    omega
  | [b, c], h =>
    simp only [seq, three, Bool.and_eq_true, decide_eq_true_eq, UInt8.le_iff_toNat_le] at h
    simp only [UInt8.reduceToNat] at h ⊢
    omega
  | [b, c, d], h =>
    simp only [seq, four, Bool.and_eq_true, decide_eq_true_eq, UInt8.le_iff_toNat_le] at h
    simp only [UInt8.reduceToNat] at h ⊢
    omega

theorem tail_of_seq {a : UInt8} {bs : Bytes} (h : seq (a :: bs)) : ∀ b ∈ bs, tail b := by
  match bs, h with
  | [b], h =>
    simp only [seq, two, Bool.and_eq_true] at h
    simpa using h.2
  | [b, c], h =>
    simp only [seq, three, Bool.and_eq_true] at h
    simpa using ⟨h.1.1.1.2, h.1.1.2⟩
  | [b, c, d], h =>
    simp only [seq, four, Bool.and_eq_true] at h
    simpa using ⟨h.1.1.1.1.2, h.1.1.1.2, h.1.1.2⟩

theorem boundary_bytes {r : Rune} (h : r.good) (s : Bytes) : Boundary (r.bytes ++ s) := by
  intro b hb
  refine not_tail_of_lead ?_
  cases r with
  | ascii a =>
    cases Option.some.inj hb
    exact .inl (of_decide_eq_true h)
  | multi bs =>
    cases bs with
    | nil => cases h
    | cons a bs =>
      cases Option.some.inj hb
      exact .inr (lead_of_seq h)
  | bad a => cases h

theorem boundary_of_valid {old : Bytes} (hvalid : valid old) (hold : old ≠ []) (s : Bytes) :
    Boundary (old ++ s) := by
  have hencode := encode_decode old
  cases hrs : decode old with
  | nil =>
    rw [hrs] at hencode
    exact absurd hencode.symm hold
  | cons r rs =>
    have hgood : r.good := (valid_iff old).mp hvalid r (hrs ▸ List.mem_cons_self)
    rw [← hencode, hrs, encode, List.flatMap_cons, List.append_assoc]
    exact boundary_bytes hgood _

/-- No sequence starts at the byte. -/
theorem decode_bad {a : UInt8} {w : Bytes} (ha : ¬ a < 0x80)
    (h : ∀ bs, bs <+: w → seq (a :: bs) = false) : decode (a :: w) = .bad a :: decode w := by
  have htwo : ∀ b, [b] <+: w → two a b = false := fun b => h [b]
  have hthree : ∀ b c, [b, c] <+: w → three a b c = false := fun b c => h [b, c]
  have hfour : ∀ b c d, [b, c, d] <+: w → four a b c d = false := fun b c d => h [b, c, d]
  match w, htwo, hthree, hfour with
  | [], _, _, _ => simp [decode, ha]
  | [b], htwo, _, _ => simp [decode, ha, htwo b (List.prefix_rfl)]
  | [b, c], htwo, hthree, _ =>
    rw [decode.eq_def]
    simp [ha, htwo b (by simp), hthree b c (by simp)]
  | b :: c :: d :: w, htwo, hthree, hfour =>
    rw [decode.eq_def]
    simp [ha, htwo b (by simp), hthree b c (by simp), hfour b c d (by simp)]

/-- Bytes that go on with a rune stop where a rune starts. -/
theorem Boundary.prefix_left {bs u v : Bytes} (h : Boundary v) (htail : ∀ b ∈ bs, tail b)
    (hpre : bs <+: u ++ v) : bs <+: u := by
  rcases List.prefix_or_prefix_of_prefix hpre (List.prefix_append u v) with hu | ⟨t, rfl⟩
  · exact hu
  · rw [List.prefix_append_right_inj] at hpre
    cases t with
    | nil => rw [List.append_nil]
    | cons b t =>
      obtain ⟨w, rfl⟩ := hpre
      have hb := htail b (by simp)
      rw [h b rfl] at hb
      cases hb

/-- No sequence goes on where a rune starts. -/
theorem decode_append (u : Bytes) {v : Bytes} (h : Boundary v) :
    decode (u ++ v) = decode u ++ decode v := by
  induction hn : u.length using Nat.strong_induction_on generalizing u with
  | _ n ih =>
    cases u with
    | nil => rfl
    | cons a u =>
      rw [List.length_cons] at hn
      by_cases ha : a < 0x80
      · rw [List.cons_append, decode_ascii ha, decode_ascii ha, ih u.length (by omega) u rfl]
        rfl
      by_cases hseq : ∃ bs, bs <+: u ∧ seq (a :: bs) = true
      · obtain ⟨bs, ⟨t, rfl⟩, hbs⟩ := hseq
        rw [List.length_append] at hn
        have hright := decode_seq hbs t
        have hleft := decode_seq hbs (t ++ v)
        rw [List.cons_append] at hleft hright
        rw [List.cons_append, List.append_assoc, hleft, hright, ih t.length (by omega) t rfl]
        rfl
      · have hno : ∀ bs, bs <+: u → seq (a :: bs) = false := fun bs hbs =>
          Bool.eq_false_iff.mpr fun hcontra => hseq ⟨bs, hbs, hcontra⟩
        rw [List.cons_append, decode_bad ha hno, List.cons_append, ← ih u.length (by omega) u rfl]
        refine decode_bad ha fun bs hbs => Bool.eq_false_iff.mpr fun hcontra => ?_
        exact hseq ⟨bs, h.prefix_left (tail_of_seq hcontra) hbs, hcontra⟩

theorem decode_valid_append {old : Bytes} (h : valid old) (s : Bytes) :
    decode (old ++ s) = decode old ++ decode s := by
  have := decode_encode ((valid_iff old).mp h) s
  rwa [encode_decode] at this

theorem prefix_decode_iff {old : Bytes} (h : valid old) (s : Bytes) :
    decode old <+: decode s ↔ old <+: s := by
  constructor
  · rintro ⟨t, ht⟩
    have hencode := congrArg encode ht
    rw [encode_append, encode_decode, encode_decode] at hencode
    exact ⟨encode t, hencode⟩
  · rintro ⟨t, rfl⟩
    exact ⟨decode t, (decode_valid_append h t).symm⟩

theorem decode_eq_nil_iff (s : Bytes) : decode s = [] ↔ s = [] := by
  constructor
  · intro h
    rw [← encode_decode s, h]
    rfl
  · rintro rfl
    rfl

theorem decode_tails {s : Bytes} (h : ∀ b ∈ s, tail b) : decode s = s.map .bad := by
  induction s with
  | nil => rfl
  | cons a s ih =>
    rw [List.forall_mem_cons] at h
    have ha : ¬ a < 0x80 := fun hlt => by
      have hnot := not_tail_of_lead (.inl hlt)
      rw [hnot] at h
      exact absurd h.1 Bool.false_ne_true
    rw [decode_bad ha, ih h.2, List.map_cons]
    intro bs _
    refine Bool.eq_false_iff.mpr fun hseq => ?_
    have hnot := not_tail_of_lead (.inr (lead_of_seq hseq))
    rw [hnot] at h
    exact absurd h.1 Bool.false_ne_true

/-- Bytes without a start of a rune behind the first byte: one rune, and bytes outside any
sequence. -/
theorem exists_decode_cluster (a : UInt8) {s : Bytes} (h : ∀ b ∈ s, tail b) :
    ∃ r t, decode (a :: s) = r :: List.map .bad t := by
  by_cases ha : a < 0x80
  · exact ⟨.ascii a, s, by rw [decode_ascii ha, decode_tails h]⟩
  by_cases hseq : ∃ bs, bs <+: s ∧ seq (a :: bs) = true
  · obtain ⟨bs, ⟨t, rfl⟩, hbs⟩ := hseq
    refine ⟨.multi (a :: bs), t, ?_⟩
    rw [← decode_tails (List.forall_mem_append.mp h).2, ← decode_seq hbs t]
    rfl
  · refine ⟨.bad a, s, ?_⟩
    rw [← decode_tails h]
    exact decode_bad ha fun bs hbs => Bool.eq_false_iff.mpr fun hcontra => hseq ⟨bs, hbs, hcontra⟩

theorem exists_boundary (s : Bytes) : ∃ u v, s = u ++ v ∧ (∀ b ∈ u, tail b) ∧ Boundary v := by
  induction s with
  | nil => exact ⟨[], [], rfl, fun b hb => absurd hb List.not_mem_nil, fun b hb => nomatch hb⟩
  | cons a s ih =>
    cases ha : tail a with
    | true =>
      obtain ⟨u, v, rfl, hu, hv⟩ := ih
      exact ⟨a :: u, v, rfl, List.forall_mem_cons.mpr ⟨ha, hu⟩, hv⟩
    | false =>
      refine ⟨[], a :: s, rfl, fun b hb => absurd hb List.not_mem_nil, fun b hb => ?_⟩
      cases Option.some.inj hb
      exact ha

theorem Boundary.substitute {v old new : Bytes} (h : Boundary v) (hold : old ≠ [])
    (hnew : new ≠ []) (hvnew : valid new) : Boundary (substitute v old new) := by
  by_cases hpre : old <+: v
  · obtain ⟨t, rfl⟩ := hpre
    rw [substitute_occurrence hold]
    exact boundary_of_valid hvnew hnew _
  · cases v with
    | nil => exact h
    | cons a v =>
      rw [substitute_letter hpre]
      exact h

/-- Replacing a text by another is a replacement of runes. -/
theorem decode_replaceAll {old new : Bytes} (hold : old ≠ []) (hvold : valid old) (hnew : new ≠ [])
    (hvnew : valid new) (s : Bytes) :
    decode (replaceAll s old new) = substitute (decode s) (decode old) (decode new) := by
  have hrunes : decode old ≠ [] := fun h => hold ((decode_eq_nil_iff old).mp h)
  have hhead : ∀ b, (decode old).head? ≠ some (.bad b) := by
    intro b hb
    have := (valid_iff old).mp hvold _ (List.mem_of_mem_head? hb)
    cases this
  rw [replaceAll_eq]
  induction hn : s.length using Nat.strong_induction_on generalizing s with
  | _ n ih =>
    by_cases hpre : old <+: s
    · obtain ⟨t, rfl⟩ := hpre
      have hpos : 0 < old.length := List.length_pos_of_ne_nil hold
      rw [List.length_append] at hn
      rw [substitute_occurrence hold, decode_valid_append hvnew, decode_valid_append hvold,
        substitute_occurrence hrunes, ih t.length (by omega) t rfl]
    cases s with
    | nil => rfl
    | cons a s =>
      -- the bytes up to the next start of a rune
      obtain ⟨u, v, rfl, hu, hv⟩ := exists_boundary s
      have hbytes : ∀ b ∈ u, old.head? ≠ some b := by
        intro b hb hhead
        have hbound := boundary_of_valid hvold hold []
        rw [List.append_nil] at hbound
        have htail := hu b hb
        rw [hbound b hhead] at htail
        cases htail
      obtain ⟨r, t, hcluster⟩ := exists_decode_cluster a hu
      rw [List.length_cons, List.length_append] at hn
      have hleft : substitute (a :: (u ++ v)) old new = (a :: u) ++ substitute v old new := by
        rw [substitute_letter hpre, substitute_append hold hbytes]
        rfl
      have hsplit : decode (a :: (u ++ v)) = r :: (t.map .bad ++ decode v) := by
        rw [← List.cons_append, decode_append _ hv, hcluster]
        rfl
      rw [← prefix_decode_iff hvold, hsplit] at hpre
      rw [hleft, decode_append _ (hv.substitute hold hnew hvnew), hcluster, hsplit, substitute_letter hpre,
        substitute_append hrunes, ih v.length (by omega) v rfl]
      · rfl
      · intro q hq
        obtain ⟨b, -, rfl⟩ := List.mem_map.mp hq
        exact hhead b

theorem valid_replaceAll {old new : Bytes} (hold : old ≠ []) (hvold : valid old) (hnew : new ≠ [])
    (hvnew : valid new) (s : Bytes) : valid (replaceAll s old new) ↔ valid s := by
  have hrunes : decode old ≠ [] := fun h => hold ((decode_eq_nil_iff old).mp h)
  rw [valid_iff, valid_iff, decode_replaceAll hold hvold hnew hvnew]
  exact forall_mem_substitute hrunes ((valid_iff old).mp hvold) ((valid_iff new).mp hvnew) _

end Utf8

end GoLib
