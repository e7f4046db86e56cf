import Konsul.Lib.JsonRoundTrip

/-!
# Values of a type as JSON text

A `Codec` says how values of a type are marshalled and how a document is decoded
over an old value. `string`, `list` and `record` build codecs; a record is a list
of fields, each with its tag. `Lawful` is the round trip: what is read back of a
value, with its strings made valid UTF-8 somewhere inside. `Copies` states it for
a record field by field, and `record_lawful` puts the fields together.
-/

namespace GoLib

namespace Json

structure Codec (α : Type) where
  zero : α
  write : α → Json
  /-- `none` is the error of a value of another kind. -/
  read : α → Json → Option α

namespace Codec

variable {α : Type}

/-- `json.Marshal`. -/
def marshal (c : Codec α) (a : α) : Bytes := print (c.write a)

/-- `json.MarshalIndent` with two spaces. -/
def marshalIndent (c : Codec α) (a : α) : Bytes := printIndent (c.write a)

/-- `json.Unmarshal` into a new value; `none` when it returns an error. -/
def unmarshal (c : Codec α) (data : Bytes) : Option α := (parse data).bind (c.read c.zero)

/-- A value written is read back as `norm` makes it, from a document of bounded depth. -/
structure Lawful (c : Codec α) (norm : α → α) (depth : ℕ) : Prop where
  wf : ∀ a, (c.write a).WF
  depth_le : ∀ a, (c.write a).depth ≤ depth
  read_write : ∀ a, c.read c.zero (c.write a).clean = some (norm a)

theorem Lawful.unmarshal_marshal {c : Codec α} {norm : α → α} {depth : ℕ}
    (h : c.Lawful norm depth) (hdepth : depth ≤ maxNestingDepth) (a : α) :
    c.unmarshal (c.marshal a) = some (norm a) := by
  have hparse := parse_print (h.wf a) ((h.depth_le a).trans hdepth)
  rw [unmarshal, marshal, hparse, Option.bind_some, h.read_write]

/-- What is written is well formed and of bounded depth. -/
def Bounded (c : Codec α) (depth : ℕ) : Prop := ∀ a, (c.write a).WF ∧ (c.write a).depth ≤ depth

/-- `a` written is read back as `b`. -/
def ReadsBack (c : Codec α) (a b : α) : Prop := c.read c.zero (c.write a).clean = some b

theorem Lawful.bounded {c : Codec α} {norm : α → α} {depth : ℕ} (h : c.Lawful norm depth) :
    c.Bounded depth := fun a => ⟨h.wf a, h.depth_le a⟩

theorem Bounded.mono {c : Codec α} {depth depth' : ℕ} (h : c.Bounded depth)
    (hle : depth ≤ depth') : c.Bounded depth' :=
  fun a => ⟨(h a).1, (h a).2.trans hle⟩

theorem Bounded.unmarshal_marshal {c : Codec α} {depth : ℕ} (h : c.Bounded depth)
    (hdepth : depth ≤ maxNestingDepth) {a b : α} (hread : c.ReadsBack a b) :
    c.unmarshal (c.marshal a) = some b := by
  have hparse := parse_print (h a).1 ((h a).2.trans hdepth)
  rw [unmarshal, marshal, hparse, Option.bind_some]
  exact hread

theorem Lawful.unmarshal_marshalIndent {c : Codec α} {norm : α → α} {depth : ℕ}
    (h : c.Lawful norm depth) (hdepth : depth ≤ maxNestingDepth) (a : α) :
    c.unmarshal (c.marshalIndent a) = some (norm a) := by
  have hparse := parse_printIndent (h.wf a) ((h.depth_le a).trans hdepth)
  rw [unmarshal, marshalIndent, hparse, Option.bind_some, h.read_write]

/-! ### Strings and lists -/

def string : Codec Bytes := ⟨[], .str, intoString⟩

theorem string_lawful : string.Lawful Utf8.toValid 0 :=
  ⟨fun _ => trivial, fun _ => le_rfl, fun _ => rfl⟩

def list (c : Codec α) : Codec (List α) where
  zero := []
  write as := .arr (as.map c.write)
  read
    | _, .arr js => js.mapM (c.read c.zero)
    | _, .null => some []
    | _, _ => none

section List

variable {c : Codec α} {norm : α → α} {depth : ℕ}

theorem wfItems_map (h : c.Lawful norm depth) (as : List α) : WFItems (as.map c.write) := by
  induction as with
  | nil => trivial
  | cons a as ih => exact ⟨h.wf a, ih⟩

theorem depthItems_map_le (h : c.Lawful norm depth) (as : List α) :
    depthItems (as.map c.write) ≤ depth := by
  induction as with
  | nil => exact Nat.zero_le _
  | cons a as ih => exact max_le (h.depth_le a) ih

theorem mapM_cleanItems (h : c.Lawful norm depth) (as : List α) :
    (cleanItems (as.map c.write)).mapM (c.read c.zero) = some (as.map norm) := by
  induction as with
  | nil => rfl
  | cons a as ih =>
    rw [List.map_cons, cleanItems, List.mapM_cons, h.read_write, ih]
    rfl

theorem list_lawful (h : c.Lawful norm depth) :
    (list c).Lawful (List.map norm) (depth + 1) where
  wf as := wfItems_map h as
  depth_le as := by
    have hle := depthItems_map_le h as
    exact Nat.succ_le_succ hle
  read_write as := mapM_cleanItems h as

end List

end Codec

/-! ### Records -/

/-- A field of a struct: its tag, the value it is marshalled to unless it is
omitted, and the struct after a value is decoded into it. -/
structure Field (S : Type) where
  name : Bytes
  write : S → Option Json
  read : S → Json → Option S

section Record

variable {S α : Type}

/-- A field of a codec's type, left out where `skip` says so. -/
def Field.of (name : Bytes) (c : Codec α) (skip : α → Bool) (get : S → α) (set : S → α → S) :
    Field S where
  name := name
  write s := if skip (get s) then none else some (c.write (get s))
  read s j := (c.read (get s) j).map (set s)

def members (fields : List (Field S)) (s : S) : List (Bytes × Json) :=
  fields.filterMap fun f => (f.write s).map fun j => (f.name, j)

/-- One member of an object decoded into the struct: into the first field of its name. -/
def setField (fields : List (Field S)) (s : S) (m : Bytes × Json) : Option S :=
  match fields.find? fun f => namesField f.name m.1 with
  | some f => f.read s m.2
  | none => some s

def Codec.record (fields : List (Field S)) (zero : S) : Codec S where
  zero := zero
  write s := .obj (members fields s)
  read
    | s, .obj ms => ms.foldlM (setField fields) s
    | s, .null => some s
    | _, _ => none

/-- `acc'` is `acc` after the field of `s`, if it is written at all, is decoded into it. -/
def Field.Copies (f : Field S) (s acc acc' : S) : Prop :=
  match f.write s with
  | some j => f.read acc j.clean = some acc'
  | none => acc' = acc

/-- The fields one after the other. -/
def Copies : List (Field S) → S → S → S → Prop
  | [], _, acc, acc' => acc' = acc
  | f :: fields, s, acc, acc' => ∃ mid, f.Copies s acc mid ∧ Copies fields s mid acc'

theorem Field.copies_of_readsBack {c : Codec α} {name : Bytes} {skip : α → Bool} {get : S → α}
    {set : S → α → S} {s acc : S} {b : α} (hread : c.ReadsBack (get s) b)
    (hzero : get acc = c.zero) (homit : skip (get s) → b = c.zero)
    (hset : ∀ a, set a (get a) = a) :
    (Field.of name c skip get set).Copies s acc (set acc b) := by
  unfold Field.Copies Field.of
  dsimp only
  by_cases hnone : skip (get s)
  · rw [if_pos hnone]
    have heq : b = get acc := (homit hnone).trans hzero.symm
    rw [heq]
    exact hset acc
  · rw [if_neg hnone]
    dsimp only
    rw [hzero, hread]
    rfl

theorem Field.of_copies {c : Codec α} {norm : α → α} {depth : ℕ} (h : c.Lawful norm depth)
    {name : Bytes} {skip : α → Bool} {get : S → α} {set : S → α → S} (s : S) {acc : S}
    (hzero : get acc = c.zero) (homit : ∀ a, skip a → norm a = c.zero)
    (hset : ∀ a, set a (get a) = a) :
    (Field.of name c skip get set).Copies s acc (set acc (norm (get s))) :=
  Field.copies_of_readsBack (h.read_write (get s)) hzero (homit (get s)) hset

theorem isEmpty_toValid (s : Bytes) (h : s.isEmpty) : Utf8.toValid s = [] := by
  rw [List.isEmpty_iff.mp h]
  rfl

theorem isEmpty_map {norm : α → α} (l : List α) (h : l.isEmpty) : l.map norm = [] := by
  rw [List.isEmpty_iff.mp h]
  rfl

/-- Every value a field writes is well formed and of bounded depth. -/
def Field.Bounded (depth : ℕ) (f : Field S) : Prop :=
  ∀ s j, f.write s = some j → j.WF ∧ j.depth ≤ depth

theorem Field.bounded_of_codec {c : Codec α} {depth depth' : ℕ} (h : c.Bounded depth)
    (hle : depth ≤ depth') {name : Bytes} {skip : α → Bool} {get : S → α} {set : S → α → S} :
    (Field.of name c skip get set).Bounded depth' := by
  intro s j hj
  simp only [Field.of] at hj
  split_ifs at hj
  cases hj
  exact ⟨(h _).1, (h _).2.trans hle⟩

theorem Field.of_bounded {c : Codec α} {norm : α → α} {depth depth' : ℕ}
    (h : c.Lawful norm depth) (hle : depth ≤ depth') {name : Bytes} {skip : α → Bool}
    {get : S → α} {set : S → α → S} : (Field.of name c skip get set).Bounded depth' :=
  Field.bounded_of_codec h.bounded hle

/-- No two names stand for one field, and they are valid text. -/
def DistinctNames (names : List Bytes) : Prop :=
  names.Pairwise (fun a b => namesField a b = false) ∧ ∀ name ∈ names, Utf8.valid name

instance (names : List Bytes) : Decidable (DistinctNames names) := inferInstanceAs (Decidable (_ ∧ _))

def Distinct (fields : List (Field S)) : Prop := DistinctNames (fields.map Field.name)

theorem distinct_of_names {fields : List (Field S)} (names : List Bytes)
    (hnames : fields.map Field.name = names) (h : DistinctNames names) : Distinct fields := by
  rw [Distinct, hnames]
  exact h

/-- Only the names and the decoders of the fields matter when a document is read. -/
theorem setField_congr {fs gs : List (Field S)}
    (h : List.Forall₂ (fun f g => f.name = g.name ∧ f.read = g.read) fs gs) :
    setField fs = setField gs := by
  funext s m
  induction h with
  | nil => rfl
  | @cons f g fs gs hfield _ ih =>
    unfold setField at ih ⊢
    rw [List.find?_cons, List.find?_cons, hfield.1]
    cases namesField g.name m.1 with
    | true => exact congrFun (congrFun hfield.2 s) m.2
    | false => exact ih

theorem Field.of_congr {c c' : Codec α} (h : c.read = c'.read) (name : Bytes) (skip : α → Bool)
    (get : S → α) (set : S → α → S) :
    (Field.of name c skip get set).name = (Field.of name c' skip get set).name ∧
      (Field.of name c skip get set).read = (Field.of name c' skip get set).read := by
  refine ⟨rfl, ?_⟩
  unfold Field.of
  rw [h]

theorem namesField_self (name : Bytes) : namesField name name := decide_eq_true rfl

theorem find?_of_distinct {fields : List (Field S)} (h : Distinct fields) {f : Field S}
    (hf : f ∈ fields) : fields.find? (fun g => namesField g.name f.name) = some f := by
  obtain ⟨hpair, -⟩ := h
  induction fields with
  | nil => cases hf
  | cons g fields ih =>
    rw [List.map_cons, List.pairwise_cons] at hpair
    rcases List.mem_cons.mp hf with rfl | hf
    · have hself : namesField f.name f.name = true := namesField_self f.name
      simp only [List.find?_cons, hself]
    · have hfirst := hpair.1 f.name (List.mem_map_of_mem hf)
      simp only [List.find?_cons, hfirst]
      exact ih hf hpair.2

theorem foldlM_members {fields : List (Field S)} (h : Distinct fields) {fs : List (Field S)}
    (hfs : ∀ f ∈ fs, f ∈ fields) {s acc acc' : S} (hcopies : Copies fs s acc acc') :
    (cleanMembers (members fs s)).foldlM (setField fields) acc = some acc' := by
  induction fs generalizing acc with
  | nil =>
    cases hcopies
    rfl
  | cons f fs ih =>
    obtain ⟨mid, hfirst, hrest⟩ := hcopies
    have hmem : f ∈ fields := hfs f (List.mem_cons_self ..)
    have hrest' := ih (fun g hg => hfs g (List.mem_cons_of_mem f hg)) hrest
    unfold Field.Copies at hfirst
    unfold members
    cases hw : f.write s with
    | none =>
      rw [hw] at hfirst
      rw [List.filterMap_cons_none (by rw [hw]; rfl), ← hfirst]
      exact hrest'
    | some j =>
      rw [hw] at hfirst
      have hname : Utf8.toValid f.name = f.name :=
        Utf8.toValid_of_valid (h.2 f.name (List.mem_map_of_mem hmem))
      have hset : setField fields acc (f.name, j.clean) = some mid := by
        rw [setField, find?_of_distinct h hmem]
        exact hfirst
      rw [List.filterMap_cons_some (by rw [hw]; rfl), cleanMembers, hname, List.foldlM_cons, hset]
      exact hrest'

theorem members_bounded {depth : ℕ} {fields : List (Field S)} (h : ∀ f ∈ fields, f.Bounded depth)
    (s : S) : WFMembers (members fields s) ∧ depthMembers (members fields s) ≤ depth := by
  induction fields with
  | nil => exact ⟨trivial, Nat.zero_le _⟩
  | cons f fields ih =>
    have hrest := ih fun g hg => h g (List.mem_cons_of_mem f hg)
    unfold members at hrest ⊢
    cases hw : f.write s with
    | none =>
      rw [List.filterMap_cons_none (by rw [hw]; rfl)]
      exact hrest
    | some j =>
      obtain ⟨hwf, hdepth⟩ := h f (List.mem_cons_self ..) s j hw
      rw [List.filterMap_cons_some (by rw [hw]; rfl)]
      exact ⟨⟨hwf, hrest.1⟩, max_le hdepth hrest.2⟩

theorem Codec.record_bounded {depth : ℕ} {fields : List (Field S)} {zero : S}
    (hbounded : ∀ f ∈ fields, f.Bounded depth) : (Codec.record fields zero).Bounded (depth + 1) :=
  fun s => ⟨(members_bounded hbounded s).1, Nat.succ_le_succ (members_bounded hbounded s).2⟩

theorem Codec.record_readsBack {fields : List (Field S)} {zero s s' : S}
    (hdistinct : Distinct fields) (hcopies : Copies fields s zero s') :
    (Codec.record fields zero).ReadsBack s s' :=
  foldlM_members hdistinct (fun _ hf => hf) hcopies

/-- A record is read back field by field. -/
theorem Codec.record_lawful {depth : ℕ} {fields : List (Field S)} {zero : S} {norm : S → S}
    (hdistinct : Distinct fields) (hbounded : ∀ f ∈ fields, f.Bounded depth)
    (hcopies : ∀ s, Copies fields s zero (norm s)) :
    (Codec.record fields zero).Lawful norm (depth + 1) where
  wf s := (Codec.record_bounded hbounded s).1
  depth_le s := (Codec.record_bounded hbounded s).2
  read_write s := Codec.record_readsBack hdistinct (hcopies s)

end Record

/-! ### Records whose fields are always written -/

section Tuples

variable {α β γ : Type} {n₁ n₂ n₃ : Bytes} {c₁ : Codec α} {c₂ : Codec β} {c₃ : Codec γ} {depth : ℕ}

def Codec.one (n₁ : Bytes) (c₁ : Codec α) : Codec α :=
  .record [.of n₁ c₁ (fun _ => false) id fun _ a => a] c₁.zero

def Codec.two (n₁ : Bytes) (c₁ : Codec α) (n₂ : Bytes) (c₂ : Codec β) : Codec (α × β) :=
  .record [.of n₁ c₁ (fun _ => false) (·.1) fun s a => (a, s.2),
    .of n₂ c₂ (fun _ => false) (·.2) fun s b => (s.1, b)] (c₁.zero, c₂.zero)

def Codec.three (n₁ : Bytes) (c₁ : Codec α) (n₂ : Bytes) (c₂ : Codec β) (n₃ : Bytes)
    (c₃ : Codec γ) : Codec (α × β × γ) :=
  .record [.of n₁ c₁ (fun _ => false) (·.1) fun s a => (a, s.2),
    .of n₂ c₂ (fun _ => false) (·.2.1) fun s b => (s.1, b, s.2.2),
    .of n₃ c₃ (fun _ => false) (·.2.2) fun s c => (s.1, s.2.1, c)] (c₁.zero, c₂.zero, c₃.zero)

theorem Codec.one_bounded (h : c₁.Bounded depth) : (Codec.one n₁ c₁).Bounded (depth + 1) := by
  refine Codec.record_bounded fun f hf => ?_
  rw [List.mem_singleton.mp hf]
  exact Field.bounded_of_codec h le_rfl

theorem Codec.two_bounded (h₁ : c₁.Bounded depth) (h₂ : c₂.Bounded depth) :
    (Codec.two n₁ c₁ n₂ c₂).Bounded (depth + 1) := by
  refine Codec.record_bounded fun f hf => ?_
  rcases List.mem_pair.mp hf with rfl | rfl
  · exact Field.bounded_of_codec h₁ le_rfl
  · exact Field.bounded_of_codec h₂ le_rfl

theorem Codec.three_bounded (h₁ : c₁.Bounded depth) (h₂ : c₂.Bounded depth)
    (h₃ : c₃.Bounded depth) : (Codec.three n₁ c₁ n₂ c₂ n₃ c₃).Bounded (depth + 1) := by
  refine Codec.record_bounded fun f hf => ?_
  simp only [List.mem_cons, List.not_mem_nil, or_false] at hf
  rcases hf with rfl | rfl | rfl
  · exact Field.bounded_of_codec h₁ le_rfl
  · exact Field.bounded_of_codec h₂ le_rfl
  · exact Field.bounded_of_codec h₃ le_rfl

theorem Codec.one_readsBack (hnames : DistinctNames [n₁]) {a a' : α} (h₁ : c₁.ReadsBack a a') :
    (Codec.one n₁ c₁).ReadsBack a a' := by
  refine Codec.record_readsBack (distinct_of_names [n₁] rfl hnames) ?_
  exact ⟨_, Field.copies_of_readsBack h₁ rfl (fun h => nomatch h) (fun _ => rfl), rfl⟩

theorem Codec.two_readsBack (hnames : DistinctNames [n₁, n₂]) {a a' : α} {b b' : β}
    (h₁ : c₁.ReadsBack a a') (h₂ : c₂.ReadsBack b b') :
    (Codec.two n₁ c₁ n₂ c₂).ReadsBack (a, b) (a', b') := by
  refine Codec.record_readsBack (distinct_of_names [n₁, n₂] rfl hnames) ?_
  refine ⟨_, Field.copies_of_readsBack h₁ rfl (fun h => nomatch h) (fun _ => rfl), ?_⟩
  exact ⟨_, Field.copies_of_readsBack h₂ rfl (fun h => nomatch h) (fun _ => rfl), rfl⟩

theorem Codec.three_readsBack (hnames : DistinctNames [n₁, n₂, n₃]) {a a' : α} {b b' : β}
    {c c' : γ} (h₁ : c₁.ReadsBack a a') (h₂ : c₂.ReadsBack b b') (h₃ : c₃.ReadsBack c c') :
    (Codec.three n₁ c₁ n₂ c₂ n₃ c₃).ReadsBack (a, b, c) (a', b', c') := by
  refine Codec.record_readsBack (distinct_of_names [n₁, n₂, n₃] rfl hnames) ?_
  refine ⟨_, Field.copies_of_readsBack h₁ rfl (fun h => nomatch h) (fun _ => rfl), ?_⟩
  refine ⟨_, Field.copies_of_readsBack h₂ rfl (fun h => nomatch h) (fun _ => rfl), ?_⟩
  exact ⟨_, Field.copies_of_readsBack h₃ rfl (fun h => nomatch h) (fun _ => rfl), rfl⟩

end Tuples

end Json

end GoLib
