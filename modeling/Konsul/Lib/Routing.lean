import Konsul.Lib.Strings

/-!
# Tables searched for the first entry that matches

`Own` says which entry of a table an input belongs to: one that takes it, when none
that takes it is narrower. The entries of a router are path patterns; `meets` and
`covers` decide on two patterns what holds of them at every path.
-/

namespace GoLib

/-! ### The first entry that takes an input -/

section

variable {R X : Type} {takes : R → X → Bool}

/-- What `q` takes `r` takes too, and not the other way round. -/
def Narrower (takes : R → X → Bool) (q r : R) : Prop :=
  (∀ x, takes q x = true → takes r x = true) ∧ ∃ x, takes r x = true ∧ takes q x = false

/-- `r` takes the input, and nothing narrower in the table does. -/
def Own (takes : R → X → Bool) (table : List R) (r : R) (x : X) : Prop :=
  takes r x = true ∧ ∀ q ∈ table, Narrower takes q r → takes q x = false

theorem Narrower.irrefl (r : R) : ¬ Narrower takes r r := by
  rintro ⟨-, x, hx, hx'⟩
  rw [hx] at hx'
  cases hx'

theorem find?_of_front_rejects {front back : List R} {r : R} {x : X} (hr : takes r x = true)
    (h : ∀ q ∈ front, takes q x = false) : (front ++ r :: back).find? (takes · x) = some r := by
  have hnone : front.find? (takes · x) = none := by
    rw [List.find?_eq_none]
    intro q hq
    rw [h q hq]
    exact Bool.false_ne_true
  rw [List.find?_append, hnone, Option.none_or, List.find?_cons, hr]

/-- An entry in front of the rest of the table keeps the input from it. -/
theorem find?_mem_front {front back : List R} {q : R} {x : X} (hq : q ∈ front)
    (hx : takes q x = true) :
    ∃ q' ∈ front, (front ++ back).find? (takes · x) = some q' := by
  cases hfind : front.find? (takes · x) with
  | none => exact absurd hx (List.find?_eq_none.mp hfind q hq)
  | some q' =>
    refine ⟨q', List.mem_of_find?_eq_some hfind, ?_⟩
    rw [List.find?_append, hfind, Option.some_or]

/-- Entries in front that are narrower do not come between an entry and its own inputs. -/
theorem find?_of_own {table front back : List R} {r : R} {x : X} (hown : Own takes table r x)
    (hsub : ∀ q ∈ front, q ∈ table) (h : ∀ q ∈ front, Narrower takes q r ∨ takes q x = false) :
    (front ++ r :: back).find? (takes · x) = some r := by
  apply find?_of_front_rejects hown.1
  intro q hq
  rcases h q hq with hnarrower | hrejects
  · exact hown.2 q (hsub q hq) hnarrower
  · exact hrejects

end

/-! ### Patterns of paths -/

/-- A segment of a pattern. -/
inductive Part where
  | literal (text : Bytes)
  /-- Any segment that is not empty. -/
  | param
  deriving DecidableEq

namespace Part

def takes : Part → Bytes → Bool
  | literal text, segment => text = segment
  | param, segment => segment ≠ []

/-- Whether some segment suits both. -/
def meets : Part → Part → Bool
  | literal s, literal t => s = t
  | literal s, param => s ≠ []
  | param, literal t => t ≠ []
  | param, param => true

/-- Whether every segment that suits the second suits the first. -/
def covers : Part → Part → Bool
  | literal s, literal t => s = t
  | literal _, param => false
  | param, literal t => t ≠ []
  | param, param => true

theorem meets_of_takes {p q : Part} {segment : Bytes} (hp : p.takes segment = true)
    (hq : q.takes segment = true) : p.meets q = true := by
  cases p <;> cases q <;> simp_all [takes, meets]

theorem takes_of_covers {p q : Part} (h : p.covers q = true) {segment : Bytes}
    (hq : q.takes segment = true) : p.takes segment = true := by
  cases p <;> cases q <;> simp_all [takes, covers]

end Part

/-- Segments in order, and whether any others may follow them. -/
structure PathPattern where
  parts : List Part
  rest : Bool
  deriving DecidableEq

namespace PathPattern

/-- `takes`, of the parts left and the segments left. -/
def takesFrom (rest : Bool) : List Part → List Bytes → Bool
  | [], segments => rest || segments.isEmpty
  | _ :: _, [] => false
  | part :: parts, segment :: segments => part.takes segment && takesFrom rest parts segments

def takes (p : PathPattern) (segments : List Bytes) : Bool := takesFrom p.rest p.parts segments

def meetsFrom (rest rest' : Bool) : List Part → List Part → Bool
  | [], parts' => rest || parts'.isEmpty
  | _ :: _, [] => rest'
  | part :: parts, part' :: parts' => part.meets part' && meetsFrom rest rest' parts parts'

/-- Whether some path suits both. -/
def meets (p q : PathPattern) : Bool := meetsFrom p.rest q.rest p.parts q.parts

def coversFrom (rest rest' : Bool) : List Part → List Part → Bool
  | [], parts' => rest || (parts'.isEmpty && !rest')
  | _ :: _, [] => false
  | part :: parts, part' :: parts' => part.covers part' && coversFrom rest rest' parts parts'

/-- Whether every path that suits the second suits the first. -/
def covers (p q : PathPattern) : Bool := coversFrom p.rest q.rest p.parts q.parts

/-- Whether the pattern is one path. -/
def isLiteral (p : PathPattern) : Bool := !p.rest && p.parts.all (· ≠ .param)

theorem meetsFrom_of_takesFrom {rest rest' : Bool} {parts parts' : List Part}
    {segments : List Bytes} (h : takesFrom rest parts segments = true)
    (h' : takesFrom rest' parts' segments = true) : meetsFrom rest rest' parts parts' = true := by
  induction parts generalizing parts' segments with
  | nil =>
    rw [takesFrom, Bool.or_eq_true] at h
    rcases h with hrest | hnil
    · rw [meetsFrom, hrest, Bool.true_or]
    · rw [List.isEmpty_iff] at hnil
      cases parts' with
      | nil => simp [meetsFrom]
      | cons part' parts' => rw [hnil, takesFrom] at h'; cases h'
  | cons part parts ih =>
    cases segments with
    | nil => cases h
    | cons segment segments =>
      rw [takesFrom, Bool.and_eq_true] at h
      cases parts' with
      | nil => simpa [meetsFrom, takesFrom] using h'
      | cons part' parts' =>
        rw [takesFrom, Bool.and_eq_true] at h'
        rw [meetsFrom, Bool.and_eq_true]
        exact ⟨Part.meets_of_takes h.1 h'.1, ih h.2 h'.2⟩

theorem meets_of_takes {p q : PathPattern} {segments : List Bytes}
    (hp : p.takes segments = true) (hq : q.takes segments = true) : p.meets q = true :=
  meetsFrom_of_takesFrom hp hq

theorem takesFrom_of_coversFrom {rest rest' : Bool} {parts parts' : List Part}
    (h : coversFrom rest rest' parts parts' = true) {segments : List Bytes}
    (h' : takesFrom rest' parts' segments = true) : takesFrom rest parts segments = true := by
  induction parts generalizing parts' segments with
  | nil =>
    rw [coversFrom, Bool.or_eq_true, Bool.and_eq_true] at h
    rw [takesFrom, Bool.or_eq_true]
    rcases h with hrest | ⟨hnil, hrest'⟩
    · exact Or.inl hrest
    · rw [List.isEmpty_iff] at hnil
      rw [hnil, takesFrom, Bool.or_eq_true] at h'
      rcases h' with h' | h'
      · rw [h'] at hrest'; cases hrest'
      · exact Or.inr h'
  | cons part parts ih =>
    cases parts' with
    | nil => cases h
    | cons part' parts' =>
      rw [coversFrom, Bool.and_eq_true] at h
      cases segments with
      | nil => cases h'
      | cons segment segments =>
        rw [takesFrom, Bool.and_eq_true] at h' ⊢
        exact ⟨Part.takes_of_covers h.1 h'.1, ih h.2 h'.2⟩

theorem takes_of_covers {p q : PathPattern} (h : p.covers q = true) {segments : List Bytes}
    (hq : q.takes segments = true) : p.takes segments = true :=
  takesFrom_of_coversFrom h hq

/-- A literal pattern has one path. -/
theorem segments_unique {p : PathPattern} (hp : p.isLiteral = true) {segments segments' : List Bytes}
    (h : p.takes segments = true) (h' : p.takes segments' = true) : segments = segments' := by
  obtain ⟨parts, rest⟩ := p
  simp only [isLiteral, Bool.and_eq_true, Bool.not_eq_true', List.all_eq_true,
    decide_eq_true_eq] at hp
  obtain ⟨rfl, hparts⟩ := hp
  simp only [takes] at h h'
  induction parts generalizing segments segments' with
  | nil =>
    rw [takesFrom, Bool.false_or, List.isEmpty_iff] at h h'
    rw [h, h']
  | cons part parts ih =>
    cases segments with
    | nil => cases h
    | cons segment segments =>
      cases segments' with
      | nil => cases h'
      | cons segment' segments' =>
        rw [takesFrom, Bool.and_eq_true] at h h'
        have hrest : segments = segments' :=
          ih (fun p hp => hparts p (List.mem_cons_of_mem _ hp)) h.2 h'.2
        cases part with
        | literal text =>
          have h₁ : text = segment := of_decide_eq_true h.1
          have h₂ : text = segment' := of_decide_eq_true h'.1
          rw [← h₁, ← h₂, hrest]
        | param => exact absurd rfl (hparts .param (List.mem_cons_self ..))

/-- A path of the pattern, the filler for whatever it leaves open. -/
def sample (filler : Bytes) (p : PathPattern) : List Bytes :=
  p.parts.map (fun
    | .literal text => text
    | .param => filler) ++ if p.rest then [filler, filler] else []

/-- The literal segments in front of the first parameter. -/
def leading (p : PathPattern) : List Bytes := leadingFrom p.parts
where
  leadingFrom : List Part → List Bytes
    | .literal text :: parts => text :: leadingFrom parts
    | _ => []

theorem leading_le {p : PathPattern} {segments : List Bytes} (h : p.takes segments = true) :
    p.leading <+: segments := by
  obtain ⟨parts, rest⟩ := p
  simp only [takes, leading] at h ⊢
  induction parts generalizing segments with
  | nil => exact List.nil_prefix
  | cons part parts ih =>
    cases segments with
    | nil => cases h
    | cons segment segments =>
      rw [takesFrom, Bool.and_eq_true] at h
      cases part with
      | param => exact List.nil_prefix
      | literal text =>
        have hsegment : text = segment := of_decide_eq_true h.1
        rw [hsegment]
        exact (List.prefix_cons_inj segment).mpr (ih h.2)

end PathPattern

theorem join_mono (sep : UInt8) {ws vs : List Bytes} (h : ws <+: vs) : join sep ws <+: join sep vs := by
  induction ws generalizing vs with
  | nil => exact List.nil_prefix
  | cons w ws ih =>
    obtain ⟨us, rfl⟩ := h
    cases ws with
    | nil =>
      cases us with
      | nil => exact List.prefix_refl _
      | cons u us => exact List.prefix_append w _
    | cons w' ws =>
      have hrest := ih (List.prefix_append (w' :: ws) us)
      show w ++ sep :: join sep (w' :: ws) <+: w ++ sep :: join sep (w' :: (ws ++ us))
      rw [List.prefix_append_right_inj, List.prefix_cons_inj]
      exact hrest

end GoLib
