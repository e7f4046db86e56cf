import Konsul.Acl.Evaluator
import Konsul.Lib.First

/-!
# When an explicit deny wins

A policy on its own denies a request when its rules reach a deny before they
grant. The evaluator stops at the first attached policy that decides, so a deny
wins exactly when no granting policy is attached in front of every denying one.
-/

namespace Konsul

open GoLib

variable (re : Regexp) (resource : Resource) (capability : Capability)

/-! ### One policy -/

/-- A rule grants the capability when it lists it and no deny. -/
def Allows (capabilities : List Capability) : Prop :=
  capability ∈ capabilities ∧ Capability.deny ∉ capabilities

/-- An applicable rule lists deny, and no rule before it grants. -/
def Policy.Denies (p : Policy) : Prop :=
  ∃ before rule after, p.applicable re resource = before ++ rule :: after ∧
    Capability.deny ∈ rule ∧ ∀ r ∈ before, ¬ Allows capability r

/-- An applicable rule grants, and no rule before it lists deny. -/
def Policy.Grants (p : Policy) : Prop :=
  ∃ before rule after, p.applicable re resource = before ++ rule :: after ∧
    Allows capability rule ∧ ∀ r ∈ before, Capability.deny ∉ r

theorem ruleVerdict_eq_false_iff (rule : List Capability) :
    ruleVerdict capability rule = some false ↔ Capability.deny ∈ rule := by
  rw [ruleVerdict]
  split_ifs with h1 h2
  · simp [h1]
  · simp [h1]
  · simp [h1]

theorem ruleVerdict_eq_true_iff (rule : List Capability) :
    ruleVerdict capability rule = some true ↔ Allows capability rule := by
  rw [ruleVerdict, Allows]
  split_ifs with h1 h2
  · simp [h1]
  · simp [h1, h2]
  · simp [h2]

theorem Policy.denies_iff (p : Policy) :
    p.Denies re resource capability ↔ p.verdict re resource capability = some false := by
  rw [verdict, findSome?_eq_some_bool_iff, Denies]
  simp only [ruleVerdict_eq_false_iff, Bool.not_false, ne_eq, ruleVerdict_eq_true_iff]

theorem Policy.grants_iff (p : Policy) :
    p.Grants re resource capability ↔ p.verdict re resource capability = some true := by
  rw [verdict, findSome?_eq_some_bool_iff, Grants]
  simp only [ruleVerdict_eq_true_iff, Bool.not_true, ne_eq, ruleVerdict_eq_false_iff]

/-! ### The attached policies -/

namespace Evaluator

variable (e : Evaluator)

/-- The policy loaded under a name denies on its own. -/
def Denies (name : GoString) : Prop :=
  ∃ p, e.policies.lookup name = some p ∧ p.Denies re resource capability

/-- The policy loaded under a name grants on its own. -/
def Grants (name : GoString) : Prop :=
  ∃ p, e.policies.lookup name = some p ∧ p.Grants re resource capability

/-- What the evaluator has to answer for a list of policy names. -/
def DenyWins (names : List GoString) : Prop :=
  e.evaluate re names resource capability = true ↔
    (¬ ∃ name ∈ names, e.Denies re resource capability name) ∧
      ∃ name ∈ names, e.evaluate re [name] resource capability = true

/-- The names of policies that deny, if there are any, begin before the names of
policies that grant. -/
def DenyReached (names : List GoString) : Prop :=
  (∃ name ∈ names, e.Denies re resource capability name) →
    ∃ before name after, names = before ++ name :: after ∧ e.Denies re resource capability name ∧
      ∀ n ∈ before, ¬ e.Grants re resource capability n

/-- The verdict of the policy loaded under a name. -/
def verdict (name : GoString) : Option Bool :=
  (e.policies.lookup name).bind (Policy.verdict re resource capability)

theorem denies_iff (name : GoString) :
    e.Denies re resource capability name ↔ e.verdict re resource capability name = some false := by
  rw [verdict, Option.bind_eq_some_iff, Denies]
  simp only [Policy.denies_iff]

theorem grants_iff (name : GoString) :
    e.Grants re resource capability name ↔ e.verdict re resource capability name = some true := by
  rw [verdict, Option.bind_eq_some_iff, Grants]
  simp only [Policy.grants_iff]

theorem evaluate_names (names : List GoString) :
    e.evaluate re names resource capability =
      (names.findSome? (e.verdict re resource capability)).getD false := by
  have hscan : (e.attached names).findSome? (Policy.verdict re resource capability) =
      names.findSome? (e.verdict re resource capability) := by
    induction names with
    | nil => rfl
    | cons name names ih =>
      rw [attached] at ih ⊢
      rw [List.filterMap_cons, List.findSome?_cons, verdict]
      cases e.policies.lookup name with
      | none => exact ih
      | some p =>
        rw [Option.bind_some]
        simp only [List.findSome?_cons, ih]
  rw [evaluate_eq, hscan]

theorem evaluate_singleton (name : GoString) :
    e.evaluate re [name] resource capability = true ↔ e.Grants re resource capability name := by
  rw [evaluate_names, grants_iff, List.findSome?_cons]
  cases e.verdict re resource capability name with
  | none => simp
  | some b => simp

/-- The answer is yes when some policy grants and no deny is reached in front of
every grant. -/
theorem evaluate_eq_true_iff (names : List GoString) :
    e.evaluate re names resource capability = true ↔
      (∃ name ∈ names, e.Grants re resource capability name) ∧
        ¬ ∃ before name after, names = before ++ name :: after ∧
          e.Denies re resource capability name ∧
          ∀ n ∈ before, ¬ e.Grants re resource capability n := by
  have hfalse := findSome?_eq_some_bool_iff (l := names) (v := e.verdict re resource capability) false
  simp only [Bool.not_false, ne_eq] at hfalse
  simp only [denies_iff, grants_iff]
  rw [evaluate_names, ← hfalse]
  cases hv : names.findSome? (e.verdict re resource capability) with
  | none =>
    have hnone := List.findSome?_eq_none_iff.mp hv
    constructor
    · intro h
      cases h
    · rintro ⟨⟨name, hmem, hgrants⟩, -⟩
      rw [hnone name hmem] at hgrants
      cases hgrants
  | some b =>
    obtain ⟨name, hmem, hname⟩ := List.exists_of_findSome?_eq_some hv
    cases b with
    | true => exact ⟨fun _ => ⟨⟨name, hmem, hname⟩, by simp⟩, fun _ => rfl⟩
    | false => simp

/-- An explicit deny wins exactly when a denying policy is reached before the
granting ones, and the order of the names goes unnoticed exactly when the
attached policies do not disagree. -/
theorem deny_wins_iff (names : List GoString) :
    (e.DenyWins re resource capability names ↔ e.DenyReached re resource capability names) ∧
      ((∀ names', names'.Perm names →
          e.evaluate re names' resource capability = e.evaluate re names resource capability) ↔
        ¬ ((∃ name ∈ names, e.Denies re resource capability name) ∧
          ∃ name ∈ names, e.Grants re resource capability name)) := by
  constructor
  · rw [DenyWins, DenyReached, evaluate_eq_true_iff]
    simp only [evaluate_singleton]
    constructor
    · intro hspec hdenies
      by_contra hreached
      -- a list with a deny that is never reached first has a grant, so it is allowed
      obtain ⟨name, hmem, hname⟩ := hdenies
      have hgrants : ∃ n ∈ names, e.Grants re resource capability n := by
        obtain ⟨before, after, rfl⟩ := List.append_of_mem hmem
        by_contra hno
        refine hreached ⟨before, name, after, rfl, hname, fun n hn hg => hno ⟨n, ?_, hg⟩⟩
        exact List.mem_append_left _ hn
      exact (hspec.mp ⟨hgrants, hreached⟩).1 ⟨name, hmem, hname⟩
    · intro hreached
      constructor
      · rintro ⟨hgrants, hno⟩
        exact ⟨fun hdenies => hno (hreached hdenies), hgrants⟩
      · rintro ⟨hno, hgrants⟩
        refine ⟨hgrants, ?_⟩
        rintro ⟨before, name, after, rfl, hname, -⟩
        exact hno ⟨name, by simp, hname⟩
  · simp only [evaluate_names, denies_iff, grants_iff]
    rw [getD_findSome?_perm_iff]
    constructor
    · rintro hsame ⟨⟨a, ha, hfalse⟩, ⟨b, hb, htrue⟩⟩
      have := hsame a ha b hb false true hfalse htrue
      cases this
    · intro hno a ha b hb x y hx hy
      cases x <;> cases y
      · rfl
      · exact absurd ⟨⟨a, ha, hx⟩, ⟨b, hb, hy⟩⟩ hno
      · exact absurd ⟨⟨b, hb, hy⟩, ⟨a, ha, hx⟩⟩ hno
      · rfl

/-! ### A deny that is not reached -/

/-- An engine for expressions that are an anchored literal. -/
def literalRegexp : Regexp where
  compiles _ := true
  matchString pattern s := pattern == str "^" ++ s ++ str "$"

/-- `readers` may read a key that `lockdown` denies. -/
def lockedDown : Evaluator where
  policies := ((∅ : GoMap GoString Policy).insert (str "readers")
      { name := str "readers", description := [], kv := [⟨str "secret/db", [Capability.read]⟩],
        service := [], health := [], backup := [], admin := [] }).insert (str "lockdown")
      { name := str "lockdown", description := [], kv := [⟨str "secret/db", [Capability.deny]⟩],
        service := [], health := [], backup := [], admin := [] }

/-- With `readers` attached first, the deny of `lockdown` does not win; with the
names swapped it does. -/
theorem grant_shadows_deny :
    ¬ lockedDown.DenyWins literalRegexp (newKVResource (str "secret/db")) Capability.read
        [str "readers", str "lockdown"] ∧
      lockedDown.evaluate literalRegexp [str "lockdown", str "readers"]
        (newKVResource (str "secret/db")) Capability.read = false := by
  constructor
  · intro hwins
    have hallowed : lockedDown.evaluate literalRegexp [str "readers", str "lockdown"]
        (newKVResource (str "secret/db")) Capability.read = true := by decide
    refine (hwins.mp hallowed).1 ⟨str "lockdown", by decide, ?_⟩
    refine (denies_iff _ _ _ _ _).mpr ?_
    decide
  · decide

end Evaluator

end Konsul
