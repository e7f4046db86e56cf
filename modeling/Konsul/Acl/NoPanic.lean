import Konsul.Acl.Evaluator
import Konsul.Acl.PolicyJson
import Konsul.Acl.Readable

/-!
# Policy documents and panics (internal/acl/types.go, evaluator.go)

A policy is compiled when it is validated, before the evaluator takes it; a rule that is
matched before it was compiled is compiled there. Both panic on a pattern that the engine
refuses. The first panic ends the run.
-/

namespace Konsul

open GoLib

/-! ### Evaluation -/

/-- `KVRule.Matches` of a rule that may not be compiled yet. -/
def KVRule.tryMatch (re : Regexp) (r : KVRule) (kvPath : GoString) : Option Bool :=
  if re.compiles r.compile then some (r.isMatch re kvPath) else none

/-- `ServiceRule.Matches` of a rule that may not be compiled yet. -/
def ServiceRule.tryMatch (re : Regexp) (r : ServiceRule) (serviceName : GoString) : Option Bool :=
  if re.compiles r.compile then some (r.isMatch re serviceName) else none

/-- The loop over the rules of one policy, where matching may panic. -/
def tryRules {R : Type} (applies : R → Option Bool) (has : R → Capability → Bool)
    (capability : Capability) : List R → Option (Option Bool)
  | [] => some none
  | rule :: rules =>
    match applies rule with
    | none => none
    | some false => tryRules applies has capability rules
    | some true =>
      if has rule Capability.deny then some (some false)
      else if has rule capability then some (some true)
      else tryRules applies has capability rules

/-- The loop over the policies. -/
def tryPolicies (verdict : Policy → Option (Option Bool)) : List Policy → Option Bool
  | [] => some false
  | policy :: policies =>
    match verdict policy with
    | none => none
    | some (some allowed) => some allowed
    | some none => tryPolicies verdict policies

namespace Evaluator

def tryEvaluate (re : Regexp) (e : Evaluator) (policyNames : List GoString) (resource : Resource)
    (capability : Capability) : Option Bool :=
  if policyNames = [] then some false
  else
    let policies := e.attached policyNames
    if policies = [] then some false
    else
      match resource.type with
      | .kv => tryPolicies (fun policy => tryRules (fun rule => rule.tryMatch re resource.path)
          KVRule.hasCapability capability policy.kv) policies
      | .service => tryPolicies (fun policy =>
          tryRules (fun rule => rule.tryMatch re resource.path) ServiceRule.hasCapability capability
            policy.service) policies
      | .health => some (evaluateHealth policies capability)
      | .backup => some (evaluateBackup policies capability)
      | .admin => some (evaluateAdmin policies capability)
      | .other _ => some false

end Evaluator

theorem tryRules_eq {R : Type} {applies : R → Option Bool} {applies' : R → Bool}
    {has : R → Capability → Bool} {capability : Capability} {rules : List R}
    (h : ∀ rule ∈ rules, applies rule = some (applies' rule)) :
    tryRules applies has capability rules = some (scanRules applies' has capability rules) := by
  induction rules with
  | nil => rfl
  | cons rule rules ih =>
    rw [List.forall_mem_cons] at h
    rw [tryRules, scanRules, h.1]
    cases applies' rule with
    | false => exact ih h.2
    | true =>
      dsimp only
      rw [if_pos rfl]
      split_ifs
      · rfl
      · rfl
      · exact ih h.2

theorem tryPolicies_eq {verdict : Policy → Option (Option Bool)} {verdict' : Policy → Option Bool}
    {policies : List Policy} (h : ∀ policy ∈ policies, verdict policy = some (verdict' policy)) :
    tryPolicies verdict policies = some (scanPolicies verdict' policies) := by
  induction policies with
  | nil => rfl
  | cons policy policies ih =>
    rw [List.forall_mem_cons] at h
    rw [tryPolicies, scanPolicies, h.1]
    cases verdict' policy with
    | none => exact ih h.2
    | some allowed => rfl

theorem Policy.compiles_of_validate {re : Regexp} {p : Policy} (h : p.validate re = some (.ok ())) :
    (∀ r ∈ p.kv, re.compiles r.compile) ∧ ∀ r ∈ p.service, re.compiles r.compile := by
  rw [Policy.validate] at h
  split_ifs at h with hname hcompiles
  · cases h
  · rw [List.all_eq_true, List.all_eq_true] at hcompiles
    exact hcompiles

/-- The policies that the evaluator holds have been compiled. -/
theorem Evaluator.Loaded.tryEvaluate_eq {re : Regexp} {e : Evaluator} (h : e.Loaded re)
    (policyNames : List GoString) (resource : Resource) (capability : Capability) :
    e.tryEvaluate re policyNames resource capability =
      some (e.evaluate re policyNames resource capability) := by
  have hcompiles : ∀ policy ∈ e.attached policyNames,
      (∀ r ∈ policy.kv, re.compiles r.compile) ∧ ∀ r ∈ policy.service, re.compiles r.compile := by
    intro policy hpolicy
    obtain ⟨name, -, hheld⟩ := List.mem_filterMap.mp hpolicy
    exact Policy.compiles_of_validate (h name policy hheld).2
  simp only [tryEvaluate, evaluate]
  split_ifs
  · rfl
  · rfl
  · obtain ⟨type, path⟩ := resource
    cases type with
    | kv =>
      refine tryPolicies_eq fun policy hpolicy => tryRules_eq fun rule hrule => ?_
      exact if_pos ((hcompiles policy hpolicy).1 rule hrule)
    | service =>
      refine tryPolicies_eq fun policy hpolicy => tryRules_eq fun rule hrule => ?_
      exact if_pos ((hcompiles policy hpolicy).2 rule hrule)
    | _ => rfl

/-! ### Runs -/

inductive EvaluatorCall where
  | validate (policy : Policy)
  | fromJSON (data : Bytes)
  | addPolicy (policy : Policy)
  | updatePolicy (policy : Policy)
  | deletePolicy (name : GoString)
  | evaluate (policyNames : List GoString) (resource : Resource) (capability : Capability)

namespace EvaluatorCall

/-- The evaluator after a call; `none` is a panic. -/
def step (re : Regexp) (e : Evaluator) : EvaluatorCall → Option Evaluator
  | validate policy => (policy.validate re).map fun _ => e
  | fromJSON data => (Policy.fromJSON re data).map fun _ => e
  | addPolicy policy => (e.addPolicy re policy).map Prod.fst
  | updatePolicy policy => (e.updatePolicy re policy).map Prod.fst
  | deletePolicy name => some (e.deletePolicy name).1
  | evaluate policyNames resource capability =>
    (e.tryEvaluate re policyNames resource capability).map fun _ => e

def run (re : Regexp) (calls : List EvaluatorCall) : Option Evaluator :=
  calls.foldlM (step re) Evaluator.new

/-- The policy that a call validates; a document may hold none. -/
def policy : EvaluatorCall → Option Policy
  | validate policy => some policy
  | fromJSON data => Policy.codec.unmarshal data
  | addPolicy policy => some policy
  | updatePolicy policy => some policy
  | deletePolicy _ => none
  | evaluate _ _ _ => none

end EvaluatorCall

/-- A policy without a name is refused before its patterns are compiled. -/
def Policy.Readable (fits : GoString → Bool) (p : Policy) : Prop :=
  p.name = [] ∨ (∀ r ∈ p.kv, r.Readable fits) ∧ ∀ r ∈ p.service, r.Readable fits

section

variable {category : Char → Char → Bool} {fits : GoString → Bool}

theorem Policy.validate_returns_iff (p : Policy) :
    (p.validate (Regexp.go category fits)).isSome ↔ p.Readable fits := by
  have hall : (p.kv.all (fun r => (Regexp.go category fits).compiles r.compile) ∧
      p.service.all (fun r => (Regexp.go category fits).compiles r.compile)) ↔
        (∀ r ∈ p.kv, r.Readable fits) ∧ ∀ r ∈ p.service, r.Readable fits := by
    simp only [List.all_eq_true, KVRule.compiles_iff, ServiceRule.compiles_iff]
  rw [Policy.validate, Policy.Readable, ← hall]
  split_ifs with hname hreadable
  · exact iff_of_true rfl (.inl hname)
  · exact iff_of_true rfl (.inr hreadable)
  · exact iff_of_false Bool.false_ne_true (not_or.mpr ⟨hname, hreadable⟩)

theorem Policy.fromJSON_returns_iff (data : Bytes) :
    (Policy.fromJSON (Regexp.go category fits) data).isSome ↔
      ∀ p ∈ codec.unmarshal data, p.Readable fits := by
  rw [fromJSON]
  cases codec.unmarshal data with
  | none => exact iff_of_true rfl nofun
  | some policy =>
    have hvalidate := @validate_returns_iff category fits policy
    dsimp only
    simp only [Option.mem_some_iff, forall_eq', ← hvalidate]
    cases policy.validate (Regexp.go category fits) with
    | none => rfl
    | some answer => cases answer <;> exact iff_of_true rfl rfl

theorem Evaluator.write_returns_iff (e : Evaluator) (p : Policy) :
    ((e.addPolicy (Regexp.go category fits) p).isSome ↔ p.Readable fits) ∧
      ((e.updatePolicy (Regexp.go category fits) p).isSome ↔ p.Readable fits) := by
  have hvalidate := @Policy.validate_returns_iff category fits p
  rw [addPolicy, updatePolicy, ← hvalidate]
  cases p.validate (Regexp.go category fits) with
  | none => exact ⟨Iff.rfl, Iff.rfl⟩
  | some answer =>
    cases answer with
    | error err => exact ⟨Iff.rfl, Iff.rfl⟩
    | ok _ => cases e.policies.lookup p.name <;> exact ⟨Iff.rfl, Iff.rfl⟩

namespace EvaluatorCall

variable {e e' : Evaluator}

theorem step_returns_iff (h : e.Loaded (Regexp.go category fits)) (call : EvaluatorCall) :
    (call.step (Regexp.go category fits) e).isSome ↔ ∀ p ∈ call.policy, p.Readable fits := by
  cases call with
  | validate p => simpa [step, policy] using p.validate_returns_iff
  | fromJSON data => simpa [step, policy] using Policy.fromJSON_returns_iff data
  | addPolicy p => simpa [step, policy] using (e.write_returns_iff p).1
  | updatePolicy p => simpa [step, policy] using (e.write_returns_iff p).2
  | deletePolicy name => exact iff_of_true rfl nofun
  | evaluate policyNames resource capability =>
    rw [step, h.tryEvaluate_eq]
    exact iff_of_true rfl nofun

theorem loaded_step {re : Regexp} (h : e.Loaded re) {call : EvaluatorCall}
    (hstep : call.step re e = some e') : e'.Loaded re := by
  cases call with
  | addPolicy p =>
    obtain ⟨⟨e'', r⟩, hadd, rfl⟩ := Option.map_eq_some_iff.mp hstep
    exact h.addPolicy hadd
  | updatePolicy p =>
    obtain ⟨⟨e'', r⟩, hupdate, rfl⟩ := Option.map_eq_some_iff.mp hstep
    exact h.updatePolicy hupdate
  | deletePolicy name =>
    cases hstep
    exact h.deletePolicy name
  | _ =>
    obtain ⟨_, -, rfl⟩ := Option.map_eq_some_iff.mp hstep
    exact h

end EvaluatorCall

end

/-- A run of calls panics where a pattern that it compiles cannot be read, and nowhere else. -/
theorem EvaluatorCall.returns_iff (category : Char → Char → Bool) (fits : GoString → Bool)
    (calls : List EvaluatorCall) :
    (run (Regexp.go category fits) calls).isSome ↔
      ∀ call ∈ calls, ∀ p ∈ call.policy, p.Readable fits := by
  have hfrom : ∀ e : Evaluator, e.Loaded (Regexp.go category fits) →
      ((calls.foldlM (step (Regexp.go category fits)) e).isSome ↔
        ∀ call ∈ calls, ∀ p ∈ call.policy, p.Readable fits) := by
    induction calls with
    | nil => exact fun e _ => iff_of_true rfl nofun
    | cons call calls ih =>
      intro e he
      have hone := step_returns_iff he call
      rw [List.forall_mem_cons, ← hone, List.foldlM_cons]
      cases hstep : call.step (Regexp.go category fits) e with
      | none => exact iff_of_false Bool.false_ne_true fun h => Bool.false_ne_true h.1
      | some e' =>
        rw [Option.isSome_some]
        exact (ih e' (loaded_step he hstep)).trans (and_iff_right rfl).symm
  exact hfrom Evaluator.new Evaluator.loaded_new

/-- The path is `app\config`, and no escape begins with a `c`. -/
def configPolicy : Policy :=
  { name := str "config", description := [], kv := [⟨str "app\\config", [Capability.read]⟩],
    service := [], health := [], backup := [], admin := [] }

theorem escape_panics : ¬ ∀ calls,
    (EvaluatorCall.run (Regexp.go (fun _ _ => false) fun _ => true) calls).isSome := by
  intro h
  have hrun := h [.addPolicy configPolicy]
  exact absurd hrun (by decide)

end Konsul
