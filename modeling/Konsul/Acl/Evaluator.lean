import Konsul.Lib.GoMap
import Konsul.Acl.Types

/-!
# The ACL evaluator (internal/acl/evaluator.go)

The evaluator holds policies by name. `evaluate` collects the attached policies
that are loaded and scans their rules, policy by policy; the first rule that
applies and lists deny or the capability ends the scan.
-/

namespace Konsul

open GoLib

structure Evaluator where
  policies : GoMap GoString Policy

namespace Evaluator

variable (re : Regexp)

def new : Evaluator := ⟨∅⟩

def addPolicy (e : Evaluator) (policy : Policy) : Option (Evaluator × Except GoError Unit) :=
  match policy.validate re with
  | none => none
  | some (.error err) => some (e, .error err)
  | some (.ok ()) =>
    match e.policies.lookup policy.name with
    | some _ => some (e, .error ErrPolicyExists)
    | none => some (⟨e.policies.insert policy.name policy⟩, .ok ())

def updatePolicy (e : Evaluator) (policy : Policy) : Option (Evaluator × Except GoError Unit) :=
  match policy.validate re with
  | none => none
  | some (.error err) => some (e, .error err)
  | some (.ok ()) =>
    match e.policies.lookup policy.name with
    | none => some (e, .error ErrPolicyNotFound)
    | some _ => some (⟨e.policies.insert policy.name policy⟩, .ok ())

def deletePolicy (e : Evaluator) (name : GoString) : Evaluator × Except GoError Unit :=
  match e.policies.lookup name with
  | none => (e, .error ErrPolicyNotFound)
  | some _ => (⟨e.policies.erase name⟩, .ok ())

end Evaluator

/-! ### The policies held -/

namespace Evaluator

variable {re : Regexp}

/-- Every policy is held under its own name, and its patterns compile. -/
def Loaded (re : Regexp) (e : Evaluator) : Prop :=
  ∀ name policy, e.policies.lookup name = some policy →
    policy.name = name ∧ policy.validate re = some (.ok ())

theorem loaded_new : new.Loaded re := by
  intro name policy h
  rw [show new.policies.lookup name = none from Finmap.lookup_empty name] at h
  cases h

theorem Loaded.insert {e : Evaluator} (h : e.Loaded re) {policy : Policy}
    (hvalid : policy.validate re = some (.ok ())) :
    Loaded re ⟨e.policies.insert policy.name policy⟩ := by
  intro name held hheld
  rw [GoMap.lookup_insert_ite] at hheld
  split_ifs at hheld with hname
  · cases hheld
    exact ⟨hname.symm, hvalid⟩
  · exact h name held hheld

theorem Loaded.lookup_nil {e : Evaluator} (h : e.Loaded re) : e.policies.lookup [] = none := by
  cases hlookup : e.policies.lookup [] with
  | none => rfl
  | some policy =>
    obtain ⟨hname, hvalid⟩ := h [] policy hlookup
    rw [Policy.validate, if_pos hname] at hvalid
    cases hvalid

theorem Loaded.addPolicy {e e' : Evaluator} {policy : Policy} {r : Except GoError Unit}
    (h : e.Loaded re) (hadd : e.addPolicy re policy = some (e', r)) : e'.Loaded re := by
  unfold Evaluator.addPolicy at hadd
  split at hadd
  · cases hadd
  · cases hadd
    exact h
  · rename_i hvalid
    split at hadd
    · cases hadd
      exact h
    · cases hadd
      exact h.insert hvalid

theorem Loaded.updatePolicy {e e' : Evaluator} {policy : Policy} {r : Except GoError Unit}
    (h : e.Loaded re) (hupdate : e.updatePolicy re policy = some (e', r)) : e'.Loaded re := by
  unfold Evaluator.updatePolicy at hupdate
  split at hupdate
  · cases hupdate
  · cases hupdate
    exact h
  · rename_i hvalid
    split at hupdate
    · cases hupdate
      exact h
    · cases hupdate
      exact h.insert hvalid

theorem Loaded.deletePolicy {e : Evaluator} (h : e.Loaded re) (name : GoString) :
    (e.deletePolicy name).1.Loaded re := by
  unfold Evaluator.deletePolicy
  split
  · exact h
  · intro other policy hheld
    rw [GoMap.lookup_erase_ite] at hheld
    split_ifs at hheld
    exact h other policy hheld

end Evaluator

/-! ### The scan -/

/-- The loop over the rules of one policy. -/
def scanRules {R : Type} (applies : R → Bool) (has : R → Capability → Bool)
    (capability : Capability) : List R → Option Bool
  | [] => none
  | rule :: rules =>
    if applies rule then
      if has rule Capability.deny then some false
      else if has rule capability then some true
      else scanRules applies has capability rules
    else scanRules applies has capability rules

/-- The loop over the policies: denied when no rule decides. -/
def scanPolicies (verdict : Policy → Option Bool) : List Policy → Bool
  | [] => false
  | policy :: policies =>
    match verdict policy with
    | some allowed => allowed
    | none => scanPolicies verdict policies

def evaluateKV (re : Regexp) (policies : List Policy) (kvPath : GoString)
    (capability : Capability) : Bool :=
  scanPolicies (fun policy =>
    scanRules (fun rule => rule.isMatch re kvPath) KVRule.hasCapability capability policy.kv) policies

def evaluateService (re : Regexp) (policies : List Policy) (serviceName : GoString)
    (capability : Capability) : Bool :=
  scanPolicies (fun policy =>
    scanRules (fun rule => rule.isMatch re serviceName) ServiceRule.hasCapability capability
      policy.service) policies

def evaluateHealth (policies : List Policy) (capability : Capability) : Bool :=
  scanPolicies (fun policy =>
    scanRules (fun _ => true) HealthRule.hasCapability capability policy.health) policies

def evaluateBackup (policies : List Policy) (capability : Capability) : Bool :=
  scanPolicies (fun policy =>
    scanRules (fun _ => true) BackupRule.hasCapability capability policy.backup) policies

def evaluateAdmin (policies : List Policy) (capability : Capability) : Bool :=
  scanPolicies (fun policy =>
    scanRules (fun _ => true) AdminRule.hasCapability capability policy.admin) policies

namespace Evaluator

/-- The attached policies that are loaded, in the order of their names. -/
def attached (e : Evaluator) (policyNames : List GoString) : List Policy :=
  policyNames.filterMap e.policies.lookup

def evaluate (re : Regexp) (e : Evaluator) (policyNames : List GoString) (resource : Resource)
    (capability : Capability) : Bool :=
  if policyNames = [] then false
  else
    let policies := e.attached policyNames
    if policies = [] then false
    else
      match resource.type with
      | .kv => evaluateKV re policies resource.path capability
      | .service => evaluateService re policies resource.path capability
      | .health => evaluateHealth policies capability
      | .backup => evaluateBackup policies capability
      | .admin => evaluateAdmin policies capability
      | .other _ => false

end Evaluator

/-! ### The scan as a first verdict -/

/-- What one rule decides when it applies. -/
def ruleVerdict (capability : Capability) (capabilities : List Capability) : Option Bool :=
  if Capability.deny ∈ capabilities then some false
  else if capability ∈ capabilities then some true
  else none

/-- The capabilities listed by the rules of a policy that apply to a resource, in
the order of the rules. -/
def Policy.applicable (re : Regexp) (p : Policy) (resource : Resource) : List (List Capability) :=
  match resource.type with
  | .kv => (p.kv.filter fun r => r.isMatch re resource.path).map (·.capabilities)
  | .service => (p.service.filter fun r => r.isMatch re resource.path).map (·.capabilities)
  | .health => p.health.map (·.capabilities)
  | .backup => p.backup.map (·.capabilities)
  | .admin => p.admin.map (·.capabilities)
  | .other _ => []

def Policy.verdict (re : Regexp) (resource : Resource) (capability : Capability) (p : Policy) :
    Option Bool :=
  (p.applicable re resource).findSome? (ruleVerdict capability)

theorem scanPolicies_eq (verdict : Policy → Option Bool) (policies : List Policy) :
    scanPolicies verdict policies = (policies.findSome? verdict).getD false := by
  induction policies with
  | nil => rfl
  | cons policy policies ih =>
    rw [scanPolicies, List.findSome?_cons]
    cases verdict policy with
    | none => exact ih
    | some allowed => rfl

theorem scanRules_eq {R : Type} (applies : R → Bool) (has : R → Capability → Bool)
    (caps : R → List Capability) (hhas : ∀ r c, has r c ↔ c ∈ caps r) (capability : Capability)
    (rules : List R) :
    scanRules applies has capability rules =
      ((rules.filter applies).map caps).findSome? (ruleVerdict capability) := by
  induction rules with
  | nil => rfl
  | cons rule rules ih =>
    rw [scanRules, List.filter_cons]
    split_ifs with happ hdeny hcap
    · have hmem : Capability.deny ∈ caps rule := (hhas rule _).mp hdeny
      rw [List.map_cons, List.findSome?_cons, ruleVerdict, if_pos hmem]
    · have hnot : ¬ Capability.deny ∈ caps rule := fun h => hdeny ((hhas rule _).mpr h)
      have hmem : capability ∈ caps rule := (hhas rule _).mp hcap
      rw [List.map_cons, List.findSome?_cons, ruleVerdict, if_neg hnot, if_pos hmem]
    · have hnot : ¬ Capability.deny ∈ caps rule := fun h => hdeny ((hhas rule _).mpr h)
      have hnot' : ¬ capability ∈ caps rule := fun h => hcap ((hhas rule _).mpr h)
      rw [List.map_cons, List.findSome?_cons, ruleVerdict, if_neg hnot, if_neg hnot']
      exact ih
    · exact ih

/-- The evaluator answers with the first verdict of the attached policies. -/
theorem Evaluator.evaluate_eq (re : Regexp) (e : Evaluator) (policyNames : List GoString)
    (resource : Resource) (capability : Capability) :
    e.evaluate re policyNames resource capability =
      ((e.attached policyNames).findSome? (Policy.verdict re resource capability)).getD false := by
  have hkv := scanRules_eq (fun r => KVRule.isMatch re r resource.path) KVRule.hasCapability
    (·.capabilities) (fun r c => hasCapability_iff c r.capabilities) capability
  have hservice := scanRules_eq (fun r => ServiceRule.isMatch re r resource.path)
    ServiceRule.hasCapability (·.capabilities) (fun r c => hasCapability_iff c r.capabilities)
    capability
  have hhealth := scanRules_eq (fun _ => true) HealthRule.hasCapability
    (·.capabilities) (fun r c => hasCapability_iff c r.capabilities) capability
  have hbackup := scanRules_eq (fun _ => true) BackupRule.hasCapability
    (·.capabilities) (fun r c => hasCapability_iff c r.capabilities) capability
  have hadmin := scanRules_eq (fun _ => true) AdminRule.hasCapability
    (·.capabilities) (fun r c => hasCapability_iff c r.capabilities) capability
  simp only [List.filter_true] at hhealth hbackup hadmin
  simp only [evaluate]
  split_ifs with hnames hpolicies
  · rw [hnames]
    rfl
  · rw [hpolicies]
    rfl
  · obtain ⟨type, path⟩ := resource
    cases type with
    | kv => rw [evaluateKV, scanPolicies_eq]; simp only [hkv]; rfl
    | service => rw [evaluateService, scanPolicies_eq]; simp only [hservice]; rfl
    | health => rw [evaluateHealth, scanPolicies_eq]; simp only [hhealth]; rfl
    | backup => rw [evaluateBackup, scanPolicies_eq]; simp only [hbackup]; rfl
    | admin => rw [evaluateAdmin, scanPolicies_eq]; simp only [hadmin]; rfl
    | other name =>
      have hnone : (e.attached policyNames).findSome?
          (Policy.verdict re ⟨.other name, path⟩ capability) = none :=
        List.findSome?_eq_none_iff.mpr fun _ _ => rfl
      rw [hnone]
      rfl

end Konsul
