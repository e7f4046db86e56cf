import Konsul.Acl.Evaluator
import Konsul.Acl.PolicyJson
import Konsul.Raft.Node

/-!
# Policy requests and the policy directory (internal/handlers/acl.go)

The disk maps cleaned paths to the contents of the files that can be read.
Whether a write or a removal works is up to the system: `fault` is the error of
one that does not, and such an error is only logged. A pattern that does not
compile panics.
-/

namespace Konsul

open GoLib

/-! ### The policy directory -/

/-- `filepath.Join` of two non-empty elements. -/
def filepathJoin (dir file : GoString) : GoString := Path.clean (dir ++ Path.slash :: file)

/-- The last element of a path. -/
def filepathBase (path : GoString) : GoString := ((split Path.slash path).getLast?).getD []

/-- `hasMeta`: whether a directory is itself a pattern. -/
def hasMeta (path : GoString) : Bool :=
  path.any fun b => b == Path.star || b == Path.question || b == Path.openBracket ||
    b == Path.backslash

abbrev Disk := GoMap GoString Bytes

namespace ACLHandler

variable (re : Regexp) (policyDir : GoString)

/-- The file of a policy. -/
def policyFile (name : GoString) : GoString := filepathJoin policyDir (name ++ str ".json")

/-- Whether `filepath.Glob` of `*.json` in the directory finds a file. -/
def globs (path : GoString) : Bool :=
  if hasMeta (Path.clean policyDir) then
    decide (Path.matchPath (filepathJoin policyDir (str "*.json")) path = .ok true)
  else
    decide (filepathJoin policyDir (filepathBase path) = path) &&
      hasSuffix (filepathBase path) (str ".json")

/-- One file of the loop of `LoadPolicies`; `none` is a panic. -/
def loadFile (e : Evaluator) (file : Σ _ : GoString, Bytes) : Option Evaluator :=
  match Policy.fromJSON re file.2 with
  | none => none
  | some none => some e
  | some (some policy) => (e.addPolicy re policy).map Prod.fst

/-- `Glob` sorts the names it finds. -/
def loadPolicies (disk : Disk) (e : Evaluator) : Option Evaluator :=
  if policyDir = [] then some e
  else ((GoMap.sorted disk).list.filter fun file => globs policyDir file.1).foldlM (loadFile re) e

def savePolicyToFile (disk : Disk) (policy : Policy) (fault : Option GoError) :
    Disk × Option GoError :=
  match fault with
  | some err => (disk, some err)
  | none =>
    (disk.insert (policyFile policyDir policy.name) (Policy.codec.marshalIndent policy), none)

/-- `os.Remove`; a file that is not there is no error to the caller. -/
def removePolicyFile (disk : Disk) (name : GoString) (fault : Option GoError) : Disk :=
  match fault with
  | some _ => disk
  | none => disk.erase (policyFile policyDir name)

end ACLHandler

/-! ### Requests -/

structure PolicyServer where
  evaluator : Evaluator
  disk : Disk

inductive PolicyReply where
  | created (policy : Policy)
  | updated (policy : Policy)
  | deleted (name : GoString)
  | refused (r : Response)
  | panicked

namespace ACLHandler

variable (re : Regexp) (policyDir : GoString)

def conflict (message : GoString) : Response :=
  Response.errorResponse 409 (str "Conflict") message

/-- The disk after the policy is saved, where a directory is configured. -/
def saved (disk : Disk) (policy : Policy) (fault : Option GoError) : Disk :=
  if policyDir = [] then disk else (savePolicyToFile policyDir disk policy fault).1

/-- The validation the handlers make; the evaluator makes it again. -/
def validated (policy : Policy) (ok : PolicyServer × PolicyReply) (s : PolicyServer) :
    PolicyServer × PolicyReply :=
  match policy.validate re with
  | none => (s, .panicked)
  | some (.error err) => (s, .refused (.badRequest (str "Invalid policy: " ++ err.error)))
  | some (.ok ()) => ok

def createPolicy (s : PolicyServer) (body : Option Policy) (fault : Option GoError) :
    PolicyServer × PolicyReply :=
  match body with
  | none => (s, .refused (.badRequest (str "Invalid JSON body")))
  | some policy => validated re policy
      (match s.evaluator.addPolicy re policy with
        | none => (s, .panicked)
        | some (_, .error err) =>
          if err = ErrPolicyExists then (s, .refused (conflict (str "Policy already exists")))
          else (s, .refused (.internalError (str "Failed to add policy")))
        | some (e, .ok ()) =>
          (⟨e, saved policyDir s.disk policy fault⟩, .created policy)) s

def updatePolicy (s : PolicyServer) (name : GoString) (body : Option Policy)
    (fault : Option GoError) : PolicyServer × PolicyReply :=
  match body with
  | none => (s, .refused (.badRequest (str "Invalid JSON body")))
  | some policy =>
    if policy.name ≠ name then
      (s, .refused (.badRequest (str "Policy name in body must match URL parameter")))
    else validated re policy
      (match s.evaluator.updatePolicy re policy with
        | none => (s, .panicked)
        | some (_, .error err) =>
          if err = ErrPolicyNotFound then (s, .refused (.notFound (str "Policy not found")))
          else (s, .refused (.internalError (str "Failed to update policy")))
        | some (e, .ok ()) =>
          (⟨e, saved policyDir s.disk policy fault⟩, .updated policy)) s

def deletePolicy (s : PolicyServer) (name : GoString) (fault : Option GoError) :
    PolicyServer × PolicyReply :=
  match s.evaluator.deletePolicy name with
  | (_, .error err) =>
    if err = ErrPolicyNotFound then (s, .refused (.notFound (str "Policy not found")))
    else (s, .refused (.internalError (str "Failed to delete policy")))
  | (e, .ok ()) =>
    (⟨e, if policyDir = [] then s.disk else removePolicyFile policyDir s.disk name fault⟩,
      .deleted name)

/-! ### What a request changes -/

variable (s : PolicyServer) (fault : Option GoError)

theorem createPolicy_cases (body : Option Policy) :
    (createPolicy re policyDir s body fault).1 = s ∨
      ∃ policy, body = some policy ∧ policy.validate re = some (.ok ()) ∧
        s.evaluator.policies.lookup policy.name = none ∧
        (createPolicy re policyDir s body fault).1 =
          ⟨⟨s.evaluator.policies.insert policy.name policy⟩, saved policyDir s.disk policy fault⟩ := by
  cases body with
  | none => exact .inl rfl
  | some policy =>
    simp only [createPolicy, validated]
    cases hvalid : policy.validate re with
    | none => exact .inl rfl
    | some r =>
      cases r with
      | error err => exact .inl rfl
      | ok u =>
        dsimp only
        rw [Evaluator.addPolicy, hvalid]
        dsimp only
        cases hlookup : s.evaluator.policies.lookup policy.name with
        | some old => exact .inl rfl
        | none => exact .inr ⟨policy, rfl, hvalid, hlookup, rfl⟩

theorem updatePolicy_cases (name : GoString) (body : Option Policy) :
    (updatePolicy re policyDir s name body fault).1 = s ∨
      ∃ policy, body = some policy ∧ policy.name = name ∧ policy.validate re = some (.ok ()) ∧
        s.evaluator.policies.lookup name ≠ none ∧
        (updatePolicy re policyDir s name body fault).1 =
          ⟨⟨s.evaluator.policies.insert name policy⟩, saved policyDir s.disk policy fault⟩ := by
  cases body with
  | none => exact .inl rfl
  | some policy =>
    simp only [updatePolicy, validated]
    by_cases hname : policy.name = name
    · subst hname
      rw [if_neg (not_not.mpr rfl)]
      cases hvalid : policy.validate re with
      | none => exact .inl rfl
      | some r =>
        cases r with
        | error err => exact .inl rfl
        | ok u =>
          dsimp only
          rw [Evaluator.updatePolicy, hvalid]
          dsimp only
          cases hlookup : s.evaluator.policies.lookup policy.name with
          | none => exact .inl rfl
          | some old => exact .inr ⟨policy, rfl, rfl, hvalid, Option.some_ne_none old, rfl⟩
    · rw [if_pos hname]
      exact .inl rfl

theorem deletePolicy_cases (name : GoString) :
    (deletePolicy policyDir s name fault).1 = s ∨
      s.evaluator.policies.lookup name ≠ none ∧
        (deletePolicy policyDir s name fault).1 =
          ⟨⟨s.evaluator.policies.erase name⟩,
            if policyDir = [] then s.disk else removePolicyFile policyDir s.disk name fault⟩ := by
  unfold deletePolicy Evaluator.deletePolicy
  cases hlookup : s.evaluator.policies.lookup name with
  | none => exact .inl rfl
  | some old => exact .inr ⟨Option.some_ne_none old, rfl⟩

end ACLHandler

end Konsul
