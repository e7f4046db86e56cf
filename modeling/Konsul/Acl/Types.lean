import Konsul.Lib.Path
import Konsul.Store.Errors

/-!
# ACL policies (internal/acl/types.go, errors.go)

A policy carries rules for five kinds of resource. The path of a KV rule and the
name of a service rule are patterns, compiled to regular expressions; `Regexp` is
the engine that runs them. The compiled form is a function of the pattern and is
not a field here.
-/

namespace Konsul

open GoLib

def ErrInvalidPolicy : GoError := .sentinel (str "acl") (str "invalid policy")
def ErrPolicyNotFound : GoError := .sentinel (str "acl") (str "policy not found")
def ErrPolicyExists : GoError := .sentinel (str "acl") (str "policy already exists")

/-- A permission: any string a policy document names. -/
abbrev Capability := GoString

namespace Capability

def read : Capability := str "read"
def write : Capability := str "write"
def list : Capability := str "list"
def delete : Capability := str "delete"
def deny : Capability := str "deny"
def register : Capability := str "register"
def deregister : Capability := str "deregister"
def create : Capability := str "create"
def restore : Capability := str "restore"
def exportAll : Capability := str "export"
def importAll : Capability := str "import"
def admin : Capability := str "admin"

end Capability

/-- The kinds of resource; the type is a string in the source, so any other text
is possible too. -/
inductive ResourceType where
  | kv
  | service
  | health
  | backup
  | admin
  | other (name : GoString)
  deriving DecidableEq

structure KVRule where
  path : GoString
  capabilities : List Capability
  deriving DecidableEq

structure ServiceRule where
  name : GoString
  capabilities : List Capability
  deriving DecidableEq

structure HealthRule where
  capabilities : List Capability
  deriving DecidableEq

structure BackupRule where
  capabilities : List Capability
  deriving DecidableEq

structure AdminRule where
  capabilities : List Capability
  deriving DecidableEq

structure Policy where
  name : GoString
  description : GoString
  kv : List KVRule
  service : List ServiceRule
  health : List HealthRule
  backup : List BackupRule
  admin : List AdminRule
  deriving DecidableEq

/-! ### Patterns -/

/-- The regular expression engine: which expressions compile, and what a
compiled one matches. -/
structure Regexp where
  compiles : GoString → Bool
  matchString : GoString → GoString → Bool

/-- The replacements both kinds of rule start with. -/
def escapeSpecial (pattern : GoString) : GoString :=
  [".", "+", "?", "[", "]", "(", ")", "\x7b", "\x7d"].foldl
    (fun pattern c => replaceAll pattern (str c) (str "\\" ++ str c)) pattern

/-- `^` in front and `$` behind, where the pattern has none there. -/
def anchor (pattern : GoString) : GoString :=
  let pattern := if hasPrefix pattern (str "^") then pattern else str "^" ++ pattern
  if hasSuffix pattern (str "$") then pattern else pattern ++ str "$"

/-- The expression `KVRule.Compile` builds. -/
def KVRule.compile (r : KVRule) : GoString :=
  let pattern := escapeSpecial r.path
  let pattern := replaceAll pattern (str "**") (str "§DOUBLESTAR§")
  let pattern := replaceAll pattern (str "*") (str "[^/]*")
  let pattern := replaceAll pattern (str "§DOUBLESTAR§") (str ".*")
  anchor pattern

/-- The expression `ServiceRule.Compile` builds. -/
def ServiceRule.compile (r : ServiceRule) : GoString :=
  anchor (replaceAll (escapeSpecial r.name) (str "*") (str ".*"))

/-- `KVRule.Matches`, `Matches` in the source's case; the rule has been compiled. -/
def KVRule.isMatch (re : Regexp) (r : KVRule) (kvPath : GoString) : Bool :=
  re.matchString r.compile kvPath

/-- `ServiceRule.Matches`. -/
def ServiceRule.isMatch (re : Regexp) (r : ServiceRule) (serviceName : GoString) : Bool :=
  re.matchString r.compile serviceName

/-- The loop every kind of rule has as its `HasCapability`. -/
def hasCapability (capability : Capability) : List Capability → Bool
  | [] => false
  | c :: capabilities => if c = capability then true else hasCapability capability capabilities

theorem hasCapability_iff (capability : Capability) (capabilities : List Capability) :
    hasCapability capability capabilities ↔ capability ∈ capabilities := by
  induction capabilities with
  | nil => simp [hasCapability]
  | cons c capabilities ih =>
    rw [hasCapability, List.mem_cons]
    split_ifs with h
    · simp [h]
    · rw [ih]
      simp [Ne.symm h]

def KVRule.hasCapability (r : KVRule) (c : Capability) : Bool := Konsul.hasCapability c r.capabilities
def ServiceRule.hasCapability (r : ServiceRule) (c : Capability) : Bool :=
  Konsul.hasCapability c r.capabilities
def HealthRule.hasCapability (r : HealthRule) (c : Capability) : Bool :=
  Konsul.hasCapability c r.capabilities
def BackupRule.hasCapability (r : BackupRule) (c : Capability) : Bool :=
  Konsul.hasCapability c r.capabilities
def AdminRule.hasCapability (r : AdminRule) (c : Capability) : Bool :=
  Konsul.hasCapability c r.capabilities

/-! ### Resources -/

structure Resource where
  type : ResourceType
  path : GoString
  deriving DecidableEq

def newKVResource (keyPath : GoString) : Resource := ⟨.kv, Path.clean keyPath⟩
def newServiceResource (serviceName : GoString) : Resource := ⟨.service, serviceName⟩
def newHealthResource : Resource := ⟨.health, []⟩
def newBackupResource : Resource := ⟨.backup, []⟩
def newAdminResource : Resource := ⟨.admin, []⟩

/-- `Policy.Validate`: `none` is the panic of a pattern that does not compile. -/
def Policy.validate (re : Regexp) (p : Policy) : Option (Except GoError Unit) :=
  if p.name = [] then some (.error ErrInvalidPolicy)
  else if p.kv.all (fun r => re.compiles r.compile) ∧
      p.service.all (fun r => re.compiles r.compile) then some (.ok ())
  else none

end Konsul
