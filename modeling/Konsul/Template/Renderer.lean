import Konsul.Lib.Path
import Konsul.Lib.Program
import Konsul.Store.Errors

/-!
# Rendering a template (internal/template/renderer.go)

A render is a program over `Op`, the calls that leave the package: the readers of the two
stores, the operating system and the command. A parsed template is a program over the
functions of its function map that call out; `parse` stands for text/template. `exec` runs
the calls in an `Environment`, which says what others do in the meantime and which calls fail.
-/

namespace Konsul.Template

open GoLib

/-- A service as the readers hand it out. -/
structure Service where
  name : GoString
  address : GoString
  port : ℤ
  deriving DecidableEq

structure KVPair where
  key : GoString
  value : GoString
  deriving DecidableEq

structure WaitConfig where
  min : Duration
  max : Duration

/-- The template of a render. -/
structure Config where
  source : GoString
  destination : GoString
  command : GoString
  commandTimeout : Duration
  perms : ℕ
  backup : Bool
  wait : Option WaitConfig

/-- The permissions of the destination, or the default. -/
def Config.mode (config : Config) : ℕ := if config.perms = 0 then 0o644 else config.perms

def Config.timeout (config : Config) : Duration :=
  if config.commandTimeout = 0 then 30 * 10 ^ 9 else config.commandTimeout

/-- Which stores there are, and whether nothing is to be written or run. -/
structure RenderContext where
  kvStore : Bool
  serviceStore : Bool
  dryRun : Bool

structure RenderResult where
  content : GoString
  written : Bool
  commandExecuted : Bool
  commandOutput : GoString
  error : Option GoString
  deriving DecidableEq

/-! ### Calls -/

inductive Op where
  | get (key : GoString)
  | list
  | getService (name : GoString)
  | listServices
  | getenv (key : GoString)
  | abs (path : GoString)
  | readFile (path : GoString)
  | mkdirAll (path : GoString) (perm : ℕ)
  | stat (path : GoString)
  | writeFile (path : GoString) (data : Bytes) (perm : ℕ)
  | rename (oldPath newPath : GoString)
  | remove (path : GoString)
  | execute (command : GoString) (timeout : Duration)

/-- The answer of a call; an error that is nil is `none`. -/
def Op.Answer : Op → Type
  | .get _ => Option GoString
  | .list => List GoString
  | .getService _ => Option Service
  | .listServices => List Service
  | .getenv _ => GoString
  | .abs _ => Except GoString GoString
  | .readFile _ => Except GoString Bytes
  | .mkdirAll _ _ => Option GoString
  | .stat _ => Except GoString ℕ
  | .writeFile _ _ _ => Option GoString
  | .rename _ _ => Option GoString
  | .remove _ => Option GoString
  | .execute _ _ => GoString × Option GoString

abbrev Calls (R : Type) := Program Op Op.Answer R

/-- The functions of the map that call out. -/
inductive Func where
  | kv (key : GoString)
  | kvTree (start : GoString)
  | kvList (start : GoString)
  | service (name : GoString)
  | services
  | env (key : GoString)
  | file (path : GoString)

def Func.Result : Func → Type
  | .kv _ => Except GoString GoString
  | .kvTree _ => Except GoString (List KVPair)
  | .kvList _ => Except GoString (List GoString)
  | .service _ => Except GoString (List Service)
  | .services => Except GoString (List Service)
  | .env _ => GoString
  | .file _ => Except GoString GoString

/-- A parsed template: its execution writes a text or fails. -/
abbrev Parsed := Program Func Func.Result (Except GoString GoString)

/-! ### The function map -/

namespace RenderContext

variable (ctx : RenderContext)

def noKVStore : GoString := str "KV store not available"

def noServiceStore : GoString := str "service store not available"

def kv (key : GoString) : Calls (Except GoString GoString) :=
  if ctx.kvStore then do
    match ← Program.perform (Op.get key) with
    | some value => pure (.ok value)
    | none => pure (.error (str "key not found: " ++ key))
  else pure (.error noKVStore)

/-- The loop of `kvTree`; keys that have gone by now are passed over. -/
def pairsOf (start : GoString) : List GoString → Calls (List KVPair)
  | [] => pure []
  | key :: keys =>
    if hasPrefix key start then do
      match ← Program.perform (Op.get key) with
      | some value => (⟨key, value⟩ :: ·) <$> pairsOf start keys
      | none => pairsOf start keys
    else pairsOf start keys

def kvTree (start : GoString) : Calls (Except GoString (List KVPair)) :=
  if ctx.kvStore then do
    let keys ← Program.perform Op.list
    .ok <$> pairsOf start keys
  else pure (.error noKVStore)

def kvList (start : GoString) : Calls (Except GoString (List GoString)) :=
  if ctx.kvStore then do
    let keys ← Program.perform Op.list
    pure (.ok (List.filter (hasPrefix · start) keys))
  else pure (.error noKVStore)

def service (name : GoString) : Calls (Except GoString (List Service)) :=
  if ctx.serviceStore then do
    match ← Program.perform (Op.getService name) with
    | some svc => pure (.ok [svc])
    | none => pure (.ok [])
  else pure (.error noServiceStore)

def services : Calls (Except GoString (List Service)) :=
  if ctx.serviceStore then .ok <$> Program.perform Op.listServices
  else pure (.error noServiceStore)

end RenderContext

def file (path : GoString) : Calls (Except GoString GoString) := do
  match ← Program.perform (Op.abs path) with
  | .error err => pure (.error (str "failed to resolve path " ++ path ++ str ": " ++ err))
  | .ok absPath =>
    match ← Program.perform (Op.readFile absPath) with
    | .error err => pure (.error (str "failed to read file " ++ absPath ++ str ": " ++ err))
    | .ok content => pure (.ok content)

def RenderContext.funcMap (ctx : RenderContext) : (f : Func) → Calls f.Result
  | .kv key => ctx.kv key
  | .kvTree start => ctx.kvTree start
  | .kvList start => ctx.kvList start
  | .service name => ctx.service name
  | .services => ctx.services
  | .env key => Program.perform (Op.getenv key)
  | .file path => file path

/-! ### Paths -/

/-- `filepath.Dir`. -/
def dir (path : GoString) : GoString :=
  Path.clean (path.reverse.dropWhile (· ≠ Path.slash)).reverse

/-- `filepath.Base`. -/
def base (path : GoString) : GoString :=
  if path = [] then Path.dot
  else
    let last := ((path.reverse.dropWhile (· = Path.slash)).takeWhile (· ≠ Path.slash)).reverse
    if last = [] then [Path.slash] else last

def backupPath (destination : GoString) : GoString := destination ++ str ".bak"

def tempPath (destination : GoString) : GoString := destination ++ str ".tmp"

/-! ### Render -/

section

variable (parse : GoString → Bytes → Except GoString Parsed) (ctx : RenderContext)

/-- The source read, parsed and executed. -/
def execute (config : Config) : Calls (Except GoString GoString) := do
  match ← Program.perform (Op.readFile config.source) with
  | .error err =>
    pure (.error (str "failed to read template source " ++ config.source ++ str ": " ++ err))
  | .ok templateContent =>
    match parse (base config.source) templateContent with
    | .error err =>
      pure (.error (str "failed to parse template " ++ config.source ++ str ": " ++ err))
    | .ok tmpl =>
      match ← tmpl.interpret ctx.funcMap with
      | .error err =>
        pure (.error (str "failed to execute template " ++ config.source ++ str ": " ++ err))
      | .ok content => pure (.ok content)

/-- What is there to render, or nothing if that fails. -/
def getRenderedContent (config : Config) : Calls GoString :=
  (fun rendered => rendered.toOption.getD []) <$> execute parse ctx config

def copyFile (src dst : GoString) : Calls (Option GoString) := do
  match ← Program.perform (Op.readFile src) with
  | .error err => pure (some err)
  | .ok data =>
    match ← Program.perform (Op.stat src) with
    | .error err => pure (some err)
    | .ok mode => Program.perform (Op.writeFile dst data mode)

/-- `writeFile` up to the temporary file: the directory and the backup. -/
def prepare (config : Config) : Calls (Option GoString) := do
  match ← Program.perform (Op.mkdirAll (dir config.destination) 0o755) with
  | some err =>
    pure (some (str "failed to create destination directory " ++ dir config.destination ++ str ": "
      ++ err))
  | none =>
    if config.backup then do
      match ← Program.perform (Op.stat config.destination) with
      | .error _ => pure none
      | .ok _ =>
        match ← copyFile config.destination (backupPath config.destination) with
        | some err => pure (some (str "failed to create backup: " ++ err))
        | none => pure none
    else pure none

/-- The rest of `writeFile`: the new content, through the temporary file. -/
def replaceFile (config : Config) (content : GoString) : Calls (Option GoString) := do
  match ← Program.perform (Op.writeFile (tempPath config.destination) content config.mode) with
  | some err => pure (some (str "failed to write temporary file: " ++ err))
  | none =>
    match ← Program.perform (Op.rename (tempPath config.destination) config.destination) with
    | some err => do
      let _ ← Program.perform (Op.remove (tempPath config.destination))
      pure (some (str "failed to rename file: " ++ err))
    | none => pure none

def writeFile (config : Config) : Calls (Option GoString) := do
  match ← prepare config with
  | some err => pure (some err)
  | none => do
    let content ← getRenderedContent parse ctx config
    replaceFile config content

/-- The end of a render: the command. -/
def runCommand (config : Config) (result : RenderResult) : Calls RenderResult :=
  if config.command ≠ [] then do
    let r ← Program.perform (Op.execute config.command config.timeout)
    match r.2 with
    | some err => pure { result with commandOutput := r.1, error := some err }
    | none => pure { result with commandOutput := r.1, commandExecuted := true }
  else pure result

/-- `Render`; the error it returns is that of the result. -/
def render (config : Config) : Calls RenderResult := do
  match ← execute parse ctx config with
  | .error err => pure ⟨[], false, false, [], some err⟩
  | .ok content =>
    let result : RenderResult := ⟨content, false, false, [], none⟩
    if ctx.dryRun then pure result
    else if config.destination ≠ [] then do
      match ← writeFile parse ctx config with
      | some err => pure { result with error := some err }
      | none => runCommand config { result with written := true }
    else runCommand config result

end

/-! ### The world of a render -/

structure File where
  content : Bytes
  mode : ℕ
  deriving DecidableEq

/-- What the readers and the operating system answer at some time. -/
structure World where
  get : GoString → Option GoString
  list : List GoString
  getService : GoString → Option Service
  listServices : List Service
  getenv : GoString → GoString
  abs : GoString → Except GoString GoString
  files : GoString → Option File

/-- A call that fails: its error, and what a failed write leaves in the file. -/
structure Fault where
  err : GoString
  torn : Option File

/-- What happens around the calls, which are numbered: what others do before the call, whether the
call fails, and what a command prints and returns. What a command does is done by others. -/
structure Environment where
  before : ℕ → World → World
  fault : ℕ → Option Fault
  output : ℕ → GoString × Option GoString

/-- What a render has done to the outside. -/
inductive Effect where
  | replaced (path : GoString)
  | ran (command : GoString)
  deriving DecidableEq

structure State where
  world : World
  calls : ℕ
  effects : List Effect

namespace Environment

variable (env : Environment)

/-- The world that the next call finds. -/
def found (s : State) : World := env.before s.calls s.world

def notExist (path : GoString) : GoString := str "open " ++ path ++ str ": no such file or directory"

/-- The state after a call that leaves all as it found it. -/
def next (s : State) : State := { s with world := env.found s, calls := s.calls + 1 }

def withFile (s : State) (path : GoString) (f : Option File) : State :=
  { s with world := { s.world with files := Function.update s.world.files path f } }

def exec (s : State) : (op : Op) → State × op.Answer
  | .get key => (env.next s, (env.found s).get key)
  | .list => (env.next s, (env.found s).list)
  | .getService name => (env.next s, (env.found s).getService name)
  | .listServices => (env.next s, (env.found s).listServices)
  | .getenv key => (env.next s, (env.found s).getenv key)
  | .abs path => (env.next s, (env.found s).abs path)
  | .readFile path =>
    (env.next s,
      match env.fault s.calls, (env.found s).files path with
      | some fault, _ => .error fault.err
      | none, some f => .ok f.content
      | none, none => .error (notExist path))
  | .mkdirAll _ _ => (env.next s, (env.fault s.calls).map Fault.err)
  | .stat path =>
    (env.next s,
      match env.fault s.calls, (env.found s).files path with
      | some fault, _ => .error fault.err
      | none, some f => .ok f.mode
      | none, none => .error (notExist path))
  | .writeFile path data perm =>
    match env.fault s.calls with
    | some fault => (withFile (env.next s) path fault.torn, some fault.err)
    | none =>
      let mode := ((env.found s).files path).elim perm File.mode
      (withFile (env.next s) path (some ⟨data, mode⟩), none)
  | .rename oldPath newPath =>
    match env.fault s.calls, (env.found s).files oldPath with
    | some fault, _ => (env.next s, some fault.err)
    | none, none => (env.next s, some (notExist oldPath))
    | none, some f =>
      let moved := withFile (withFile (env.next s) oldPath none) newPath (some f)
      ({ moved with effects := moved.effects ++ [.replaced newPath] }, none)
  | .remove path =>
    match env.fault s.calls with
    | some fault => (env.next s, some fault.err)
    | none => (withFile (env.next s) path none, none)
  | .execute command _ =>
    let s' := env.next s
    ({ s' with effects := s'.effects ++ [.ran command] }, env.output s.calls)

end Environment

end Konsul.Template
