import Konsul.Template.Renderer

/-!
# The file of a render

`writeFile` renders the template once more and takes a failure for an empty text. The first
rendering is what the result reports, the second what the destination gets.
-/

namespace Konsul.Template

open GoLib

/-! ### What calls leave alone -/

/-- The call does not write to the path. -/
def Op.Leaves (path : GoString) : Op → Prop
  | .writeFile p _ _ => p ≠ path
  | .rename oldPath newPath => oldPath ≠ path ∧ newPath ≠ path
  | .remove p => p ≠ path
  | _ => True

/-- Others do not write to the path. -/
def Environment.Spares (env : Environment) (path : GoString) : Prop :=
  ∀ n w, (env.before n w).files path = w.files path

variable {env : Environment} {path : GoString} {s : State}

theorem files_next (h : env.Spares path) (s : State) :
    (env.next s).world.files path = s.world.files path := h s.calls s.world

theorem files_withFile_of_ne {p : GoString} (hp : p ≠ path) (s : State) (f : Option File) :
    (Environment.withFile s p f).world.files path = s.world.files path := by
  show Function.update s.world.files p f path = s.world.files path
  rw [Function.update_of_ne hp.symm]

theorem files_exec (h : env.Spares path) (s : State) {op : Op} (hop : op.Leaves path) :
    (env.exec s op).1.world.files path = s.world.files path := by
  cases op with
  | writeFile p data perm =>
    simp only [Environment.exec]
    split
    · exact (files_withFile_of_ne hop _ _).trans (files_next h s)
    · exact (files_withFile_of_ne hop _ _).trans (files_next h s)
  | rename oldPath newPath =>
    simp only [Environment.exec]
    split
    · exact files_next h s
    · exact files_next h s
    · refine (files_withFile_of_ne hop.2 _ _).trans ?_
      exact (files_withFile_of_ne hop.1 _ _).trans (files_next h s)
  | remove p =>
    simp only [Environment.exec]
    split
    · exact files_next h s
    · exact (files_withFile_of_ne hop _ _).trans (files_next h s)
  | get key => exact files_next h s
  | list => exact files_next h s
  | getService name => exact files_next h s
  | listServices => exact files_next h s
  | getenv key => exact files_next h s
  | abs p => exact files_next h s
  | readFile p => exact files_next h s
  | mkdirAll p perm => exact files_next h s
  | stat p => exact files_next h s
  | execute command timeout => exact files_next h s

theorem files_run (h : env.Spares path) {R : Type} {p : Calls R} (hp : p.Only (Op.Leaves path))
    (s : State) : (p.run env.exec s).1.world.files path = s.world.files path :=
  hp.run_eq (f := fun s => s.world.files path) (fun s _ hop => files_exec h s hop) s

/-- The call does nothing to the outside but write a file. -/
def Op.Quiet : Op → Prop
  | .rename _ _ => False
  | .execute _ _ => False
  | _ => True

theorem effects_exec (s : State) {op : Op} (hop : op.Quiet) :
    (env.exec s op).1.effects = s.effects := by
  cases op with
  | rename oldPath newPath => exact hop.elim
  | execute command timeout => exact hop.elim
  | writeFile p data perm =>
    simp only [Environment.exec]
    split <;> rfl
  | remove p =>
    simp only [Environment.exec]
    split <;> rfl
  | _ => rfl

theorem backupPath_ne (destination : GoString) : backupPath destination ≠ destination := fun h =>
  absurd (List.append_right_eq_self.mp h) (by decide)

theorem tempPath_ne (destination : GoString) : tempPath destination ≠ destination := fun h =>
  absurd (List.append_right_eq_self.mp h) (by decide)

/-- The call writes to no file but the backup, and runs no command. -/
def Op.Mild (destination : GoString) : Op → Prop
  | .writeFile p _ _ => p = backupPath destination
  | .rename _ _ => False
  | .remove _ => False
  | .execute _ _ => False
  | _ => True

variable {destination : GoString}

theorem Op.Mild.leaves {op : Op} (h : op.Mild destination) : op.Leaves destination := by
  cases op with
  | writeFile p data perm =>
    change p = backupPath destination at h
    rw [h]
    exact backupPath_ne destination
  | rename oldPath newPath => exact h.elim
  | remove p => exact h.elim
  | _ => trivial

theorem Op.Mild.quiet {op : Op} (h : op.Mild destination) : op.Quiet := by
  cases op with
  | rename oldPath newPath => exact h.elim
  | execute command timeout => exact h.elim
  | _ => trivial

theorem effects_run {R : Type} {p : Calls R} (hp : p.Only (Op.Mild destination)) (s : State) :
    (p.run env.exec s).1.effects = s.effects := by
  have hstep (s : State) (op : Op) (hop : op.Mild destination) :
      (env.exec s op).1.effects = s.effects := effects_exec s hop.quiet
  exact hp.run_eq (f := State.effects) hstep s

/-- The call reads. -/
def Op.Reads : Op → Prop
  | .mkdirAll _ _ => False
  | .writeFile _ _ _ => False
  | .rename _ _ => False
  | .remove _ => False
  | .execute _ _ => False
  | _ => True

theorem Op.Reads.mild {op : Op} (h : op.Reads) : op.Mild destination := by
  cases op with
  | writeFile p data perm => exact h.elim
  | rename oldPath newPath => exact h.elim
  | remove p => exact h.elim
  | execute command timeout => exact h.elim
  | _ => trivial

theorem reads_pairsOf (start : GoString) (keys : List GoString) :
    (RenderContext.pairsOf start keys).Only Op.Reads := by
  induction keys with
  | nil => trivial
  | cons key keys ih =>
    rw [RenderContext.pairsOf]
    split_ifs
    · refine Program.only_bind (Program.only_perform trivial) fun value => ?_
      cases value with
      | none => exact ih
      | some value => exact Program.only_bind ih fun _ => trivial
    · exact ih

theorem reads_funcMap (ctx : RenderContext) (f : Func) : (ctx.funcMap f).Only Op.Reads := by
  cases f with
  | kv key =>
    simp only [RenderContext.funcMap, RenderContext.kv]
    split_ifs
    · exact Program.only_bind (Program.only_perform trivial) fun value => by cases value <;> trivial
    · trivial
  | kvTree start =>
    simp only [RenderContext.funcMap, RenderContext.kvTree]
    split_ifs
    · exact Program.only_bind (Program.only_perform trivial) fun keys =>
        Program.only_bind (reads_pairsOf start keys) fun _ => trivial
    · trivial
  | kvList start =>
    simp only [RenderContext.funcMap, RenderContext.kvList]
    split_ifs
    · exact Program.only_bind (Program.only_perform trivial) fun _ => trivial
    · trivial
  | service name =>
    simp only [RenderContext.funcMap, RenderContext.service]
    split_ifs
    · exact Program.only_bind (Program.only_perform trivial) fun svc => by cases svc <;> trivial
    · trivial
  | services =>
    simp only [RenderContext.funcMap, RenderContext.services]
    split_ifs
    · exact Program.only_bind (Program.only_perform trivial) fun _ => trivial
    · trivial
  | env key => exact Program.only_perform trivial
  | file p =>
    refine Program.only_bind (Program.only_perform trivial) fun absPath => ?_
    cases absPath with
    | error err => trivial
    | ok absPath =>
      exact Program.only_bind (Program.only_perform trivial) fun content => by
        cases content <;> trivial

section

variable (parse : GoString → Bytes → Except GoString Parsed) (ctx : RenderContext)

theorem reads_execute (config : Config) : (execute parse ctx config).Only Op.Reads := by
  refine Program.only_bind (Program.only_perform trivial) fun content => ?_
  cases content with
  | error err => trivial
  | ok content =>
    dsimp only
    cases parse (base config.source) content with
    | error err => trivial
    | ok tmpl =>
      refine Program.only_bind (Program.only_interpret (reads_funcMap ctx) tmpl) fun rendered => ?_
      cases rendered <;> trivial

theorem mild_execute (config : Config) : (execute parse ctx config).Only (Op.Mild destination) :=
  (reads_execute parse ctx config).mono fun _ => Op.Reads.mild

theorem files_execute {config : Config} (h : env.Spares config.destination) (s : State) :
    ((execute parse ctx config).run env.exec s).1.world.files config.destination =
      s.world.files config.destination :=
  files_run h ((mild_execute parse ctx config).mono fun _ => Op.Mild.leaves) s

end

/-! ### The stages of a render -/

/-- `prepare` makes the directory, reads, and writes the backup that is asked for. -/
theorem only_prepare {config : Config} {P : Op → Prop} (hreads : ∀ op : Op, op.Reads → P op)
    (hmkdir : P (.mkdirAll (dir config.destination) 0o755))
    (hbackup : config.backup = true →
      ∀ data mode, P (.writeFile (backupPath config.destination) data mode)) :
    (prepare config).Only P := by
  refine Program.only_bind (Program.only_perform hmkdir) fun err => ?_
  cases err with
  | some err => trivial
  | none =>
    dsimp only
    split_ifs with hwanted
    · refine Program.only_bind (Program.only_perform (hreads _ trivial)) fun mode => ?_
      cases mode with
      | error err => trivial
      | ok mode =>
        refine Program.only_bind ?_ fun err => by cases err <;> trivial
        refine Program.only_bind (Program.only_perform (hreads _ trivial)) fun data => ?_
        cases data with
        | error err => trivial
        | ok data =>
          refine Program.only_bind (Program.only_perform (hreads _ trivial)) fun mode => ?_
          cases mode with
          | error err => trivial
          | ok mode => exact Program.only_perform (hbackup hwanted data mode)
    · trivial

theorem mild_prepare (config : Config) : (prepare config).Only (Op.Mild config.destination) :=
  only_prepare (fun _ => Op.Reads.mild) trivial fun _ _ _ => rfl

theorem files_prepare {config : Config} (h : env.Spares config.destination) (s : State) :
    ((prepare config).run env.exec s).1.world.files config.destination =
      s.world.files config.destination :=
  files_run h ((mild_prepare config).mono fun _ => Op.Mild.leaves) s

theorem files_runCommand (h : env.Spares path) (config : Config) (result : RenderResult) (s : State) :
    ((runCommand config result).run env.exec s).1.world.files path = s.world.files path := by
  refine files_run h ?_ s
  rw [runCommand]
  split_ifs
  · refine Program.only_bind (Program.only_perform trivial) fun r => ?_
    cases r.2 <;> trivial
  · trivial

/-- What the destination holds. -/
def contentAt (s : State) (path : GoString) : Option Bytes := (s.world.files path).map File.content

/-- The temporary file can be written and renamed, from the call on that is next. -/
def Environment.Replaces (env : Environment) (s : State) : Prop :=
  env.fault s.calls = none ∧ env.fault (s.calls + 1) = none

/-- There is no command, or it succeeds as the call `n`. -/
def Environment.Succeeds (env : Environment) (config : Config) (n : ℕ) : Prop :=
  config.command = [] ∨ (env.output n).2 = none

/-- The new file takes the place of the old. -/
theorem replaceFile_run {config : Config} (htemp : env.Spares (tempPath config.destination))
    (content : GoString) (s : State) (h : env.Replaces s) :
    let r := (replaceFile config content).run env.exec s
    r.2 = none ∧ contentAt r.1 config.destination = some content ∧ r.1.calls = s.calls + 2 := by
  obtain ⟨hwrite, hrename⟩ := h
  let f : File :=
    ⟨content, ((env.found s).files (tempPath config.destination)).elim config.mode File.mode⟩
  let written := Environment.withFile (env.next s) (tempPath config.destination) (some f)
  have hfirst : env.exec s (.writeFile (tempPath config.destination) content config.mode) =
      (written, none) := by
    simp only [Environment.exec, hwrite]
    rfl
  have hfound : (env.found written).files (tempPath config.destination) = some f :=
    (htemp written.calls written.world).trans (Function.update_self _ _ _)
  have hcalls : written.calls = s.calls + 1 := rfl
  have hsecond : ∃ s',
      env.exec written (.rename (tempPath config.destination) config.destination) = (s', none) ∧
      contentAt s' config.destination = some content ∧ s'.calls = s.calls + 2 := by
    simp only [Environment.exec, hcalls, hrename, hfound]
    refine ⟨_, rfl, ?_, rfl⟩
    simp [contentAt, Environment.withFile, f]
  obtain ⟨s', hmoved, hcontent, hcount⟩ := hsecond
  rw [replaceFile, Program.run_perform_bind, hfirst]
  dsimp only
  rw [Program.run_perform_bind, hmoved]
  exact ⟨rfl, hcontent, hcount⟩

/-- Where the temporary file cannot be written or renamed the old file stays. -/
theorem replaceFile_fails {config : Config} (hdest : env.Spares config.destination)
    (content : GoString) (s : State) (h : ¬ env.Replaces s) :
    let r := (replaceFile config content).run env.exec s
    (∃ err, r.2 = some err) ∧
      r.1.world.files config.destination = s.world.files config.destination := by
  have hne := tempPath_ne config.destination
  have hleaves : (Op.writeFile (tempPath config.destination) content config.mode).Leaves
      config.destination := hne
  have hremoves : (Op.remove (tempPath config.destination)).Leaves config.destination := hne
  have hwritten := files_exec hdest s hleaves
  rw [replaceFile, Program.run_perform_bind]
  cases hwrite : env.fault s.calls with
  | some fault =>
    have hfirst : (env.exec s (.writeFile (tempPath config.destination) content config.mode)).2 =
        some fault.err := by
      simp only [Environment.exec, hwrite]
      rfl
    cases hr : env.exec s (.writeFile (tempPath config.destination) content config.mode) with
    | mk s₁ err =>
      rw [hr] at hfirst hwritten
      cases hfirst
      exact ⟨⟨_, rfl⟩, hwritten⟩
  | none =>
    have hcalls : (env.exec s (.writeFile (tempPath config.destination) content config.mode)).2 = none ∧
        (env.exec s (.writeFile (tempPath config.destination) content config.mode)).1.calls =
          s.calls + 1 := by
      simp only [Environment.exec, hwrite]
      exact ⟨rfl, rfl⟩
    cases hr : env.exec s (.writeFile (tempPath config.destination) content config.mode) with
    | mk s₁ err =>
      rw [hr] at hcalls hwritten
      obtain ⟨hnone, hcount⟩ := hcalls
      cases hnone
      cases hrename : env.fault (s.calls + 1) with
      | none => exact absurd ⟨hwrite, hrename⟩ h
      | some fault =>
        have hsecond : env.exec s₁ (.rename (tempPath config.destination) config.destination) =
            (env.next s₁, some fault.err) := by
          have hfault : env.fault s₁.calls = some fault := hcount ▸ hrename
          simp only [Environment.exec, hfault]
          rfl
        dsimp only
        rw [Program.run_perform_bind, hsecond]
        dsimp only
        rw [Program.run_perform_bind]
        refine ⟨⟨_, rfl⟩, ?_⟩
        rw [Program.pure_eq, Program.run_ret,
          files_exec hdest (env.next s₁) hremoves, files_next hdest]
        exact hwritten

/-- The command changes nothing of the result but what is said of it, and its failure is that of
the render. -/
theorem runCommand_run (config : Config) (result : RenderResult) (s : State) :
    let r := (runCommand config result).run env.exec s
    r.2.written = result.written ∧ r.2.content = result.content ∧
      (result.error = none → (r.2.error = none ↔ env.Succeeds config s.calls)) ∧
      r.1.effects = if config.command = [] then s.effects else s.effects ++ [.ran config.command] := by
  dsimp only
  by_cases hcommand : config.command = []
  · have hskip : runCommand config result = pure result := if_neg (not_not.mpr hcommand)
    rw [hskip]
    exact ⟨rfl, rfl, fun herr => iff_of_true herr (.inl hcommand), (if_pos hcommand).symm⟩
  · cases hout : (env.output s.calls).2 with
    | some err =>
      have hcalled : (runCommand config result).run env.exec s =
          ((env.exec s (.execute config.command config.timeout)).1,
            { result with commandOutput := (env.output s.calls).1, error := some err }) := by
        rw [runCommand, if_pos hcommand, Program.run_perform_bind]
        dsimp only [Environment.exec]
        rw [hout]
        rfl
      rw [hcalled, if_neg hcommand, Environment.Succeeds, hout]
      exact ⟨rfl, rfl, fun _ => by simp [hcommand], rfl⟩
    | none =>
      have hcalled : (runCommand config result).run env.exec s =
          ((env.exec s (.execute config.command config.timeout)).1,
            { result with commandOutput := (env.output s.calls).1, commandExecuted := true }) := by
        rw [runCommand, if_pos hcommand, Program.run_perform_bind]
        dsimp only [Environment.exec]
        rw [hout]
        rfl
      rw [hcalled, if_neg hcommand, Environment.Succeeds, hout]
      exact ⟨rfl, rfl, fun herr => by simpa [hcommand] using herr, rfl⟩

/-! ### The two renderings -/

section

variable (parse : GoString → Bytes → Except GoString Parsed) (ctx : RenderContext)
  (env : Environment) (config : Config)

/-- The rendering that the result reports, and the state after it. -/
def first (s : State) : State × Except GoString GoString :=
  (execute parse ctx config).run env.exec s

/-- The rendering for the file; there is none where the render does not come to it. -/
def second (s : State) : Option (State × Except GoString GoString) :=
  let r := first parse ctx env config s
  match r.2 with
  | .error _ => none
  | .ok _ =>
    if ctx.dryRun ∨ config.destination = [] then none
    else
      let p := (prepare config).run env.exec r.1
      match p.2 with
      | some _ => none
      | none => some ((execute parse ctx config).run env.exec p.1)

/-- Reading, parsing or executing the template fails at some point of the call. -/
def Failed (s : State) : Prop :=
  (∃ err, (first parse ctx env config s).2 = .error err) ∨
    ∃ s' err, second parse ctx env config s = some (s', .error err)

/-- A successful render that wrote the destination has written what it reports, and one that failed
to render the template has left the destination as it was. -/
def Honest (s : State) : Prop :=
  let r := (render parse ctx config).run env.exec s
  (r.2.error = none → r.2.written = true → contentAt r.1 config.destination = some r.2.content) ∧
    (Failed parse ctx env config s →
      contentAt r.1 config.destination = contentAt s config.destination)

/-- What the second rendering, which ends in `s'`, has to give: what the first gave, unless the
command fails. One that fails does no harm to an empty file. -/
def Agrees (s s' : State) : Except GoString GoString → Prop
  | .ok content =>
    env.Succeeds config (s'.calls + 2) → (first parse ctx env config s).2 = .ok content
  | .error _ =>
    contentAt s config.destination = some [] ∧
      (env.Succeeds config (s'.calls + 2) → (first parse ctx env config s).2 = .ok [])

/-- Where the file is replaced the second rendering agrees with the first. -/
def SameAgain (s : State) : Prop :=
  ∀ s' rendered, second parse ctx env config s = some (s', rendered) → env.Replaces s' →
    Agrees parse ctx env config s s' rendered

variable {parse ctx env config}

theorem render_run (s : State) :
    (render parse ctx config).run env.exec s =
      (match (first parse ctx env config s).2 with
        | .error err => (pure ⟨[], false, false, [], some err⟩ : Calls RenderResult)
        | .ok content =>
          if ctx.dryRun then pure ⟨content, false, false, [], none⟩
          else if config.destination ≠ [] then do
            match ← writeFile parse ctx config with
            | some err => pure ⟨content, false, false, [], some err⟩
            | none => runCommand config ⟨content, true, false, [], none⟩
          else runCommand config ⟨content, false, false, [], none⟩).run env.exec
        (first parse ctx env config s).1 := by
  rw [render, Program.run_bind]
  rfl

theorem writeFile_run (s : State) :
    (writeFile parse ctx config).run env.exec s =
      (match ((prepare config).run env.exec s).2 with
        | some err => (pure (some err) : Calls (Option GoString))
        | none => do
          let rendered ← execute parse ctx config
          replaceFile config (rendered.toOption.getD [])).run env.exec
        ((prepare config).run env.exec s).1 := by
  rw [writeFile, Program.run_bind]
  cases ((prepare config).run env.exec s).2 with
  | some err => rfl
  | none =>
    dsimp only
    rw [Program.run_bind, getRenderedContent, Program.run_map, Program.run_bind]

/-- The second rendering comes after a first one that gave a text. -/
theorem second_eq_some {s s₂ : State} {rendered : Except GoString GoString}
    (h : second parse ctx env config s = some (s₂, rendered)) :
    ∃ content, (first parse ctx env config s).2 = .ok content ∧ ctx.dryRun = false ∧
      config.destination ≠ [] ∧
      ((prepare config).run env.exec (first parse ctx env config s).1).2 = none ∧
      (execute parse ctx config).run env.exec
        ((prepare config).run env.exec (first parse ctx env config s).1).1 = (s₂, rendered) := by
  rw [second] at h
  cases hfirst : (first parse ctx env config s).2 with
  | error err =>
    simp only [hfirst] at h
    cases h
  | ok content =>
    simp only [hfirst] at h
    by_cases hskip : ctx.dryRun = true ∨ config.destination = []
    · rw [if_pos hskip] at h
      cases h
    · rw [if_neg hskip] at h
      obtain ⟨hrun, hdest⟩ := not_or.mp hskip
      cases hprepare : ((prepare config).run env.exec (first parse ctx env config s).1).2 with
      | some err =>
        simp only [hprepare] at h
        cases h
      | none =>
        simp only [hprepare] at h
        exact ⟨content, rfl, Bool.eq_false_iff.mpr hrun, hdest, rfl, Option.some.inj h⟩

theorem render_of_second {s s₂ : State} {rendered : Except GoString GoString} {content : GoString}
    (hfirst : (first parse ctx env config s).2 = .ok content)
    (h : second parse ctx env config s = some (s₂, rendered)) :
    (render parse ctx config).run env.exec s =
      (match ((replaceFile config (rendered.toOption.getD [])).run env.exec s₂).2 with
        | some err => (pure ⟨content, false, false, [], some err⟩ : Calls RenderResult)
        | none => runCommand config ⟨content, true, false, [], none⟩).run env.exec
        ((replaceFile config (rendered.toOption.getD [])).run env.exec s₂).1 := by
  obtain ⟨-, -, hrun, hdest, hprepare, hexecute⟩ := second_eq_some h
  rw [render_run, hfirst]
  dsimp only
  rw [hrun, if_neg Bool.false_ne_true, if_pos hdest, Program.run_bind, writeFile_run, hprepare]
  dsimp only
  rw [Program.run_bind, hexecute]

/-- A render that does not come to the second rendering leaves the destination alone. -/
theorem render_of_no_second (hdest : env.Spares config.destination) {s : State}
    (h : second parse ctx env config s = none) :
    let r := (render parse ctx config).run env.exec s
    r.2.written = false ∧ r.1.world.files config.destination = s.world.files config.destination := by
  have hfiles : (first parse ctx env config s).1.world.files config.destination =
      s.world.files config.destination := files_execute parse ctx hdest s
  rw [second] at h
  dsimp only
  rw [render_run]
  cases hfirst : (first parse ctx env config s).2 with
  | error err => exact ⟨rfl, hfiles⟩
  | ok content =>
    simp only [hfirst] at h
    dsimp only
    by_cases hrun : ctx.dryRun = true
    · rw [if_pos hrun]
      exact ⟨rfl, hfiles⟩
    · rw [if_neg hrun]
      by_cases hempty : config.destination = []
      · rw [if_neg (not_not.mpr hempty)]
        exact ⟨(runCommand_run config _ _).1, (files_runCommand hdest config _ _).trans hfiles⟩
      · rw [if_neg (not_or.mpr ⟨hrun, hempty⟩)] at h
        rw [if_pos hempty, Program.run_bind, writeFile_run]
        cases hprepare : ((prepare config).run env.exec (first parse ctx env config s).1).2 with
        | none =>
          simp only [hprepare] at h
          cases h
        | some err =>
          exact ⟨rfl, (files_prepare hdest _).trans hfiles⟩

theorem sameAgain_iff {s s₂ : State} {rendered : Except GoString GoString}
    (h : second parse ctx env config s = some (s₂, rendered)) :
    SameAgain parse ctx env config s ↔
      (env.Replaces s₂ → Agrees parse ctx env config s s₂ rendered) := by
  constructor
  · exact fun hsame => hsame s₂ rendered h
  · intro hsame s' rendered' h'
    cases h.symm.trans h'
    exact hsame

theorem failed_iff {s s₂ : State} {rendered : Except GoString GoString} {content : GoString}
    (hfirst : (first parse ctx env config s).2 = .ok content)
    (h : second parse ctx env config s = some (s₂, rendered)) :
    Failed parse ctx env config s ↔ ∃ err, rendered = .error err := by
  rw [Failed, hfirst, h]
  constructor
  · rintro (⟨err, herr⟩ | ⟨s', err, herr⟩)
    · cases herr
    · cases herr
      exact ⟨err, rfl⟩
  · rintro ⟨err, rfl⟩
    exact .inr ⟨s₂, err, rfl⟩

/-- A render is honest just when, where it replaces the file, the second rendering gives the text of
the first. -/
theorem honest_iff_sameAgain (hdest : env.Spares config.destination)
    (htemp : env.Spares (tempPath config.destination)) (s : State) :
    Honest parse ctx env config s ↔ SameAgain parse ctx env config s := by
  cases hsecond : second parse ctx env config s with
  | none =>
    obtain ⟨hwritten, hfiles⟩ := render_of_no_second hdest hsecond
    refine iff_of_true ⟨fun _ htrue => ?_, fun _ => congrArg (Option.map File.content) hfiles⟩
      fun s' rendered hsome => ?_
    · rw [hwritten] at htrue
      cases htrue
    · rw [hsecond] at hsome
      cases hsome
  | some p =>
    obtain ⟨s₂, rendered⟩ := p
    obtain ⟨content, hfirst, -, -, -, hexecute⟩ := second_eq_some hsecond
    have hold : s₂.world.files config.destination = s.world.files config.destination := by
      have hagain := files_execute parse ctx hdest
        ((prepare config).run env.exec (first parse ctx env config s).1).1
      rw [hexecute] at hagain
      refine hagain.trans ((files_prepare hdest _).trans ?_)
      exact files_execute parse ctx hdest s
    have hrender := render_of_second hfirst hsecond
    rw [sameAgain_iff hsecond, Honest, failed_iff hfirst hsecond]
    by_cases hreplaces : env.Replaces s₂
    · obtain ⟨hnone, hcontent, hcalls⟩ :=
        replaceFile_run htemp (rendered.toOption.getD []) s₂ hreplaces
      rw [hnone] at hrender
      obtain ⟨hwritten, hreported, herror, -⟩ := runCommand_run config
        ⟨content, true, false, [], none⟩
        ((replaceFile config (rendered.toOption.getD [])).run env.exec s₂).1
      have hfile : contentAt ((render parse ctx config).run env.exec s).1 config.destination =
          some (rendered.toOption.getD []) := by
        rw [hrender, ← hcontent]
        exact congrArg (Option.map File.content) (files_runCommand hdest config _ _)
      rw [hcalls] at herror
      rw [hfile, hrender, hwritten, hreported, herror rfl]
      cases rendered with
      | ok content' => simp [hreplaces, Agrees, hfirst, Except.toOption, eq_comm]
      | error err => simp [hreplaces, Agrees, hfirst, Except.toOption, eq_comm, and_comm]
    · obtain ⟨⟨err, herr⟩, hfiles⟩ :=
        replaceFile_fails hdest (rendered.toOption.getD []) s₂ hreplaces
      rw [herr] at hrender
      refine iff_of_true ?_ fun hno => absurd hno hreplaces
      rw [hrender]
      refine ⟨fun hno => ?_, fun _ => congrArg (Option.map File.content) (hfiles.trans hold)⟩
      cases hno

/-! ### Data that stay

Where the data that a template reads stay, and no call fails, it is rendered to the text that these
data give (`textOf`).
-/

/-- What is there but for the files of `paths`. -/
def World.without (w : World) (paths : List GoString) : World :=
  { w with files := fun path => if path ∈ paths then none else w.files path }

/-- From the call `n` to the call `m` no call fails, and others change the files of `paths` at most. -/
def Environment.Still (env : Environment) (paths : List GoString) (n m : ℕ) : Prop :=
  ∀ i, n ≤ i → i < m → env.fault i = none ∧ ∀ w, (env.before i w).without paths = w.without paths

theorem Environment.Still.mono {paths : List GoString} {n n' m m' : ℕ} (h : env.Still paths n m)
    (hn : n ≤ n') (hm : m' ≤ m) : env.Still paths n' m' :=
  fun i hi hi' => h i (hn.trans hi) (hi'.trans_le hm)

/-- Nobody else does anything, and nothing fails. -/
def undisturbed : Environment where
  before _ w := w
  fault _ := none
  output _ := ([], none)

/-- The call writes to the files of `paths` only. -/
def Op.Within (paths : List GoString) : Op → Prop
  | .writeFile p _ _ => p ∈ paths
  | .rename _ _ => False
  | .remove _ => False
  | .execute _ _ => False
  | _ => True

/-- The call reads, and none of the files of `paths`. -/
def Op.Avoids (paths : List GoString) : Op → Prop
  | .readFile p => p ∉ paths
  | .stat p => p ∉ paths
  | op => op.Reads

variable {paths : List GoString}

theorem Op.Reads.within {op : Op} (h : op.Reads) : op.Within paths := by
  cases op with
  | writeFile p data perm => exact h.elim
  | rename oldPath newPath => exact h.elim
  | remove p => exact h.elim
  | execute command timeout => exact h.elim
  | _ => trivial

theorem Op.Avoids.reads {op : Op} (h : op.Avoids paths) : op.Reads := by
  cases op with
  | readFile p => trivial
  | stat p => trivial
  | _ => exact h

/-- A template that avoids no file is any template. -/
theorem avoids_nil {op : Op} (h : op.Reads) : op.Avoids [] := by
  cases op with
  | readFile p => exact List.not_mem_nil
  | stat p => exact List.not_mem_nil
  | _ => exact h

theorem calls_exec (s : State) (op : Op) : (env.exec s op).1.calls = s.calls + 1 := by
  cases op with
  | writeFile p data perm =>
    simp only [Environment.exec]
    split <;> rfl
  | rename oldPath newPath =>
    simp only [Environment.exec]
    split <;> rfl
  | remove p =>
    simp only [Environment.exec]
    split <;> rfl
  | _ => rfl

theorem calls_le_run {R : Type} (p : Calls R) (s : State) : s.calls ≤ (p.run env.exec s).1.calls := by
  induction p generalizing s with
  | ret r => exact le_rfl
  | call op next ih =>
    have hrest := ih (env.exec s op).2 (env.exec s op).1
    rw [calls_exec] at hrest
    show s.calls ≤ ((next (env.exec s op).2).run env.exec (env.exec s op).1).1.calls
    omega

theorem without_withFile {p : GoString} (hp : p ∈ paths) (s : State) (f : Option File) :
    (Environment.withFile s p f).world.without paths = s.world.without paths := by
  have hfiles : (fun path => if path ∈ paths then none else Function.update s.world.files p f path) =
      fun path => if path ∈ paths then none else s.world.files path := by
    funext path
    split_ifs with hpath
    · rfl
    · have hne : path ≠ p := by
        intro heq
        exact hpath (heq ▸ hp)
      exact Function.update_of_ne hne _ _
  exact congrArg (fun files => { s.world with files }) hfiles

theorem world_exec {s : State} (hstill : env.Still paths s.calls (s.calls + 1)) {op : Op}
    (hop : op.Within paths) : (env.exec s op).1.world.without paths = s.world.without paths := by
  obtain ⟨hfault, hbefore⟩ := hstill s.calls le_rfl (Nat.lt_succ_self _)
  cases op with
  | writeFile p data perm =>
    simp only [Environment.exec, hfault]
    exact (without_withFile hop _ _).trans (hbefore s.world)
  | rename oldPath newPath => exact hop.elim
  | remove p => exact hop.elim
  | execute command timeout => exact hop.elim
  | _ => exact hbefore s.world

/-- The data are the same after calls that write to the files of `paths` only. -/
theorem world_run {R : Type} {p : Calls R} (hp : p.Only (Op.Within paths)) {s : State}
    (hstill : env.Still paths s.calls (p.run env.exec s).1.calls) :
    (p.run env.exec s).1.world.without paths = s.world.without paths := by
  induction p generalizing s with
  | ret r => rfl
  | call op next ih =>
    change env.Still paths s.calls ((next (env.exec s op).2).run env.exec (env.exec s op).1).1.calls
      at hstill
    have hle : (env.exec s op).1.calls ≤ ((next (env.exec s op).2).run env.exec (env.exec s op).1).1.calls :=
      calls_le_run _ _
    rw [calls_exec] at hle
    have hrest := ih _ (hp.2 _) (hstill.mono (by rw [calls_exec]; omega) le_rfl)
    exact hrest.trans (world_exec (hstill.mono le_rfl hle) hp.1)

theorem answer_exec {s t : State} (hsame : s.world.without paths = t.world.without paths)
    (hstill : env.Still paths s.calls (s.calls + 1)) {op : Op} (hop : op.Avoids paths) :
    (env.exec s op).2 = (undisturbed.exec t op).2 := by
  obtain ⟨hfault, hbefore⟩ := hstill s.calls le_rfl (Nat.lt_succ_self _)
  have hfound : (env.found s).without paths = t.world.without paths := (hbefore s.world).trans hsame
  have hfiles {p : GoString} (hp : p ∉ paths) : (env.found s).files p = t.world.files p := by
    have hat := congrArg (fun w => World.files w p) hfound
    simpa only [World.without, if_neg hp] using hat
  have hget := congrArg World.get hfound
  have hlist := congrArg World.list hfound
  have hservice := congrArg World.getService hfound
  have hservices := congrArg World.listServices hfound
  have henv := congrArg World.getenv hfound
  have habs := congrArg World.abs hfound
  cases op with
  | get key => exact congrFun hget key
  | list => exact hlist
  | getService name => exact congrFun hservice name
  | listServices => exact hservices
  | getenv key => exact congrFun henv key
  | abs p => exact congrFun habs p
  | readFile p =>
    have hfile := hfiles hop
    simp only [Environment.exec, hfault, hfile]
    rfl
  | stat p =>
    have hfile := hfiles hop
    simp only [Environment.exec, hfault, hfile]
    rfl
  | mkdirAll p perm => exact hop.elim
  | writeFile p data perm => exact hop.elim
  | rename oldPath newPath => exact hop.elim
  | remove p => exact hop.elim
  | execute command timeout => exact hop.elim

/-- Calls that read nothing of `paths` are answered as if nobody else did anything. -/
theorem answer_run {R : Type} {p : Calls R} (hp : p.Only (Op.Avoids paths)) {s t : State}
    (hsame : s.world.without paths = t.world.without paths)
    (hstill : env.Still paths s.calls (p.run env.exec s).1.calls) :
    (p.run env.exec s).2 = (p.run undisturbed.exec t).2 := by
  induction p generalizing s t with
  | ret r => rfl
  | call op next ih =>
    change env.Still paths s.calls ((next (env.exec s op).2).run env.exec (env.exec s op).1).1.calls
      at hstill
    have hle : (env.exec s op).1.calls ≤ ((next (env.exec s op).2).run env.exec (env.exec s op).1).1.calls :=
      calls_le_run _ _
    rw [calls_exec] at hle
    have hnow : env.Still paths s.calls (s.calls + 1) := hstill.mono le_rfl hle
    have hanswer := answer_exec hsame hnow hp.1
    have hquiet : undisturbed.Still paths t.calls (t.calls + 1) := fun _ _ _ => ⟨rfl, fun _ => rfl⟩
    have hnext : (env.exec s op).1.world.without paths =
        (undisturbed.exec t op).1.world.without paths :=
      (world_exec hnow hp.1.reads.within).trans (hsame.trans (world_exec hquiet hp.1.reads.within).symm)
    have hrest := ih _ (hp.2 _) hnext (hstill.mono (by rw [calls_exec]; omega) le_rfl)
    show ((next (env.exec s op).2).run env.exec (env.exec s op).1).2 =
      ((next (undisturbed.exec t op).2).run undisturbed.exec (undisturbed.exec t op).1).2
    rw [← hanswer]
    exact hrest

/-! #### The text of the data -/

section

variable (parse : GoString → Bytes → Except GoString Parsed) (ctx : RenderContext) (config : Config)

/-- What the template gives where the data are those of `w`. -/
def textOf (w : World) : Except GoString GoString :=
  ((execute parse ctx config).run undisturbed.exec ⟨w, 0, []⟩).2

variable {parse ctx config}

/-- A rendering during which the data stay gives their text. -/
theorem execute_eq_textOf (hreads : (execute parse ctx config).Only (Op.Avoids paths)) {s : State}
    {w : World} (hdata : s.world.without paths = w.without paths)
    (hstill : env.Still paths s.calls ((execute parse ctx config).run env.exec s).1.calls) :
    ((execute parse ctx config).run env.exec s).2 = textOf parse ctx config w :=
  answer_run hreads hdata hstill

theorem textOf_congr (hreads : (execute parse ctx config).Only (Op.Avoids paths)) {w w' : World}
    (hdata : w.without paths = w'.without paths) :
    textOf parse ctx config w = textOf parse ctx config w' := by
  have hstill (n m : ℕ) : undisturbed.Still paths n m := fun _ _ _ => ⟨rfl, fun _ => rfl⟩
  have hfirst : (⟨w, 0, []⟩ : State).world.without paths = w'.without paths := hdata
  exact execute_eq_textOf hreads hfirst (hstill _ _)

/-- From the first rendering to the end of the second the data that the template reads stay, the
backup is none of them, and no call fails: the renderings give one text. -/
theorem sameAgain_of_still (hreads : (execute parse ctx config).Only (Op.Avoids paths))
    (hbackup : config.backup = true → backupPath config.destination ∈ paths) {s : State}
    (hstill : ∀ s₂ rendered, second parse ctx env config s = some (s₂, rendered) →
      env.Still paths s.calls s₂.calls) : SameAgain parse ctx env config s := by
  intro s₂ rendered hsecond _
  obtain ⟨content, hfirst, -, -, -, hexecute⟩ := second_eq_some hsecond
  have hstill := hstill s₂ rendered hsecond
  let s₁ := (first parse ctx env config s).1
  let s₁' := ((prepare config).run env.exec s₁).1
  have hend : ((execute parse ctx config).run env.exec s₁').1 = s₂ := congrArg Prod.fst hexecute
  have hcalls : s.calls ≤ s₁.calls := calls_le_run _ s
  have hcalls' : s₁.calls ≤ s₁'.calls := calls_le_run _ s₁
  have hcalls₂ : s₁'.calls ≤ s₂.calls := hend ▸ calls_le_run _ s₁'
  have hdata : s₁.world.without paths = s.world.without paths :=
    world_run ((reads_execute parse ctx config).mono fun _ => Op.Reads.within)
      (hstill.mono le_rfl (hcalls'.trans hcalls₂))
  have hdata' : s₁'.world.without paths = s₁.world.without paths :=
    world_run (only_prepare (fun _ => Op.Reads.within) trivial fun hwanted _ _ => hbackup hwanted)
      (hstill.mono hcalls hcalls₂)
  have htext : (first parse ctx env config s).2 = textOf parse ctx config s.world :=
    execute_eq_textOf hreads rfl (hstill.mono le_rfl (hcalls'.trans hcalls₂))
  have htext' : rendered = textOf parse ctx config s.world :=
    (congrArg Prod.snd hexecute).symm.trans (execute_eq_textOf hreads (hdata'.trans hdata)
      (hstill.mono (hcalls.trans hcalls') (congrArg State.calls hend).le))
  have hsame : rendered = .ok content := htext'.trans (htext.symm.trans hfirst)
  rw [hsame]
  exact fun _ => hfirst

/-- Without a backup that holds of every template. -/
theorem sameAgain_without_backup (hbackup : config.backup = false) {s : State}
    (hstill : ∀ s₂ rendered, second parse ctx env config s = some (s₂, rendered) →
      env.Still [] s.calls s₂.calls) : SameAgain parse ctx env config s := by
  refine sameAgain_of_still ((reads_execute parse ctx config).mono fun _ => avoids_nil) ?_ hstill
  intro hwanted
  rw [hbackup] at hwanted
  cases hwanted

end

/-! ### A key that goes between the renderings -/

def oneKey : Bytes := str "\x7b\x7b kv \"app/name\" \x7d\x7d"

/-- The template of one key. -/
def parseOneKey (name : GoString) (templateContent : Bytes) : Except GoString Parsed :=
  if templateContent = oneKey then
    .ok (.call (.kv (str "app/name")) fun value => .ret (value.mapError fun err =>
      str "template: " ++ name ++ str ":1:3: error calling kv: " ++ err))
  else .error (str "template: " ++ name ++ str ": unexpected text")

def appConfig : Config := ⟨str "/etc/app.tpl", str "/etc/app.conf", [], 0, 0, false, none⟩

/-- The key has its value until the call `n`. -/
def keyUntil (n : ℕ) : Environment where
  before i w := { w with get := fun _ => if i < n then some (str "konsul") else none }
  fault _ := none
  output _ := ([], none)

def appState : State where
  world :=
    { get := fun _ => none
      list := []
      getService := fun _ => none
      listServices := []
      getenv := fun _ => []
      abs := .ok
      files := fun path =>
        if path = appConfig.source then some ⟨oneKey, 0o644⟩
        else if path = appConfig.destination then some ⟨str "konsul", 0o644⟩
        else none }
  calls := 0
  effects := []

theorem spares_keyUntil (n : ℕ) (path : GoString) : (keyUntil n).Spares path := fun _ _ => rfl

theorem honest_iff_sameAgain_app :
    Honest parseOneKey ⟨true, true, false⟩ (keyUntil 100) appConfig appState ↔
      SameAgain parseOneKey ⟨true, true, false⟩ (keyUntil 100) appConfig appState :=
  honest_iff_sameAgain (spares_keyUntil 100 _) (spares_keyUntil 100 _) appState

/-- The key is gone when the template is rendered for the file: the render succeeds and the file is
empty. -/
theorem second_rendering_fails :
    ¬ ∀ (parse : GoString → Bytes → Except GoString Parsed) (ctx : RenderContext)
      (env : Environment) (config : Config), env.Spares config.destination →
      env.Spares (tempPath config.destination) → ∀ s : State, Honest parse ctx env config s := by
  intro h
  have hhonest := h parseOneKey ⟨true, true, false⟩ (keyUntil 2) appConfig (spares_keyUntil 2 _)
    (spares_keyUntil 2 _) appState
  exact absurd (hhonest.1 (by decide +kernel) (by decide +kernel)) (by decide +kernel)

end

end Konsul.Template
