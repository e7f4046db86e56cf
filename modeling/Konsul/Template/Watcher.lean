import Konsul.Auth.APIKey
import Konsul.Lib.Machine
import Konsul.Template.RenderedFile

/-!
# Watch mode (internal/template/watcher.go)

A ticker renders the template and compares the hash of the text with the last; a max-wait
timer renders it when a change is pending. `sha256` stands for the hash, and the firings of
ticker and timer are events in any order. A `Scene` also keeps what the watcher itself does
not: the text of the last successful render, and whether a change it saw is still to be rendered.
-/

namespace Konsul.Template

open GoLib

/-! ### What a render does -/

section

variable {env : Environment} {config : Config}

theorem effects_rename (s : State) (oldPath newPath : GoString) :
    let r := env.exec s (.rename oldPath newPath)
    (r.2 = none ∧ r.1.effects = s.effects ++ [.replaced newPath]) ∨
      ∃ err, r.2 = some err ∧ r.1.effects = s.effects := by
  simp only [Environment.exec]
  split
  · exact .inr ⟨_, rfl, rfl⟩
  · exact .inr ⟨_, rfl, rfl⟩
  · exact .inl ⟨rfl, rfl⟩

theorem effects_replaceFile (content : GoString) (s : State) :
    let r := (replaceFile config content).run env.exec s
    (r.2 = none ∧ r.1.effects = s.effects ++ [.replaced config.destination]) ∨
      ∃ err, r.2 = some err ∧ r.1.effects = s.effects := by
  rw [replaceFile, Program.run_perform_bind]
  have hquiet : (env.exec s (.writeFile (tempPath config.destination) content config.mode)).1.effects =
      s.effects := effects_exec s trivial
  cases hwrite : env.exec s (.writeFile (tempPath config.destination) content config.mode) with
  | mk s₁ err =>
    rw [hwrite] at hquiet
    cases err with
    | some err => exact .inr ⟨_, rfl, hquiet⟩
    | none =>
      dsimp only
      rw [Program.run_perform_bind]
      have hmoved := @effects_rename env s₁ (tempPath config.destination) config.destination
      cases hrename : env.exec s₁ (.rename (tempPath config.destination) config.destination) with
      | mk s₂ err =>
        rw [hrename] at hmoved
        cases err with
        | none =>
          obtain ⟨-, heffects⟩ := hmoved.resolve_right fun hno => by
            obtain ⟨err, herr, -⟩ := hno
            cases herr
          exact .inl ⟨rfl, heffects.trans (congrArg (· ++ _) hquiet)⟩
        | some err =>
          obtain ⟨_, -, heffects⟩ := hmoved.resolve_left fun hno => by cases hno.1
          dsimp only
          rw [Program.run_perform_bind]
          refine .inr ⟨_, rfl, ?_⟩
          rw [Program.pure_eq, Program.run_ret,
            effects_exec s₂ (show (Op.remove (tempPath config.destination)).Quiet from trivial)]
          exact heffects.trans hquiet

end

section

variable (parse : GoString → Bytes → Except GoString Parsed) (ctx : RenderContext)
  (env : Environment) (config : Config)

/-- The render replaces the file or runs the command. -/
def Acts (s : State) : Prop :=
  ctx.dryRun = false ∧
    ((config.destination = [] ∧ config.command ≠ [] ∧
        ∃ content, (first parse ctx env config s).2 = .ok content) ∨
      ∃ s' rendered, second parse ctx env config s = some (s', rendered) ∧
        ((replaceFile config (rendered.toOption.getD [])).run env.exec s').2 = none)

variable {parse ctx env config}

theorem effects_first (s : State) : (first parse ctx env config s).1.effects = s.effects :=
  effects_run (show (execute parse ctx config).Only (Op.Mild config.destination) from
    mild_execute parse ctx config) s

theorem content_render {s : State} {content : GoString}
    (h : (first parse ctx env config s).2 = .ok content) :
    ((render parse ctx config).run env.exec s).2.content = content := by
  rw [render_run, h]
  dsimp only
  split_ifs
  · rfl
  · rw [Program.run_bind]
    cases ((writeFile parse ctx config).run env.exec (first parse ctx env config s).1).2 with
    | some err => rfl
    | none => exact (runCommand_run config _ _).2.1
  · exact (runCommand_run config _ _).2.1

theorem effects_second {s s' : State} {rendered : Except GoString GoString}
    (h : second parse ctx env config s = some (s', rendered)) : s'.effects = s.effects := by
  obtain ⟨-, -, -, -, -, hexecute⟩ := second_eq_some h
  have hmild : (execute parse ctx config).Only (Op.Mild config.destination) :=
    mild_execute parse ctx config
  have hagain := @effects_run env _ _ _ hmild
    ((prepare config).run env.exec (first parse ctx env config s).1).1
  rw [hexecute] at hagain
  exact hagain.trans ((effects_run (mild_prepare config) _).trans (effects_first s))

theorem acts_iff {s s' : State} {rendered : Except GoString GoString}
    (h : second parse ctx env config s = some (s', rendered)) :
    Acts parse ctx env config s ↔
      ((replaceFile config (rendered.toOption.getD [])).run env.exec s').2 = none := by
  obtain ⟨content, hfirst, hrun, hdest, -, -⟩ := second_eq_some h
  constructor
  · rintro ⟨-, ⟨hempty, -, -⟩ | ⟨s'', rendered', h', hnone⟩⟩
    · exact absurd hempty hdest
    · cases h.symm.trans h'
      exact hnone
  · exact fun hnone => ⟨hrun, .inr ⟨s', rendered, h, hnone⟩⟩

theorem acts_iff_of_no_second {s : State} (h : second parse ctx env config s = none) :
    Acts parse ctx env config s ↔ ctx.dryRun = false ∧ config.destination = [] ∧
      config.command ≠ [] ∧ ∃ content, (first parse ctx env config s).2 = .ok content := by
  refine and_congr_right fun _ => ⟨fun hacts => hacts.resolve_right ?_, .inl⟩
  rintro ⟨s', rendered, hsome, -⟩
  cases h.symm.trans hsome

theorem effects_runCommand (result : RenderResult) (s : State) :
    ((runCommand config result).run env.exec s).1.effects ≠ s.effects ↔ config.command ≠ [] := by
  rw [(runCommand_run config result s).2.2.2]
  by_cases hcommand : config.command = []
  · simp [hcommand]
  · simp [hcommand]

theorem effects_render (s : State) :
    ((render parse ctx config).run env.exec s).1.effects ≠ s.effects ↔
      Acts parse ctx env config s := by
  cases hsecond : second parse ctx env config s with
  | some p =>
    obtain ⟨s', rendered⟩ := p
    obtain ⟨content, hfirst, -, -, -, -⟩ := second_eq_some hsecond
    rw [acts_iff hsecond, render_of_second hfirst hsecond, ← effects_second hsecond]
    rcases @effects_replaceFile env config (rendered.toOption.getD []) s' with
      ⟨hnone, heffects⟩ | ⟨err, herr, heffects⟩
    · rw [hnone]
      refine iff_of_true (fun heq => ?_) rfl
      dsimp only at heq
      rw [(runCommand_run config _ _).2.2.2, heffects] at heq
      split_ifs at heq <;> simp at heq
    · rw [herr]
      refine iff_of_false (fun hne => hne heffects) fun hno => by cases hno
  | none =>
    have hquiet : (first parse ctx env config s).1.effects = s.effects := effects_first s
    rw [acts_iff_of_no_second hsecond, ← hquiet, render_run]
    rw [second] at hsecond
    cases hfirst : (first parse ctx env config s).2 with
    | error err =>
      refine iff_of_false (fun hne => hne rfl) ?_
      rintro ⟨-, -, -, content, hno⟩
      cases hno
    | ok content =>
      simp only [hfirst] at hsecond
      dsimp only
      by_cases hrun : ctx.dryRun = true
      · rw [if_pos hrun]
        refine iff_of_false (fun hne => hne rfl) ?_
        rw [hrun]
        rintro ⟨hno, -⟩
        cases hno
      · rw [if_neg hrun]
        by_cases hempty : config.destination = []
        · rw [if_neg (not_not.mpr hempty), effects_runCommand]
          simp [hempty, Bool.eq_false_iff.mpr hrun]
        · rw [if_neg (not_or.mpr ⟨hrun, hempty⟩)] at hsecond
          rw [if_pos hempty, Program.run_bind, writeFile_run]
          cases hprepare : ((prepare config).run env.exec (first parse ctx env config s).1).2 with
          | none =>
            simp only [hprepare] at hsecond
            cases hsecond
          | some err =>
            refine iff_of_false (fun hne => hne (effects_run (mild_prepare config) _)) ?_
            rintro ⟨-, hno, -⟩
            exact hempty hno

end

/-! ### The watcher -/

structure Watcher where
  template : Config
  lastHash : GoString
  lastRender : Time
  pendingRender : Bool
  minWait : Duration
  maxWait : Duration

/-- The zero time, long before every other. -/
def neverRendered : Time := -62135596800 * 10 ^ 9

/-- `NewWatcher`, in an engine with a wait configuration of its own or none. -/
def newWatcher (engineWait : Option WaitConfig) (template : Config) : Watcher :=
  let wait := (template.wait <|> engineWait).getD ⟨2 * 10 ^ 9, 10 * 10 ^ 9⟩
  ⟨template, [], neverRendered, false, wait.min, wait.max⟩

inductive Event where
  | tick
  /-- The times are those before and after the render. -/
  | maxWait (now rendered : Time)

section

variable (sha256 : Bytes → Bytes)

def computeHash (content : GoString) : GoString := hexEncode (sha256 content)

namespace Watcher

/-- `hasChanged`, by the result of its render. -/
def hasChanged (w : Watcher) (result : RenderResult) : Watcher × Bool :=
  match result.error with
  | some _ => (w, false)
  | none =>
    let hash := computeHash sha256 result.content
    if hash ≠ w.lastHash then ({ w with lastHash := hash }, true) else (w, false)

/-- `render` keeps the minimum wait since the last one. -/
def skips (w : Watcher) (now : Time) : Prop := now - w.lastRender < w.minWait

instance (w : Watcher) (now : Time) : Decidable (w.skips now) :=
  inferInstanceAs (Decidable (now - w.lastRender < w.minWait))

/-- `render`, by the result of its render. -/
def afterRender (w : Watcher) (result : RenderResult) (rendered : Time) : Watcher :=
  match result.error with
  | some _ => w
  | none => { w with lastRender := rendered }

end Watcher

structure Scene where
  watcher : Watcher
  state : State
  /-- The text of the last successful render. -/
  shown : Option GoString
  /-- A change was seen, and the watcher has not succeeded to render since. -/
  owed : Bool

/-- The last text after a render. -/
def shownAfter (shown : Option GoString) (result : RenderResult) : Option GoString :=
  match result.error with
  | some _ => shown
  | none => some result.content

variable (parse : GoString → Bytes → Except GoString Parsed) (ctx : RenderContext)
  (env : Environment)

/-- The engine renders its templates once before it watches them. -/
def Scene.start (engineWait : Option WaitConfig) (template : Config) (s : State) : Scene :=
  let r := (render parse ctx template).run env.exec s
  ⟨newWatcher engineWait template, r.1, shownAfter none r.2, false⟩

/-- The loop of `Watch`; the answer is the result of the render, if there is one. -/
def watch : Machine Scene Event (Option RenderResult) where
  step sc
    | .tick =>
      let r := (render parse ctx sc.watcher.template).run env.exec sc.state
      let (w, changed) := sc.watcher.hasChanged sha256 r.2
      ({ watcher := if changed then { w with pendingRender := true } else w
         state := r.1
         shown := shownAfter sc.shown r.2
         owed := sc.owed || changed }, some r.2)
    | .maxWait now rendered =>
      if sc.watcher.pendingRender then
        if sc.watcher.skips now then
          ({ sc with watcher := { sc.watcher with pendingRender := false } }, none)
        else
          let r := (render parse ctx sc.watcher.template).run env.exec sc.state
          ({ watcher := { sc.watcher.afterRender r.2 rendered with pendingRender := false }
             state := r.1
             shown := shownAfter sc.shown r.2
             owed := sc.owed && r.2.error.isSome }, some r.2)
      else (sc, none)

/-! ### Once for each change -/

/-- The step replaces the file or runs the command only for a text that is new. -/
def ActsOnNew (sc : Scene) (e : Event) : Prop :=
  ((watch sha256 parse ctx env).step sc e).1.state.effects ≠ sc.state.effects →
    ∀ result, ((watch sha256 parse ctx env).step sc e).2 = some result →
      sc.shown ≠ some result.content

/-- A change that was seen is pending until a render has succeeded. -/
def StaysPending (sc : Scene) : Prop := sc.owed = true → sc.watcher.pendingRender = true

/-- A render that comes to act now finds a text other than the last. -/
def NewText (sc : Scene) : Prop :=
  Acts parse ctx env sc.watcher.template sc.state →
    ∀ content, (first parse ctx env sc.watcher.template sc.state).2 = .ok content →
      sc.shown ≠ some content

/-- The condition on a firing: the text is new, and a change that is pending at a max wait is
rendered, the minimum wait being over. -/
def InOrder (sc : Scene) : Event → Prop
  | .tick => NewText parse ctx env sc
  | .maxWait now _ => sc.watcher.pendingRender = true → ¬ sc.watcher.skips now ∧
      ((render parse ctx sc.watcher.template).run env.exec sc.state).2.error = none ∧
      NewText parse ctx env sc

variable {sha256 parse ctx env}

theorem newText_iff (sc : Scene) :
    NewText parse ctx env sc ↔
      (((render parse ctx sc.watcher.template).run env.exec sc.state).1.effects ≠
          sc.state.effects →
        sc.shown ≠ some ((render parse ctx sc.watcher.template).run env.exec sc.state).2.content) := by
  rw [effects_render]
  refine forall_congr' fun hacts => ?_
  obtain ⟨content, hfirst⟩ : ∃ content,
      (first parse ctx env sc.watcher.template sc.state).2 = .ok content := by
    rcases hacts.2 with ⟨-, -, hok⟩ | ⟨s', rendered, hsecond, -⟩
    · exact hok
    · obtain ⟨content, hfirst, -⟩ := second_eq_some hsecond
      exact ⟨content, hfirst⟩
  rw [content_render hfirst]
  constructor
  · exact fun h => h content hfirst
  · intro h content' hfirst'
    cases hfirst.symm.trans hfirst'
    exact h

variable (sha256) in
theorem pending_hasChanged (w : Watcher) (result : RenderResult) :
    (w.hasChanged sha256 result).1.pendingRender = w.pendingRender := by
  obtain ⟨content, written, commandExecuted, commandOutput, error⟩ := result
  cases error with
  | some err => rfl
  | none =>
    simp only [Watcher.hasChanged]
    split_ifs <;> rfl

variable (sha256 parse ctx env) in
/-- A tick leaves a change pending if one was seen, now or before. -/
theorem pending_tick (sc : Scene) :
    let r := (render parse ctx sc.watcher.template).run env.exec sc.state
    let changed := (sc.watcher.hasChanged sha256 r.2).2
    ((watch sha256 parse ctx env).step sc .tick).1.watcher.pendingRender =
        (sc.watcher.pendingRender || changed) ∧
      ((watch sha256 parse ctx env).step sc .tick).1.owed = (sc.owed || changed) := by
  refine ⟨?_, rfl⟩
  have hkept := pending_hasChanged sha256 sc.watcher
    ((render parse ctx sc.watcher.template).run env.exec sc.state).2
  simp only [watch]
  split_ifs with hchanged
  · simp [hchanged]
  · rw [hkept, Bool.eq_false_iff.mpr hchanged, Bool.or_false]

theorem owed_of_pending (sc : Scene) (e : Event)
    (h : sc.watcher.pendingRender = true → sc.owed = true) :
    ((watch sha256 parse ctx env).step sc e).1.watcher.pendingRender = true →
      ((watch sha256 parse ctx env).step sc e).1.owed = true := by
  cases e with
  | tick =>
    obtain ⟨hpending, howed⟩ := pending_tick sha256 parse ctx env sc
    rw [hpending, howed, Bool.or_eq_true, Bool.or_eq_true]
    exact Or.imp_left h
  | maxWait now rendered =>
    simp only [watch]
    split_ifs with hpending
    · intro hno
      cases hno
    · intro hno
      cases hno
    · exact h

theorem step_inOrder_iff (sc : Scene) (e : Event)
    (howed : sc.watcher.pendingRender = true → sc.owed = true) (hstays : StaysPending sc) :
    (ActsOnNew sha256 parse ctx env sc e ∧
        StaysPending ((watch sha256 parse ctx env).step sc e).1) ↔ InOrder parse ctx env sc e := by
  cases e with
  | tick =>
    have hacts : ActsOnNew sha256 parse ctx env sc .tick ↔ NewText parse ctx env sc := by
      rw [newText_iff]
      refine forall_congr' fun _ => ⟨fun h => h _ rfl, fun h result hresult => ?_⟩
      cases hresult
      exact h
    refine ⟨fun h => hacts.mp h.1, fun h => ⟨hacts.mpr h, ?_⟩⟩
    obtain ⟨hpending, howed'⟩ := pending_tick sha256 parse ctx env sc
    rw [StaysPending, hpending, howed', Bool.or_eq_true, Bool.or_eq_true]
    exact Or.imp_left hstays
  | maxWait now rendered =>
    by_cases hpending : sc.watcher.pendingRender = true
    · have hdue := howed hpending
      by_cases hskips : sc.watcher.skips now
      · have hstep : (watch sha256 parse ctx env).step sc (.maxWait now rendered) =
            ({ sc with watcher := { sc.watcher with pendingRender := false } }, none) := by
          simp only [watch]
          rw [if_pos hpending, if_pos hskips]
        refine iff_of_false (fun h => ?_) fun h => (h hpending).1 hskips
        have hlost := h.2
        rw [hstep] at hlost
        exact Bool.false_ne_true (hlost hdue)
      · let r := (render parse ctx sc.watcher.template).run env.exec sc.state
        have hstep : (watch sha256 parse ctx env).step sc (.maxWait now rendered) =
            ({ watcher := { sc.watcher.afterRender r.2 rendered with pendingRender := false }
               state := r.1
               shown := shownAfter sc.shown r.2
               owed := sc.owed && r.2.error.isSome }, some r.2) := by
          simp only [watch]
          rw [if_pos hpending, if_neg hskips]
        have hacts : ActsOnNew sha256 parse ctx env sc (.maxWait now rendered) ↔
            NewText parse ctx env sc := by
          rw [newText_iff, ActsOnNew, hstep]
          refine forall_congr' fun _ => ⟨fun h => h _ rfl, fun h result hresult => ?_⟩
          cases hresult
          exact h
        have hrendered : StaysPending ((watch sha256 parse ctx env).step sc
            (.maxWait now rendered)).1 ↔ r.2.error = none := by
          rw [StaysPending, hstep]
          simp [hdue]
        rw [hacts, hrendered]
        exact ⟨fun h _ => ⟨hskips, h.2, h.1⟩, fun h => ⟨(h hpending).2.2, (h hpending).2.1⟩⟩
    · have hstep : (watch sha256 parse ctx env).step sc (.maxWait now rendered) = (sc, none) := by
        simp only [watch]
        rw [if_neg hpending]
      refine iff_of_true ⟨fun hne => ?_, ?_⟩ fun h => absurd h hpending
      · rw [hstep] at hne
        exact absurd rfl hne
      · rw [hstep]
        exact hstays

/-! #### Data that have changed -/

section

variable {paths : List GoString} {sc : Scene} {w : World}

/-- A render that succeeds while the data stay leaves their text as the last one. -/
theorem shownAfter_render (config : Config) {s : State}
    (hreads : (execute parse ctx config).Only (Op.Avoids paths))
    (hstill : env.Still paths s.calls (first parse ctx env config s).1.calls) (shown : Option GoString)
    (h : ((render parse ctx config).run env.exec s).2.error = none) :
    ∃ content, shownAfter shown ((render parse ctx config).run env.exec s).2 = some content ∧
      textOf parse ctx config s.world = .ok content := by
  have htext : (first parse ctx env config s).2 = textOf parse ctx config s.world :=
    execute_eq_textOf hreads rfl hstill
  cases hfirst : (first parse ctx env config s).2 with
  | error err =>
    rw [render_run, hfirst] at h
    cases h
  | ok content =>
    refine ⟨content, ?_, htext.symm.trans hfirst⟩
    rw [shownAfter, h]
    exact congrArg some (content_render hfirst)

/-- The last text is that of the data `w`, and the data stay during a render: its text is new just
where the text of the data has changed. -/
theorem newText_iff_changed (hreads : (execute parse ctx sc.watcher.template).Only (Op.Avoids paths))
    {old : GoString} (hshown : sc.shown = some old)
    (hold : textOf parse ctx sc.watcher.template w = .ok old)
    (hstill : env.Still paths sc.state.calls
      (first parse ctx env sc.watcher.template sc.state).1.calls) :
    NewText parse ctx env sc ↔ (Acts parse ctx env sc.watcher.template sc.state →
      textOf parse ctx sc.watcher.template sc.state.world ≠ textOf parse ctx sc.watcher.template w) := by
  have htext : (first parse ctx env sc.watcher.template sc.state).2 =
      textOf parse ctx sc.watcher.template sc.state.world := execute_eq_textOf hreads rfl hstill
  refine forall_congr' fun _ => ?_
  rw [htext, hold]
  constructor
  · intro h heq
    exact h old heq hshown
  · intro h content hcontent hcontent'
    cases hshown.symm.trans hcontent'
    exact h hcontent

/-- Where the data have stayed since, the render had better not act. -/
theorem newText_iff_of_unchanged
    (hreads : (execute parse ctx sc.watcher.template).Only (Op.Avoids paths)) {old : GoString}
    (hshown : sc.shown = some old) (hold : textOf parse ctx sc.watcher.template w = .ok old)
    (hdata : sc.state.world.without paths = w.without paths)
    (hstill : env.Still paths sc.state.calls
      (first parse ctx env sc.watcher.template sc.state).1.calls) :
    NewText parse ctx env sc ↔ ¬ Acts parse ctx env sc.watcher.template sc.state := by
  rw [newText_iff_changed hreads hshown hold hstill, textOf_congr hreads hdata]
  exact ⟨fun h hacts => h hacts rfl, fun h hacts => absurd hacts h⟩

end

/-- A watcher acts once for each change and misses none just when every firing is in order. -/
theorem watch_inOrder_iff (sha256 : Bytes → Bytes)
    (parse : GoString → Bytes → Except GoString Parsed) (ctx : RenderContext) (env : Environment)
    (engineWait : Option WaitConfig) (template : Config) (s : State) (events : List Event) :
    let start := Scene.start parse ctx env engineWait template s
    ((watch sha256 parse ctx env).Along (ActsOnNew sha256 parse ctx env) start events ∧
        ∀ n, StaysPending ((watch sha256 parse ctx env).run start (events.take n)).1) ↔
      (watch sha256 parse ctx env).Along (InOrder parse ctx env) start events :=
  (watch sha256 parse ctx env).along_and_forall_take_iff owed_of_pending step_inOrder_iff
    (fun hno => absurd hno Bool.false_ne_true) (fun hno => absurd hno Bool.false_ne_true) events

/-- The first tick renders what the engine rendered before it: nothing has changed, and the file is
written again. -/
theorem unchanged_rewritten :
    ¬ ∀ (sha256 : Bytes → Bytes) (parse : GoString → Bytes → Except GoString Parsed)
      (ctx : RenderContext) (env : Environment) (engineWait : Option WaitConfig) (template : Config)
      (s : State) (events : List Event),
      (watch sha256 parse ctx env).Along (ActsOnNew sha256 parse ctx env)
        (Scene.start parse ctx env engineWait template s) events ∧
      ∀ n, StaysPending ((watch sha256 parse ctx env).run
        (Scene.start parse ctx env engineWait template s) (events.take n)).1 := by
  intro h
  have hacts := (h id parseOneKey ⟨true, true, false⟩ (keyUntil 100) none appConfig appState
    [.tick]).1.1 (by decide +kernel) _ rfl
  exact hacts (by decide +kernel)

end

end Konsul.Template
