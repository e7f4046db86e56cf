import Konsul.Graphql.Dataloader

/-!
# One dispatch for a batch

A timer dispatches a batch unless another timer has it (`closing`); a key that fills the batch
dispatches it whatever the timers do. A batch is spent when its one dispatch has begun.
-/

namespace Konsul.Dataloader

open GoLib

variable {K V E : Type} [DecidableEq K]

/-- The batch that a dispatch is at work on, up to the `close` of its channel. -/
def Dispatch.work : Dispatch K V E → Option ℕ
  | .sleeping b => some b
  | .started b => some b
  | .fetching b _ => some b
  | .storing b _ _ => some b
  | _ => none

/-- The batch for which a dispatch has still to call the batch function. -/
def Dispatch.ahead : Dispatch K V E → Option ℕ
  | .sleeping b => some b
  | .started b => some b
  | .fetching b _ => some b
  | _ => none

omit [DecidableEq K] in
theorem Dispatch.work_of_ahead {x : Dispatch K V E} {b : ℕ} (h : x.ahead = some b) :
    x.work = some b := by
  cases x with
  | sleeping _ => exact h
  | started _ => exact h
  | fetching _ _ => exact h
  | idle => cases h
  | scheduled _ => cases h
  | storing _ _ _ => cases h
  | clearing _ => cases h
  | finished => cases h

namespace Loader

/-- The calls of the batch function for a batch that a step makes. -/
def calling (b : ℕ) (m : Loader K V E) : Step K V E → ℕ
  | .fetch d _ _ =>
    match m.dispatches d with
    | .fetching b' _ => if m.crashed = false ∧ b' = b then 1 else 0
    | _ => 0
  | _ => 0

/-- The times that a step closes the channel of a batch. -/
def closing (b : ℕ) (m : Loader K V E) : Step K V E → ℕ
  | .close d =>
    match m.dispatches d with
    | .storing b' call n => if m.crashed = false ∧ b' = b ∧ call.keys[n]? = none then 1 else 0
    | _ => 0
  | _ => 0

/-- A key does not fill a batch that has other keys. -/
def StaysBelow (m : Loader K V E) (i : Step K V E) : Prop :=
  ∀ l d key b, i = .add l d → m.loads l = .chose key b → (m.batches b).data.lookup key = none →
    0 < m.maxBatch → m.maxBatch ≤ (m.batches b).keys.length + 1 → (m.batches b).keys = []

/-- The dispatch of a batch has begun: by a timer, or by the one key that fills it. -/
def Spent (m : Loader K V E) (b : ℕ) : Prop :=
  (m.batches b).closing = true ∨ m.maxBatch = 1 ∧ (m.batches b).keys ≠ []

/-- What is so of a batch for which the batch function was called `calls` times, and whose channel
was closed `closes` times. -/
structure Once (b calls closes : ℕ) (m : Loader K V E) : Prop where
  alone : ∀ d d', (m.dispatches d).work = some b → (m.dispatches d').work = some b → d = d'
  spent : ∀ d, (m.dispatches d).work = some b → m.Spent b
  single : m.maxBatch = 1 → (m.batches b).closing = false ∧ ∀ d, m.dispatches d ≠ .scheduled b
  called : calls = 0 ∨ calls = 1 ∧ m.Spent b ∧ ∀ d, (m.dispatches d).ahead ≠ some b
  closed : closes = 0 ∧ (m.batches b).done = false ∨
    closes = 1 ∧ m.Spent b ∧ ∀ d, (m.dispatches d).work ≠ some b

variable {zero : V} {m m' : Loader K V E} {b calls closes : ℕ}

theorem once_start (maxBatch : ℤ) (b : ℕ) : Once b 0 0 (start maxBatch : Loader K V E) where
  alone d d' h := by cases h
  spent d h := by cases h
  single _ := ⟨rfl, fun d h => by cases h⟩
  called := .inl rfl
  closed := .inl ⟨rfl, rfl⟩

/-! ### What leaves a batch as it is -/

/-- Nothing that counts has changed; the batch may have more keys. -/
theorem Once.keep (h : Once b calls closes m) (hmax : m'.maxBatch = m.maxBatch)
    (hdispatches : m'.dispatches = m.dispatches)
    (hclosing : (m'.batches b).closing = (m.batches b).closing)
    (hkeys : (m.batches b).keys ≠ [] → (m'.batches b).keys ≠ [])
    (hdone : (m'.batches b).done = (m.batches b).done) : Once b calls closes m' := by
  have hspent : m.Spent b → m'.Spent b := by
    intro hs
    rcases hs with hc | ⟨hone, hk⟩
    · exact .inl (hclosing.trans hc)
    · exact .inr ⟨hmax.trans hone, hkeys hk⟩
  refine ⟨?_, fun d hd => ?_, fun hone => ?_, ?_, ?_⟩
  · rw [hdispatches]
    exact h.alone
  · rw [hdispatches] at hd
    exact hspent (h.spent d hd)
  · rw [hdispatches, hclosing]
    exact h.single (hmax.symm.trans hone)
  · rw [hdispatches]
    exact h.called.imp_right fun hc => ⟨hc.1, hspent hc.2.1, hc.2.2⟩
  · rw [hdispatches, hdone]
    exact h.closed.imp_right fun hc => ⟨hc.1, hspent hc.2.1, hc.2.2⟩

/-- A dispatch that goes on with its work, or ends it. -/
theorem Once.setDispatch (h : Once b calls closes m) {d : ℕ} {x : Dispatch K V E}
    (hwork : x.work = some b → (m.dispatches d).work = some b)
    (hahead : x.ahead = some b → (m.dispatches d).ahead = some b)
    (hscheduled : m.maxBatch = 1 → x ≠ .scheduled b) : Once b calls closes (m.setDispatch d x) := by
  have hworks (d' : ℕ) (hd' : ((m.setDispatch d x).dispatches d').work = some b) :
      (m.dispatches d').work = some b := by
    by_cases hd : d' = d
    · subst hd
      exact hwork (by simpa [Loader.setDispatch] using hd')
    · simpa [Loader.setDispatch, hd] using hd'
  have hcalls (d' : ℕ) (hd' : ((m.setDispatch d x).dispatches d').ahead = some b) :
      (m.dispatches d').ahead = some b := by
    by_cases hd : d' = d
    · subst hd
      exact hahead (by simpa [Loader.setDispatch] using hd')
    · simpa [Loader.setDispatch, hd] using hd'
  refine ⟨fun d₁ d₂ h₁ h₂ => h.alone d₁ d₂ (hworks d₁ h₁) (hworks d₂ h₂),
    fun d' hd' => h.spent d' (hworks d' hd'), fun hone => ⟨(h.single hone).1, fun d' hd' => ?_⟩,
    h.called.imp_right fun hc => ⟨hc.1, hc.2.1, fun d' hd' => hc.2.2 d' (hcalls d' hd')⟩,
    h.closed.imp_right fun hc => ⟨hc.1, hc.2.1, fun d' hd' => hc.2.2 d' (hworks d' hd')⟩⟩
  by_cases hd : d' = d
  · subst hd
    exact hscheduled hone (by simpa [Loader.setDispatch] using hd')
  · exact (h.single hone).2 d' (by simpa [Loader.setDispatch, hd] using hd')

/-! ### The dispatch of a batch -/

/-- A batch that is not spent gets its dispatch. -/
theorem Once.begin (h : Once b calls closes m) (hfresh : ¬ m.Spent b) {d : ℕ} {x : Dispatch K V E}
    (hmax : m'.maxBatch = m.maxBatch)
    (hdispatches : m'.dispatches = Function.update m.dispatches d x) (hwork : x.work = some b)
    (hspent : m'.Spent b) (hclosing : m'.maxBatch = 1 → (m'.batches b).closing = false)
    (hdone : (m'.batches b).done = (m.batches b).done) : Once b calls closes m' := by
  have hfirst (d' : ℕ) (hd' : (m'.dispatches d').work = some b) : d' = d := by
    by_contra hne
    rw [hdispatches, Function.update_of_ne hne] at hd'
    exact hfresh (h.spent d' hd')
  refine ⟨fun d₁ d₂ h₁ h₂ => (hfirst d₁ h₁).trans (hfirst d₂ h₂).symm, fun _ _ => hspent,
    fun hone => ⟨hclosing hone, fun d' hd' => ?_⟩, .inl ?_, .inl ?_⟩
  · rw [hdispatches] at hd'
    by_cases hd : d' = d
    · rw [hd, Function.update_self] at hd'
      rw [hd'] at hwork
      cases hwork
    · rw [Function.update_of_ne hd] at hd'
      exact (h.single (hmax.symm.trans hone)).2 d' hd'
  · exact h.called.resolve_right fun hc => hfresh hc.2.1
  · rw [hdone]
    exact h.closed.resolve_right fun hc => hfresh hc.2.1

theorem Once.setLoad (h : Once b calls closes m) (l : ℕ) (load : Load K V E) :
    Once b calls closes (m.setLoad l load) :=
  h.keep rfl rfl rfl (fun hk => hk) rfl

/-- A batch that is written to and keeps its keys and its marks. -/
theorem Once.setBatch (h : Once b calls closes m) (b' : ℕ) (batch : Batch K V E)
    (hclosing : batch.closing = (m.batches b').closing)
    (hkeys : (m.batches b').keys ≠ [] → batch.keys ≠ []) (hdone : batch.done = (m.batches b').done) :
    Once b calls closes (m.setBatch b' batch) := by
  by_cases hb : b = b'
  · subst hb
    refine h.keep rfl rfl ?_ (fun hk => ?_) ?_
    · simpa [Loader.setBatch] using hclosing
    · simpa [Loader.setBatch] using hkeys hk
    · simpa [Loader.setBatch] using hdone
  · refine h.keep rfl rfl ?_ (fun hk => ?_) ?_ <;> simp [Loader.setBatch, hb]
    exact hk

/-- The batch that a key enters, whatever dispatch that leads to. -/
theorem Once.addKey (h : Once b calls closes m) (l b' : ℕ) (key : K) (r : Result V E) :
    Once b calls closes ((m.setBatch b' { m.batches b' with
      keys := (m.batches b').keys ++ [key]
      data := (m.batches b').data.insert key r }).setLoad l (.waiting key b')) :=
  (h.setBatch b' { m.batches b' with
    keys := (m.batches b').keys ++ [key]
    data := (m.batches b').data.insert key r } rfl
    (fun _ => List.append_ne_nil_of_right_ne_nil _ (List.cons_ne_nil key [])) rfl).setLoad l _

theorem ne_of_ne {x : Option ℕ} {b' : ℕ} (hb : b ≠ b') (hx : x = some b') : x ≠ some b :=
  fun h => hb (Option.some.inj (h.symm.trans hx))

theorem Once.add (h : Once b calls closes m) {l d b' : ℕ} {key : K}
    (hbelow : (m.batches b').data.lookup key = none → 0 < m.maxBatch →
      m.maxBatch ≤ (m.batches b').keys.length + 1 → (m.batches b').keys = []) :
    Once b calls closes (m.add zero l d key b') := by
  unfold Loader.add
  cases hlookup : (m.batches b').data.lookup key with
  | some r =>
    simp only [hlookup, Option.isSome_some, ite_true]
    exact h.setLoad l _
  | none =>
    simp only [hlookup, Option.isSome_none, Bool.false_eq_true, ite_false]
    have hadded := h.addKey l b' key ⟨zero, none⟩
    by_cases hfull : m.maxBatch ≤ (m.batches b').keys.length + 1 ∧ 0 < m.maxBatch
    · have hempty := hbelow hlookup hfull.2 hfull.1
      have hone : m.maxBatch = 1 := by
        rw [hempty] at hfull
        have hlow : m.maxBatch ≤ 1 := hfull.1
        omega
      rw [if_pos (by simpa using hfull)]
      by_cases hb : b = b'
      · subst hb
        have hopen := (h.single hone).1
        refine h.begin (d := d) (x := .started b) (fun hs => ?_) rfl rfl rfl (.inr ⟨hone, ?_⟩)
          (fun _ => ?_) ?_
        · rcases hs with hc | ⟨-, hk⟩
          · exact absurd hc (by rw [hopen]; exact Bool.false_ne_true)
          · exact hk hempty
        · simp [Loader.setBatch, Loader.setLoad, Loader.setDispatch]
        · simpa [Loader.setBatch, Loader.setLoad, Loader.setDispatch] using hopen
        · simp [Loader.setBatch, Loader.setLoad, Loader.setDispatch]
      · exact hadded.setDispatch (fun hw => absurd hw (ne_of_ne hb rfl))
          (fun ha => absurd ha (ne_of_ne hb rfl)) fun _ hno => by cases hno
    · rw [if_neg (by simpa using hfull)]
      refine hadded.setDispatch (fun hw => by cases hw) (fun ha => by cases ha) fun hone _ => ?_
      change m.maxBatch = 1 at hone
      omega

theorem Once.schedule (h : Once b calls closes m) {d b' : ℕ} (hd : m.dispatches d = .scheduled b')
    (hopen : (m.batches b').closing = false) :
    Once b calls closes
      ((m.setBatch b' { m.batches b' with closing := true }).setDispatch d (.sleeping b')) := by
  by_cases hb : b = b'
  · subst hb
    have hmany : m.maxBatch ≠ 1 := fun hone => (h.single hone).2 d hd
    refine h.begin (d := d) (x := .sleeping b) (fun hs => ?_) rfl rfl rfl (.inl ?_)
      (fun hone => absurd hone hmany) ?_
    · rcases hs with hc | ⟨hone, -⟩
      · exact absurd hc (by rw [hopen]; exact Bool.false_ne_true)
      · exact hmany hone
    · simp [Loader.setBatch, Loader.setDispatch]
    · simp [Loader.setBatch, Loader.setDispatch]
  · have hkept : Once b calls closes (m.setBatch b' { m.batches b' with closing := true }) := by
      refine h.keep rfl rfl ?_ (fun hk => ?_) ?_ <;> simp [Loader.setBatch, hb]
      exact hk
    exact hkept.setDispatch (fun hw => absurd hw (ne_of_ne hb rfl))
      (fun ha => absurd ha (ne_of_ne hb rfl)) fun _ hno => by cases hno

/-- The call for a batch is its first, and no dispatch is left that would make another. -/
theorem Once.fetch (h : Once b calls closes m) {d b' : ℕ} {keys : List K}
    (hd : m.dispatches d = .fetching b' keys) (call : Call K V E) :
    Once b (calls + if b' = b then 1 else 0) closes
      ({ m with calls := m.calls ++ [call] }.setDispatch d (.storing b' call 0)) := by
  have hcalled : Once b calls closes ({ m with calls := m.calls ++ [call] } : Loader K V E) :=
    h.keep rfl rfl rfl (fun hk => hk) rfl
  have hwork : (m.dispatches d).work = some b' := by rw [hd]; rfl
  have hahead : (m.dispatches d).ahead = some b' := by rw [hd]; rfl
  have hnext := hcalled.setDispatch (d := d) (x := .storing b' call 0) (fun hw => hwork.trans hw)
    (fun ha => by cases ha) fun _ hno => by cases hno
  by_cases hb : b' = b
  · subst hb
    rw [if_pos rfl]
    have hzero : calls = 0 := h.called.resolve_right fun hc => hc.2.2 d hahead
    refine { hnext with called := .inr ⟨congrArg (· + 1) hzero, h.spent d hwork, fun d' hd' => ?_⟩ }
    by_cases hsame : d' = d
    · subst hsame
      simp [Loader.setDispatch, Dispatch.ahead] at hd'
    · have hother : (m.dispatches d').ahead = some b' := by
        simpa [Loader.setDispatch, hsame] using hd'
      exact hsame (h.alone d' d (Dispatch.work_of_ahead hother) hwork)
  · rw [if_neg hb]
    exact hnext

theorem Once.open_of_work (h : Once b calls closes m) {d : ℕ} (hd : (m.dispatches d).work = some b) :
    closes = 0 ∧ (m.batches b).done = false :=
  h.closed.resolve_right fun hc => hc.2.2 d hd

/-- The channel of a batch is closed by its one dispatch. -/
theorem Once.close (h : Once b calls closes m) {d b' n : ℕ} {call : Call K V E}
    (hd : m.dispatches d = .storing b' call n) :
    Once b calls (closes + if b' = b then 1 else 0)
      ((m.setBatch b' { m.batches b' with done := true }).setDispatch d (.clearing b')) := by
  have hwork : (m.dispatches d).work = some b' := by rw [hd]; rfl
  by_cases hb : b' = b
  · subst hb
    rw [if_pos rfl]
    have hends := h.setDispatch (d := d) (x := .clearing b') (fun hw => by cases hw)
      (fun ha => by cases ha) fun _ hno => by cases hno
    have hspent : (m.setBatch b' { m.batches b' with done := true }).Spent b' := by
      simpa [Spent, Loader.setBatch] using h.spent d hwork
    refine ⟨hends.alone, fun _ _ => hspent, fun hone => ⟨?_, (hends.single hone).2⟩,
      hends.called.imp_right fun hc => ⟨hc.1, hspent, hc.2.2⟩,
      .inr ⟨congrArg (· + 1) (h.open_of_work hwork).1, hspent, fun d' hd' => ?_⟩⟩
    · simpa [Loader.setBatch, Loader.setDispatch] using (h.single hone).1
    · by_cases hsame : d' = d
      · subst hsame
        simp [Loader.setDispatch, Dispatch.work] at hd'
      · have hother : (m.dispatches d').work = some b' := by
          simpa [Loader.setDispatch, Loader.setBatch, hsame] using hd'
        exact hsame (h.alone d' d hother hwork)
  · rw [if_neg hb]
    have hkept : Once b calls closes (m.setBatch b' { m.batches b' with done := true }) := by
      refine h.keep rfl rfl ?_ (fun hk => ?_) ?_ <;> simp [Loader.setBatch, Ne.symm hb]
      exact hk
    exact hkept.setDispatch (fun hw => by cases hw) (fun ha => by cases ha)
      fun _ hno => by cases hno

/-! ### Every step -/

theorem Once.move (h : Once b calls closes m) (hup : m.crashed = false) {i : Step K V E}
    (hbelow : m.StaysBelow i) :
    Once b (calls + calling b m i) (closes + closing b m i) (m.move zero i) := by
  cases i with
  | lookup l key =>
    simp only [Loader.move]
    split
    · split <;> exact h.setLoad l _
    · exact h
  | choose l =>
    simp only [Loader.move, Loader.choose]
    split
    · split
      · exact h.setLoad l _
      · have hmade : Once b calls closes
            ({ m with current := some m.made, made := m.made + 1 } : Loader K V E) :=
          h.keep rfl rfl rfl (fun hk => hk) rfl
        exact hmade.setLoad l _
    · exact h
  | add l d =>
    simp only [Loader.move]
    split
    · next key b' hl _ => exact h.add (hbelow l d key b' rfl hl)
    · exact h
  | schedule d =>
    simp only [Loader.move]
    split
    · next b' hd =>
      split_ifs with hclosing
      · exact h.setDispatch (fun hw => by cases hw) (fun ha => by cases ha) fun _ hno => by cases hno
      · exact h.schedule hd (Bool.eq_false_iff.mpr hclosing)
    · exact h
  | wake d =>
    simp only [Loader.move]
    split
    · next b' hd =>
      have hwork : (m.dispatches d).work = some b' := by rw [hd]; rfl
      have hahead : (m.dispatches d).ahead = some b' := by rw [hd]; rfl
      exact h.setDispatch (fun hw => hwork.trans hw) (fun ha => hahead.trans ha)
        fun _ hno => by cases hno
    · exact h
  | read d =>
    simp only [Loader.move]
    split
    · next b' hd =>
      have hwork : (m.dispatches d).work = some b' := by rw [hd]; rfl
      have hahead : (m.dispatches d).ahead = some b' := by rw [hd]; rfl
      have hread := h.setBatch b' { m.batches b' with taken := true } rfl (fun hk => hk) rfl
      exact hread.setDispatch (fun hw => hwork.trans hw) (fun ha => hahead.trans ha)
        fun _ hno => by cases hno
    · exact h
  | fetch d results errors =>
    simp only [Loader.move]
    split
    · next b' keys hd =>
      have hcost : calling b m (.fetch d results errors) = if b' = b then 1 else 0 := by
        simp [calling, hd, hup]
      rw [hcost]
      exact h.fetch hd ⟨keys, results, errors⟩
    · next hd =>
      have hcost : calling b m (.fetch d results errors) = 0 := by
        simp only [calling]
      rw [hcost]
      exact h
  | store d =>
    simp only [Loader.move]
    split
    · next b' call n hd =>
      split
      · next key hkey =>
        have hwork : (m.dispatches d).work = some b' := by rw [hd]; rfl
        have hstored : Once b calls closes
            ({ m with cache := m.cache.insert key (call.outcome zero n) } : Loader K V E) :=
          h.keep rfl rfl rfl (fun hk => hk) rfl
        have hwritten := hstored.setBatch b' { m.batches b' with
          data := (m.batches b').data.insert key (call.outcome zero n) } rfl (fun hk => hk) rfl
        exact hwritten.setDispatch (fun hw => hwork.trans hw) (fun ha => by cases ha)
          fun _ hno => by cases hno
      · exact h
    · exact h
  | close d =>
    simp only [Loader.move]
    split
    · next b' call n hd =>
      cases hkey : call.keys[n]? with
      | some key =>
        have hcost : closing b m (.close d) = 0 := by simp [closing, hd, hkey]
        rw [hcost]
        exact h
      | none =>
        have hcost : closing b m (.close d) = if b' = b then 1 else 0 := by
          simp [closing, hd, hkey, hup]
        have hwork : (m.dispatches d).work = some b' := by rw [hd]; rfl
        rw [hcost]
        dsimp only
        by_cases hdone : (m.batches b').done = true
        · have hother : b' ≠ b := by
            intro hb
            rw [hb] at hwork hdone
            rw [(h.open_of_work hwork).2] at hdone
            cases hdone
          rw [if_pos hdone, if_neg hother]
          exact h.keep rfl rfl rfl (fun hk => hk) rfl
        · rw [if_neg hdone]
          exact h.close hd
    · next hd =>
      have hcost : closing b m (.close d) = 0 := by
        simp only [closing]
      rw [hcost]
      exact h
  | clear d =>
    simp only [Loader.move]
    split
    · next b' hd =>
      have hcleared : Once b calls closes
          ({ m with current := if m.current = some b' then none else m.current } : Loader K V E) :=
        h.keep rfl rfl rfl (fun hk => hk) rfl
      exact hcleared.setDispatch (fun hw => by cases hw) (fun ha => by cases ha)
        fun _ hno => by cases hno
    · exact h
  | receive l =>
    simp only [Loader.move]
    split
    · split
      · exact h.setLoad l _
      · exact h
    · exact h
  | clearKey key => exact h.keep rfl rfl rfl (fun hk => hk) rfl
  | clearAll => exact h.keep rfl rfl rfl (fun hk => hk) rfl

theorem Once.step (h : Once b calls closes m) {i : Step K V E} (hbelow : m.StaysBelow i) :
    Once b (calls + calling b m i) (closes + closing b m i) ((machine zero).step m i).1 := by
  change Once b _ _ (if m.crashed then m else m.move zero i)
  cases hup : m.crashed with
  | true =>
    have hcalling : calling b m i = 0 := by
      cases i <;> simp only [calling]
      split
      · simp [hup]
      · rfl
    have hclosing : closing b m i = 0 := by
      cases i <;> simp only [closing]
      split
      · simp [hup]
      · rfl
    rw [hcalling, hclosing, if_pos rfl]
    exact h
  | false =>
    rw [if_neg Bool.false_ne_true]
    exact h.move hup hbelow

/-- Where every batch is dispatched once no channel is closed twice. -/
theorem up_of_once (hup : m.crashed = false) (h : ∀ b, ∃ calls closes, Once b calls closes m)
    (i : Step K V E) : (m.move zero i).crashed = false := by
  cases i with
  | close d =>
    simp only [Loader.move]
    split
    · next b call n hd =>
      have hwork : (m.dispatches d).work = some b := by rw [hd]; rfl
      obtain ⟨calls, closes, honce⟩ := h b
      split
      · exact hup
      · rw [if_neg (by rw [(honce.open_of_work hwork).2]; exact Bool.false_ne_true)]
        exact hup
    · exact hup
  | lookup l key =>
    simp only [Loader.move]
    split
    · split <;> exact hup
    · exact hup
  | choose l =>
    simp only [Loader.move, Loader.choose]
    split
    · split <;> exact hup
    · exact hup
  | add l d =>
    simp only [Loader.move, Loader.add]
    split
    · split_ifs <;> exact hup
    · exact hup
  | schedule d =>
    simp only [Loader.move]
    split
    · split_ifs <;> exact hup
    · exact hup
  | wake d =>
    simp only [Loader.move]
    split <;> exact hup
  | read d =>
    simp only [Loader.move]
    split <;> exact hup
  | fetch d results errors =>
    simp only [Loader.move]
    split <;> exact hup
  | store d =>
    simp only [Loader.move, Loader.store]
    split
    · split <;> exact hup
    · exact hup
  | clear d =>
    simp only [Loader.move]
    split <;> exact hup
  | receive l =>
    simp only [Loader.move]
    split
    · split_ifs <;> exact hup
    · exact hup
  | clearKey key => exact hup
  | clearAll => exact hup

/-- The process is up, and no batch has been fetched or closed twice. -/
structure Steady (m : Loader K V E) : Prop where
  up : m.crashed = false
  once : ∀ b, ∃ calls closes, Once b calls closes m

theorem steady_start (maxBatch : ℤ) : (start maxBatch : Loader K V E).Steady :=
  ⟨rfl, fun b => ⟨0, 0, once_start maxBatch b⟩⟩

theorem Steady.step (h : m.Steady) (zero : V) {i : Step K V E} (hbelow : m.StaysBelow i) :
    ((machine zero).step m i).1.Steady where
  up := by
    change (if m.crashed then m else m.move zero i).crashed = false
    rw [h.up, if_neg Bool.false_ne_true]
    exact up_of_once h.up h.once i
  once b := by
    obtain ⟨calls, closes, honce⟩ := h.once b
    exact ⟨_, _, honce.step hbelow⟩

/-- Along a run in which no key fills a batch that has others, each batch is fetched once at most,
its channel is closed once at most, and the process stays up. -/
theorem dispatched_once (zero : V) (maxBatch : ℤ) (run : List (Step K V E))
    (h : (machine zero).Along StaysBelow (start maxBatch) run) :
    (∀ b, (machine zero).total (calling b) (start maxBatch) run ≤ 1) ∧
    (∀ b, (machine zero).total (closing b) (start maxBatch) run ≤ 1) ∧
    ((machine zero).run (start maxBatch) run).1.crashed = false := by
  have honce (b : ℕ) : Once b ((machine zero).total (calling b) (start maxBatch) run)
      ((machine zero).total (closing b) (start maxBatch) run)
      ((machine zero).run (start maxBatch) run).1 := by
    have hstep (calls closes : ℕ) (m : Loader K V E) (i : Step K V E) (hm : Once b calls closes m)
        (hbelow : m.StaysBelow i) :
        Once b (calls + calling b m i) (closes + closing b m i) ((machine zero).step m i).1 :=
      hm.step hbelow
    have hrun := (machine zero).invariant_totals hstep (once_start maxBatch b) h
    rwa [Nat.zero_add, Nat.zero_add] at hrun
  refine ⟨fun b => ?_, fun b => ?_, ?_⟩
  · rcases (honce b).called with hnone | ⟨hone, -⟩ <;> omega
  · rcases (honce b).closed with ⟨hnone, -⟩ | ⟨hone, -⟩ <;> omega
  · exact ((machine zero).invariant (fun m i hm hbelow => hm.step zero hbelow)
      (steady_start maxBatch) h).up

/-- With room for three keys: two are added to a batch before its timer fires. -/
def loadPair : List (Step ℕ ℕ ℕ) :=
  [.lookup 0 1, .choose 0, .add 0 0, .schedule 0, .lookup 1 2, .choose 1, .add 1 1,
    .wake 0, .read 0, .fetch 0 [10, 20] [], .store 0, .store 0, .close 0, .receive 0, .receive 1]

theorem dispatched_once_one :
    (machine 0).total (calling 0) (start 3) loadPair = 1 ∧
    (∀ b, (machine 0).total (calling b) (start 3) loadPair ≤ 1) ∧
    (∀ b, (machine 0).total (closing b) (start 3) loadPair ≤ 1) ∧
    ((machine 0).run (start 3) loadPair).1.crashed = false := by
  refine ⟨by decide +kernel, dispatched_once 0 3 loadPair ?_⟩
  refine ⟨?_, ?_, fun _ _ _ b heq hl _ _ _ => ?_, ?_, ?_, ?_, fun _ _ _ b heq hl _ _ hfull => ?_, ?_, ?_,
    ?_, ?_, ?_, ?_, ?_, ?_, trivial⟩
  case refine_3 =>
    cases heq
    cases hl
    rfl
  case refine_7 =>
    -- one key and the second one: fewer than three
    cases heq
    cases hl
    exact absurd hfull (by decide +kernel)
  all_goals
    intro _ _ _ _ hno
    cases hno

/-- With room for two keys: the first sets a timer, the second fills the batch. -/
def loadTwo : List (Step ℕ ℕ ℕ) :=
  [.lookup 0 1, .choose 0, .add 0 0, .schedule 0, .lookup 1 2, .choose 1, .add 1 1,
    .read 1, .fetch 1 [10, 20] [], .store 1, .store 1, .close 1,
    .wake 0, .read 0, .fetch 0 [10, 20] [], .store 0, .store 0, .close 0]

/-- The timer closes the channel again. -/
theorem full_batch_crashes :
    ¬ ∀ (maxBatch : ℤ), 0 < maxBatch → ∀ run : List (Step ℕ ℕ ℕ),
      (∀ b, (machine 0).total (calling b) (start maxBatch) run ≤ 1) ∧
      (∀ b, (machine 0).total (closing b) (start maxBatch) run ≤ 1) ∧
      ((machine 0).run (start maxBatch) run).1.crashed = false := by
  intro h
  have hup := (h 2 (by decide) loadTwo).2.2
  exact absurd hup (by decide +kernel)

end Loader

end Konsul.Dataloader
