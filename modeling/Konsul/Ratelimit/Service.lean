import Konsul.Ratelimit.Store

/-!
# The rate limiting service

The service keeps its configuration beside two stores, and each store keeps the rate
and the burst it was created with. `UpdateConfig` writes the first of the three
copies, and a store creates its limiters from its own.
-/

namespace Konsul.Ratelimit

open GoLib

structure Config where
  enabled : Bool
  requestsPerSec : ℚ
  burst : ℤ
  byIP : Bool
  byAPIKey : Bool
  cleanupInterval : Duration
  deriving DecidableEq

/-- A store that the configuration switches off is `none`. -/
structure Service where
  config : Config
  ipStore : Option (Store ℚ)
  keyStore : Option (Store ℚ)

inductive ServiceStep where
  | updateConfig (requestsPerSec : Option ℚ) (burst : Option ℤ)
  /-- A step of a request, a reset or the cleanup on the store of the IP addresses. -/
  | ip (i : Step ℚ)
  | apiKey (i : Step ℚ)
  deriving DecidableEq

inductive ServiceAnswer where
  | changed (applied : Bool)
  | verdict (v : Option (Verdict ℚ))
  deriving DecidableEq

def Config.limits (c : Config) : ℚ × ℤ := (c.requestsPerSec, c.burst)

namespace Service

def newService (config : Config) : Service :=
  { config
    ipStore := if config.byIP then some (Store.newStore config.requestsPerSec config.burst) else none
    keyStore :=
      if config.byAPIKey then some (Store.newStore config.requestsPerSec config.burst) else none }

/-- `UpdateConfig`; an argument that is `none` is a nil pointer. -/
def updateConfig (s : Service) (requestsPerSec : Option ℚ) (burst : Option ℤ) : Service × Bool :=
  let (config, changed) :=
    match requestsPerSec with
    | some r =>
      if r ≠ s.config.requestsPerSec then ({ s.config with requestsPerSec := r }, true)
      else (s.config, false)
    | none => (s.config, false)
  let (config, changed) :=
    match burst with
    | some b => if b ≠ config.burst then ({ config with burst := b }, true) else (config, changed)
    | none => (config, changed)
  ({ s with config }, changed)

/-- A step on a store that may be nil. -/
def storeStep (store : Option (Store ℚ)) (i : Step ℚ) : Option (Store ℚ) × Option (Verdict ℚ) :=
  match store with
  | none => (none, none)
  | some store => (some (store.step i).1, (store.step i).2)

def step (s : Service) : ServiceStep → Service × ServiceAnswer
  | .updateConfig requestsPerSec burst =>
    let r := s.updateConfig requestsPerSec burst
    (r.1, .changed r.2)
  | .ip i =>
    let r := storeStep s.ipStore i
    ({ s with ipStore := r.1 }, .verdict r.2)
  | .apiKey i =>
    let r := storeStep s.keyStore i
    ({ s with keyStore := r.1 }, .verdict r.2)

def machine : Machine Service ServiceStep ServiceAnswer := ⟨step⟩

end Service

/-! ### The limiters a step creates -/

/-- The limiter a step adds to the heap. -/
def Store.created (s : Store ℚ) (i : Step ℚ) : Option (Limiter ℚ) := (s.step i).1.heap[s.heap.length]?

/-- A step that finds no limiter for its key. -/
def Store.Misses (s : Store ℚ) : Step ℚ → Prop
  | .getLimiter _ key _ => s.limiters.lookup key = none
  | _ => False

namespace Store

variable (s : Store ℚ)

theorem step_keeps (i : Step ℚ) : (s.step i).1.rate = s.rate ∧ (s.step i).1.burst = s.burst := by
  have hcall : ∀ caller f, (s.call caller f).rate = s.rate ∧ (s.call caller f).burst = s.burst := by
    intro caller f
    rw [call]
    split <;> exact ⟨rfl, rfl⟩
  cases i with
  | getLimiter caller key now =>
    simp only [step, getLimiter]
    split <;> exact ⟨rfl, rfl⟩
  | allow caller endpoint now => exact hcall caller _
  | setCustomConfig caller rate burst duration now => exact hcall caller _
  | clearCustomConfig caller => exact hcall caller _
  | reset key => exact ⟨rfl, rfl⟩
  | resetAll => exact ⟨rfl, rfl⟩
  | cleanup key now =>
    simp only [step, expire]
    split
    · exact ⟨rfl, rfl⟩
    · split
      · exact ⟨rfl, rfl⟩
      · split_ifs <;> exact ⟨rfl, rfl⟩

/-- A limiter is created for a key without one, with the store's rate and burst. -/
theorem created_iff (i : Step ℚ) (l : Limiter ℚ) :
    s.created i = some l ↔
      s.Misses i ∧ ∃ now ∈ i.reading, l = Limiter.newLimiter s.rate s.burst now := by
  have hcall : ∀ caller f, (s.call caller f).heap[s.heap.length]? = none := by
    intro caller f
    rw [call]
    split
    · exact List.getElem?_eq_none le_rfl
    · exact List.getElem?_eq_none (by simp)
  have hsame : ∀ s' : Store ℚ, s'.heap = s.heap → s'.heap[s.heap.length]? = none := by
    intro s' hheap
    rw [hheap]
    exact List.getElem?_eq_none le_rfl
  cases i with
  | getLimiter caller key now =>
    simp only [created, step, getLimiter, Misses, Step.reading]
    cases hkey : s.limiters.lookup key with
    | some o => simp
    | none => simp [eq_comm]
  | allow caller endpoint now =>
    simp only [created, step, hcall, Misses, false_and, reduceCtorEq]
  | setCustomConfig caller rate burst duration now =>
    simp only [created, step, hcall, Misses, false_and, reduceCtorEq]
  | clearCustomConfig caller =>
    simp only [created, step, hcall, Misses, false_and, reduceCtorEq]
  | reset key =>
    have hnone : s.created (.reset key) = none := hsame (s.reset key) rfl
    simp only [hnone, Misses, false_and, reduceCtorEq]
  | resetAll =>
    have hnone : s.created .resetAll = none := hsame s.resetAll rfl
    simp only [hnone, Misses, false_and, reduceCtorEq]
  | cleanup key now =>
    have hnone : s.created (.cleanup key now) = none := by
      refine hsame (s.expire now key) ?_
      rw [expire]
      split
      · rfl
      · split
        · rfl
        · split_ifs <;> rfl
    simp only [hnone, Misses, false_and, reduceCtorEq]

end Store

namespace Service

/-- The store a step is on. -/
def storeOf (s : Service) : ServiceStep → Option (Store ℚ × Step ℚ)
  | .updateConfig _ _ => none
  | .ip i => s.ipStore.map fun store => (store, i)
  | .apiKey i => s.keyStore.map fun store => (store, i)

/-- A limiter the step creates enforces the configuration, from now on. -/
def Enforces (s : Service) (i : ServiceStep) : Prop :=
  ∀ store j l, s.storeOf i = some (store, j) → store.created j = some l →
    ∀ t, l.limits t = s.config.limits

/-- The step has to create a limiter. -/
def Creates (s : Service) (i : ServiceStep) : Prop :=
  ∃ store j, s.storeOf i = some (store, j) ∧ store.Misses j

/-- Once an update was applied, every limiter created enforces the configuration. -/
def Reaches (config : Config) (steps : List ServiceStep) : Prop :=
  ∀ before i after, steps = before ++ i :: after →
    .changed true ∈ (machine.run (newService config) before).2 →
    (machine.run (newService config) before).1.Enforces i

/-- The stores have the rate and the burst of the first configuration. -/
def Holds (config : Config) (s : Service) : Prop :=
  ∀ store, s.ipStore = some store ∨ s.keyStore = some store → (store.rate, store.burst) = config.limits

variable {config : Config} {s : Service}

theorem holds_new (config : Config) : Holds config (newService config) := by
  intro store h
  simp only [newService] at h
  split_ifs at h <;> rcases h with h | h <;> cases h <;> rfl

theorem Holds.step (h : Holds config s) (i : ServiceStep) : Holds config (s.step i).1 := by
  have hstore : ∀ (old : Option (Store ℚ)) (j : Step ℚ) (store : Store ℚ),
      (storeStep old j).1 = some store → ∃ store', old = some store' ∧
        (store.rate, store.burst) = (store'.rate, store'.burst) := by
    intro old j store hstep
    cases old with
    | none => cases hstep
    | some store' =>
      obtain ⟨hrate, hburst⟩ := store'.step_keeps j
      cases hstep
      exact ⟨store', rfl, Prod.ext hrate hburst⟩
  intro store hnew
  cases i with
  | updateConfig requestsPerSec burst => exact h store hnew
  | ip j =>
    rcases hnew with hnew | hnew
    · obtain ⟨store', hold, heq⟩ := hstore _ _ _ hnew
      rw [heq]
      exact h store' (.inl hold)
    · exact h store (.inr hnew)
  | apiKey j =>
    rcases hnew with hnew | hnew
    · exact h store (.inl hnew)
    · obtain ⟨store', hold, heq⟩ := hstore _ _ _ hnew
      rw [heq]
      exact h store' (.inr hold)

theorem Holds.enforces_iff (h : Holds config s) (i : ServiceStep) :
    s.Enforces i ↔ (s.Creates i → s.config.limits = config.limits) := by
  have hof : ∀ store j, s.storeOf i = some (store, j) →
      (store.rate, store.burst) = config.limits := by
    intro store j hstore
    cases i with
    | updateConfig requestsPerSec burst => cases hstore
    | ip i =>
      obtain ⟨store', hold, heq⟩ := Option.map_eq_some_iff.mp hstore
      cases heq
      exact h store (.inl hold)
    | apiKey i =>
      obtain ⟨store', hold, heq⟩ := Option.map_eq_some_iff.mp hstore
      cases heq
      exact h store (.inr hold)
  constructor
  · rintro henforces ⟨store, j, hstore, hmiss⟩
    have hreading : ∃ now, now ∈ j.reading := by
      cases j with
      | getLimiter caller key now => exact ⟨now, rfl⟩
      | _ => exact hmiss.elim
    obtain ⟨now, hnow⟩ := hreading
    have hcreated := (store.created_iff j _).mpr ⟨hmiss, now, hnow, rfl⟩
    have hlimits := henforces store j _ hstore hcreated now
    rw [← hlimits, ← hof store j hstore]
    rfl
  · intro hconfig store j l hstore hcreated t
    obtain ⟨hmiss, now, -, rfl⟩ := (store.created_iff j l).mp hcreated
    rw [hconfig ⟨store, j, hstore, hmiss⟩, ← hof store j hstore]
    rfl

theorem updateConfig_of_unchanged {requestsPerSec : Option ℚ} {burst : Option ℤ}
    (h : (s.updateConfig requestsPerSec burst).2 = false) :
    (s.updateConfig requestsPerSec burst).1 = s := by
  unfold updateConfig at h ⊢
  cases requestsPerSec with
  | none =>
    cases burst with
    | none => rfl
    | some b =>
      by_cases hb : b = s.config.burst
      · simp only [hb, ne_eq, not_true_eq_false, ite_false]
      · simp [hb] at h
  | some r =>
    by_cases hr : r = s.config.requestsPerSec
    · cases burst with
      | none => simp only [hr, ne_eq, not_true_eq_false, ite_false]
      | some b =>
        by_cases hb : b = s.config.burst
        · simp only [hr, hb, ne_eq, not_true_eq_false, ite_false]
        · simp [hr, hb] at h
    · cases burst with
      | none => simp [hr] at h
      | some b => by_cases hb : b = s.config.burst <;> simp [hr, hb] at h

/-- An update that is not applied leaves the configuration. -/
theorem config_step (i : ServiceStep) (h : (s.step i).2 ≠ .changed true) :
    (s.step i).1.config = s.config := by
  cases i with
  | updateConfig requestsPerSec burst =>
    have hchanged : (s.updateConfig requestsPerSec burst).2 = false := by
      simpa [step] using h
    exact congrArg Service.config (updateConfig_of_unchanged hchanged)
  | ip i => rfl
  | apiKey i => rfl

theorem config_run (steps : List ServiceStep) (h : .changed true ∉ (machine.run s steps).2) :
    (machine.run s steps).1.config = s.config := by
  induction steps generalizing s with
  | nil => rfl
  | cons i steps ih =>
    rw [Machine.run_cons] at h ⊢
    rw [List.mem_cons, not_or] at h
    exact (ih h.2).trans (config_step i (Ne.symm h.1))

/-- In every run, the limiters created after an update enforce it iff no limiter is
created while the configuration differs from the first one. -/
theorem reaches_iff (config : Config) (steps : List ServiceStep) :
    Reaches config steps ↔ ∀ before i after, steps = before ++ i :: after →
      (machine.run (newService config) before).1.Creates i →
      (machine.run (newService config) before).1.config.limits = config.limits := by
  have hholds : ∀ before, Holds config (machine.run (newService config) before).1 := fun before =>
    machine.invariant_run (fun s i hs => hs.step i) (holds_new config) before
  constructor
  · intro h before i after hsteps hcreates
    by_cases hchanged : .changed true ∈ (machine.run (newService config) before).2
    · exact ((hholds before).enforces_iff i).mp (h before i after hsteps hchanged) hcreates
    · rw [config_run before hchanged]
      rfl
  · intro h before i after hsteps _
    exact ((hholds before).enforces_iff i).mpr (h before i after hsteps)

/-- Two requests per second become five, and then a new client comes. -/
def raisedThenNew : List ServiceStep :=
  [.updateConfig (some 5) (some 10), .ip (.getLimiter 0 (str "10.0.0.1") 0)]

/-- The new client is held to the old limits. -/
theorem update_misses_new_client :
    ¬ ∀ (config : Config) (steps : List ServiceStep), Reaches config steps := by
  intro h
  have henforces := h ⟨true, 2, 4, true, false, 0⟩ raisedThenNew
    [.updateConfig (some 5) (some 10)] (.ip (.getLimiter 0 (str "10.0.0.1") 0)) [] rfl
    (by decide +kernel)
  have hlimits := henforces (Store.newStore 2 4) (.getLimiter 0 (str "10.0.0.1") 0)
    (Limiter.newLimiter 2 4 0) rfl (by decide +kernel) 0
  exact absurd hlimits (by decide +kernel)

end Service

end Konsul.Ratelimit
