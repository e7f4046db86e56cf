import Konsul.Ratelimit.Store
import Mathlib.Data.List.ReduceOption

/-!
# Runs with and without the cleanup

A run is compared with the same run without its cleanup steps. `Tracked` adds to the
store what decides whether a drop is felt: the clients whose limiter was dropped, and
the new limiters that stand in for a dropped one and have not seen a request. A
dropped limiter that is `Idle` fills up before it is next used, as a new one is full;
`Sim` pairs the limiters of the two runs. `Tally` counts what a client is granted over
all the limiters it has had; `client_bound` is the bound of one limiter.
-/

namespace Konsul.Ratelimit

open GoLib

namespace Limiter

/-- Full again at `t`, for good, and with no custom limit left to lose. -/
structure Idle (l : Limiter F64) (t : Time) : Prop where
  rate : 0 ≤ l.rate
  finite : l.rate.IsFinite
  refilled : (l.burst : F64) ≤ l.tokens + GoFloat.elapsed t l.lastUpdate * l.rate
  pending : l.pending t = none

instance (l : Limiter F64) (t : Time) : Decidable (l.Idle t) :=
  decidable_of_iff (0 ≤ l.rate ∧ l.rate.IsFinite ∧
    (l.burst : F64) ≤ l.tokens + GoFloat.elapsed t l.lastUpdate * l.rate ∧ l.pending t = none)
    ⟨fun h => ⟨h.1, h.2.1, h.2.2.1, h.2.2.2⟩, fun h => ⟨h.rate, h.finite, h.refilled, h.pending⟩⟩

theorem pending_mono {l : Limiter F64} {t t' : Time} (h : l.pending t = none) (ht : t ≤ t') :
    l.pending t' = none := by
  unfold pending at h ⊢
  cases hc : l.customConfig with
  | none => rfl
  | some c =>
    rw [hc, Option.bind_some] at h
    have hpast : ¬ t < c.expiresAt := by
      intro hlt
      rw [if_pos hlt] at h
      cases h
    rw [Option.bind_some, if_neg fun hlt => hpast (ht.trans_lt hlt)]

/-- Rounding keeps the order, so a full limiter does not run low again. -/
theorem Idle.mono {l : Limiter F64} {t t' : Time} (h : l.Idle t) (ht : t ≤ t') : l.Idle t' := by
  have hflow := F64.mul_mono (elapsed_finite t l.lastUpdate) (elapsed_finite t' l.lastUpdate)
    (elapsed_mono ht l.lastUpdate) h.rate h.finite
  have hrefilled := F64.le_add_of_le (F64.intCast_finite l.burst) h.refilled hflow
  exact ⟨h.rate, h.finite, hrefilled, pending_mono h.pending ht⟩

theorem newLimiter_idle {rate : F64} (hrate : 0 ≤ rate) (hfinite : rate.IsFinite) (burst : ℤ)
    (t : Time) : (newLimiter rate burst t).Idle t := by
  have hburst : (burst : F64) ≤ (burst : F64) + GoFloat.elapsed t t * rate := by
    have hnan := (F64.intCast_finite burst).ne_nan
    rw [elapsed_self, F64.zero_mul hfinite, F64.add_zero]
    exact ⟨hnan, hnan, le_rfl⟩
  exact ⟨hrate, hfinite, hburst, rfl⟩

/-- What a request finds in a limiter that is full for good. -/
theorem Idle.level {l : Limiter F64} {t u : Time} (h : l.Idle t) (ht : t ≤ u) :
    l.level u = (l.burst : F64) := by
  have hrefilled := (h.mono ht).refilled
  unfold Limiter.level refill
  simp only [limits_of_pending l u (pending_mono h.pending ht)]
  split_ifs with hless
  · rfl
  · exact F64.le_antisymm (F64.le_of_not_lt hrefilled.1 hrefilled.2.1 hless) hrefilled

/-- Two limiters no request tells apart from `t` on; one that stands in for the other
only has to be full when it is used. -/
structure Twin (t : Time) (fresh : Prop) (l l' : Limiter F64) : Prop where
  rate : l.rate = l'.rate
  burst : l.burst = l'.burst
  pending : ∀ u, t ≤ u → l.pending u = l'.pending u
  inStep : ¬ fresh → l.tokens = l'.tokens ∧ l.lastUpdate = l'.lastUpdate
  standIn : fresh → l.Idle t ∧ l'.Idle t

namespace Twin

variable {t u : Time} {fresh : Prop} {l l' : Limiter F64}

theorem mono (h : Twin t fresh l l') (ht : t ≤ u) : Twin u fresh l l' :=
  ⟨h.rate, h.burst, fun v hv => h.pending v (ht.trans hv), h.inStep,
    fun hf => ⟨(h.standIn hf).1.mono ht, (h.standIn hf).2.mono ht⟩⟩

theorem limits (h : Twin t fresh l l') (ht : t ≤ u) : l.limits u = l'.limits u := by
  unfold Limiter.limits
  rw [h.pending u ht, h.rate, h.burst]

/-- Whether in step or both full, the limiters are level when a request comes. -/
theorem level (h : Twin t fresh l l') (ht : t ≤ u) : l.level u = l'.level u := by
  by_cases hf : fresh
  · obtain ⟨hidle, hidle'⟩ := h.standIn hf
    rw [hidle.level ht, hidle'.level ht, h.burst]
  · obtain ⟨htokens, hlast⟩ := h.inStep hf
    unfold Limiter.level
    rw [h.limits ht, htokens, hlast]

/-- A request finds the two limiters in one state and leaves them in one state. -/
theorem allow (h : Twin t fresh l l') (ht : t ≤ u) (endpoint : GoString) :
    (l.allowWithEndpoint endpoint u).2 = (l'.allowWithEndpoint endpoint u).2 ∧
      Twin u False (l.allowWithEndpoint endpoint u).1 (l'.allowWithEndpoint endpoint u).1 := by
  obtain ⟨htokens, hlast, hgrant⟩ := l.allowWithEndpoint_eq endpoint u
  obtain ⟨htokens', hlast', hgrant'⟩ := l'.allowWithEndpoint_eq endpoint u
  obtain ⟨hrate, hburst, hpending⟩ := allowWithEndpoint_keeps l endpoint u
  obtain ⟨hrate', hburst', hpending'⟩ := allowWithEndpoint_keeps l' endpoint u
  rw [h.level ht] at htokens hgrant
  refine ⟨hgrant.trans hgrant'.symm, ⟨?_, ?_, fun v hv => ?_, fun _ => ⟨?_, ?_⟩, False.elim⟩⟩
  · rw [hrate, hrate', h.rate]
  · rw [hburst, hburst', h.burst]
  · rw [hpending v hv, hpending' v hv, h.pending v (ht.trans hv)]
  · exact htokens.trans htokens'.symm
  · exact hlast.trans hlast'.symm

/-- An adjustment keeps limiters in step; it also caps the tokens it finds, so a
limiter not filled up yet would show. -/
theorem setCustomConfig (h : Twin t fresh l l') (hf : ¬ fresh) (rate : F64) (burst : ℤ)
    (duration : Duration) (now : Time) :
    Twin t fresh (l.setCustomConfig rate burst duration now)
      (l'.setCustomConfig rate burst duration now) := by
  obtain ⟨htokens, hlast⟩ := h.inStep hf
  refine ⟨h.rate, h.burst, fun _ _ => rfl, fun _ => ⟨?_, hlast⟩, fun hfresh => absurd hfresh hf⟩
  simp only [Limiter.setCustomConfig, htokens]

theorem clearCustomConfig (h : Twin t fresh l l') :
    Twin t fresh l.clearCustomConfig l'.clearCustomConfig :=
  ⟨h.rate, h.burst, fun _ _ => rfl, h.inStep, fun hf =>
    ⟨{ (h.standIn hf).1 with pending := rfl }, { (h.standIn hf).2 with pending := rfl }⟩⟩

end Twin

end Limiter

namespace Store

variable {F : Type}

/-- The limiter a turn of the cleanup drops. -/
def victim (s : Store F) (now : Time) (key : GoString) : Option (ℕ × Limiter F) :=
  (s.limiters.lookup key).bind fun limiter => (s.heap[limiter]?).bind fun l =>
    if threshold < now - l.lastUpdate then some (limiter, l) else none

theorem expire_eq (s : Store F) (now : Time) (key : GoString) :
    s.expire now key = match s.victim now key with
      | none => s
      | some _ => { s with limiters := s.limiters.erase key } := by
  unfold expire victim
  cases s.limiters.lookup key with
  | none => rfl
  | some limiter =>
    simp only [Option.bind_some]
    cases s.heap[limiter]? with
    | none => rfl
    | some l =>
      simp only [Option.bind_some]
      split_ifs <;> rfl

theorem of_victim {s : Store F} {now : Time} {key : GoString} {limiter : ℕ} {l : Limiter F}
    (h : s.victim now key = some (limiter, l)) :
    s.limiters.lookup key = some limiter ∧ s.heap[limiter]? = some l := by
  unfold victim at h
  cases hkey : s.limiters.lookup key with
  | none => rw [hkey] at h; cases h
  | some o =>
    cases hobj : s.heap[o]? with
    | none => simp only [hkey, hobj, Option.bind_some, Option.bind_none] at h; cases h
    | some l' =>
      simp only [hkey, hobj, Option.bind_some] at h
      split_ifs at h
      cases h
      exact ⟨rfl, hobj⟩

end Store

theorem Step.advance_of_inTime {F : Type} {e : Step F} {c : Time} (now : Time) (hread : e.reading = some now)
    (hcleanup : e.isCleanup = false) (htime : e.InTime c) : c ≤ now ∧ e.advance c = now := by
  have hle := htime hcleanup now hread
  refine ⟨hle, ?_⟩
  rw [Step.advance, hread]
  exact max_eq_right hle

/-- A store with the clients whose limiter a cleanup dropped and who have no new one,
and the new limiters of such clients that no request has used. -/
structure Tracked where
  store : Store F64
  gone : Finset GoString
  fresh : Finset ℕ

namespace Tracked

def start (rate : F64) (burst : ℤ) : Tracked := ⟨Store.newStore rate burst, ∅, ∅⟩

def step (t : Tracked) (e : Step F64) : Tracked × Option (Verdict F64) :=
  let r := t.store.step e
  match e with
  | .getLimiter _ key _ =>
    if t.store.limiters.lookup key = none then
      (⟨r.1, t.gone.erase key,
        if key ∈ t.gone then insert t.store.heap.length t.fresh else t.fresh⟩, r.2)
    else (⟨r.1, t.gone, t.fresh⟩, r.2)
  | .allow caller _ _ =>
    match t.store.held.lookup caller with
    | none => (⟨r.1, t.gone, t.fresh⟩, r.2)
    | some limiter => (⟨r.1, t.gone, t.fresh.erase limiter⟩, r.2)
  | .reset key => (⟨r.1, t.gone.erase key, t.fresh⟩, r.2)
  | .resetAll => (⟨r.1, ∅, t.fresh⟩, r.2)
  | .cleanup key now =>
    if (t.store.victim now key).isSome then (⟨r.1, insert key t.gone, t.fresh⟩, r.2)
    else (⟨r.1, t.gone, t.fresh⟩, r.2)
  | _ => (⟨r.1, t.gone, t.fresh⟩, r.2)

def machine : Machine Tracked (Step F64) (Option (Verdict F64)) := ⟨step⟩

theorem step_store (t : Tracked) (e : Step F64) :
    t.store.step e = ((t.step e).1.store, (t.step e).2) := by
  unfold step
  cases e with
  | getLimiter caller key now =>
    simp only
    split_ifs <;> rfl
  | allow caller endpoint now =>
    simp only
    cases t.store.held.lookup caller <;> rfl
  | cleanup key now =>
    simp only
    split_ifs <;> rfl
  | setCustomConfig => rfl
  | clearCustomConfig => rfl
  | reset => rfl
  | resetAll => rfl

theorem run_store (t : Tracked) (es : List (Step F64)) :
    Store.machine.run t.store es = ((machine.run t es).1.store, (machine.run t es).2) := by
  have h := Machine.run_map machine Store.machine store id id (fun t e => step_store t e) t es
  simpa using h

/-- What a drop may take: a limiter that is idle and that no caller holds. What an
adjustment may not meet: the stand-in of a dropped limiter. -/
def Safe (t : Tracked) : Step F64 → Prop
  | .cleanup key now => ∀ limiter l, t.store.victim now key = some (limiter, l) →
      l.Idle now ∧ ∀ caller, t.store.held.lookup caller ≠ some limiter
  | .setCustomConfig caller _ _ _ _ =>
    ∀ limiter, t.store.held.lookup caller = some limiter → limiter ∉ t.fresh
  | _ => True

end Tracked

/-- The limiters of a run (`t`) and of the same run without its cleanups (`s`): `twin`
pairs them, and a limiter only the second run still has is idle and out of reach. -/
structure Sim (c : Time) (t : Tracked) (s : Store F64) (twin : ℕ → Option ℕ) : Prop where
  rate : t.store.rate = s.rate
  burst : t.store.burst = s.burst
  paired : ∀ o o', twin o = some o' → ∃ l l', t.store.heap[o]? = some l ∧
    s.heap[o']? = some l' ∧ l.Twin c (o ∈ t.fresh) l'
  injective : ∀ o₁ o₂ o', twin o₁ = some o' → twin o₂ = some o' → o₁ = o₂
  held : ∀ caller, s.held.lookup caller = (t.store.held.lookup caller).bind twin
  holds : ∀ caller o, t.store.held.lookup caller = some o → (twin o).isSome
  listed : ∀ key o, t.store.limiters.lookup key = some o →
    ∃ o', twin o = some o' ∧ s.limiters.lookup key = some o'
  dropped : ∀ key o', t.store.limiters.lookup key = none → s.limiters.lookup key = some o' →
    key ∈ t.gone ∧ (∀ o, twin o ≠ some o') ∧
      ∃ l', s.heap[o']? = some l' ∧ l'.rate = s.rate ∧ l'.burst = s.burst ∧ l'.Idle c
  own : ∀ key₁ key₂ o', s.limiters.lookup key₁ = some o' → s.limiters.lookup key₂ = some o' →
    key₁ = key₂
  gone : ∀ key ∈ t.gone, t.store.limiters.lookup key = none ∧ (s.limiters.lookup key).isSome
  fresh : ∀ o ∈ t.fresh, o < t.store.heap.length
  made : ∀ l ∈ t.store.heap, l.rate = t.store.rate ∧ l.burst = t.store.burst

namespace Store

theorem getElem?_modify_ne {α : Type} (l : List α) {i j : ℕ} (f : α → α) (h : i ≠ j) :
    (l.modify i f)[j]? = l[j]? := by
  rw [List.getElem?_modify]
  simp only [h, if_false]
  cases l[j]? <;> rfl

theorem getElem?_modify_self {α : Type} {l : List α} {i : ℕ} {a : α} (f : α → α)
    (h : l[i]? = some a) : (l.modify i f)[i]? = some (f a) := by
  rw [List.getElem?_modify, h]
  simp

end Store

namespace Sim

variable {c : Time} {t : Tracked} {s : Store F64} {twin : ℕ → Option ℕ}

theorem mono {c' : Time} (h : Sim c t s twin) (hc : c ≤ c') : Sim c' t s twin where
  __ := h
  paired o o' ho := by
    obtain ⟨l, l', hl, hl', htwin⟩ := h.paired o o' ho
    exact ⟨l, l', hl, hl', htwin.mono hc⟩
  dropped key o' hnone hsome := by
    obtain ⟨hgone, hfree, l', hl', hrate, hburst, hidle⟩ := h.dropped key o' hnone hsome
    exact ⟨hgone, hfree, l', hl', hrate, hburst, hidle.mono hc⟩

theorem lt_heap (h : Sim c t s twin) {key : GoString} {o' : ℕ}
    (hkey : s.limiters.lookup key = some o') : o' < s.heap.length := by
  cases hlisted : t.store.limiters.lookup key with
  | none =>
    obtain ⟨-, -, l', hl', -⟩ := h.dropped key o' hlisted hkey
    exact (List.getElem?_eq_some_iff.mp hl').1
  | some o =>
    obtain ⟨o₁, htwin, ho₁⟩ := h.listed key o hlisted
    obtain ⟨l, l', -, hl', -⟩ := h.paired o o₁ htwin
    rw [hkey] at ho₁
    cases ho₁
    exact (List.getElem?_eq_some_iff.mp hl').1

theorem twin_lt (h : Sim c t s twin) {o o' : ℕ} (ho : twin o = some o') :
    o < t.store.heap.length ∧ o' < s.heap.length := by
  obtain ⟨l, l', hl, hl', -⟩ := h.paired o o' ho
  exact ⟨(List.getElem?_eq_some_iff.mp hl).1, (List.getElem?_eq_some_iff.mp hl').1⟩

theorem call (h : Sim c t s twin) (caller : ℕ) (f : Limiter F64 → Limiter F64) (fresh' : Finset ℕ)
    (hsub : fresh' ⊆ t.fresh)
    (hother : ∀ o, t.store.held.lookup caller ≠ some o → (o ∈ fresh' ↔ o ∈ t.fresh))
    (hf : ∀ o, t.store.held.lookup caller = some o → ∀ l l', l.Twin c (o ∈ t.fresh) l' →
      (f l).Twin c (o ∈ fresh') (f l'))
    (hkeeps : ∀ l, (f l).rate = l.rate ∧ (f l).burst = l.burst) :
    Sim c ⟨t.store.call caller f, t.gone, fresh'⟩ (s.call caller f) twin := by
  cases hheld : t.store.held.lookup caller with
  | none =>
    have hheld' : s.held.lookup caller = none := by rw [h.held, hheld, Option.bind_none]
    have hsame : fresh' = t.fresh := by
      ext o
      exact hother o (by rw [hheld]; exact fun hn => Option.some_ne_none _ hn.symm)
    unfold Store.call
    rw [hheld, hheld', hsame]
    exact h
  | some o =>
    obtain ⟨o', ho'⟩ := Option.isSome_iff_exists.mp (h.holds caller o hheld)
    have hheld' : s.held.lookup caller = some o' := by rw [h.held, hheld, Option.bind_some, ho']
    have hne : ∀ o₁ o₁', twin o₁ = some o₁' → o ≠ o₁ → o' ≠ o₁' := by
      rintro o₁ o₁' ho₁ hoo rfl
      exact hoo (h.injective o o₁ o' ho' ho₁)
    unfold Store.call
    rw [hheld, hheld']
    exact {
      rate := h.rate
      burst := h.burst
      paired := by
        intro o₁ o₁' ho₁
        obtain ⟨l, l', hl, hl', htwin⟩ := h.paired o₁ o₁' ho₁
        by_cases hoo : o = o₁
        · subst hoo
          rw [ho'] at ho₁
          cases ho₁
          exact ⟨f l, f l', Store.getElem?_modify_self f hl, Store.getElem?_modify_self f hl',
            hf o hheld l l' htwin⟩
        · have hfresh : o₁ ∈ fresh' ↔ o₁ ∈ t.fresh :=
            hother o₁ (by rw [hheld]; exact fun hs => hoo (Option.some.inj hs))
          refine ⟨l, l', (Store.getElem?_modify_ne _ f hoo).trans hl,
            (Store.getElem?_modify_ne _ f (hne o₁ o₁' ho₁ hoo)).trans hl', ?_⟩
          rw [hfresh]
          exact htwin
      injective := h.injective
      held := by
        intro caller'
        simp only [GoMap.lookup_erase_ite]
        split_ifs
        · rfl
        · exact h.held caller'
      holds := by
        intro caller' o₁ ho₁
        simp only [GoMap.lookup_erase_ite] at ho₁
        split_ifs at ho₁
        exact h.holds caller' o₁ ho₁
      listed := h.listed
      dropped := by
        intro key o₁' hnone hsome
        obtain ⟨hgone, hfree, l', hl', hrest⟩ := h.dropped key o₁' hnone hsome
        have hoo : o' ≠ o₁' := fun heq => hfree o (heq ▸ ho')
        exact ⟨hgone, hfree, l', (Store.getElem?_modify_ne _ f hoo).trans hl', hrest⟩
      own := h.own
      gone := h.gone
      fresh := by
        intro o₁ ho₁
        rw [List.length_modify]
        exact h.fresh o₁ (hsub ho₁)
      made := by
        intro l hl
        obtain ⟨i, hi⟩ := List.mem_iff_getElem?.mp hl
        rw [List.getElem?_modify] at hi
        obtain ⟨l₀, hl₀, heq⟩ := Option.map_eq_some_iff.mp hi
        have hmade := h.made l₀ (List.mem_of_getElem? hl₀)
        split_ifs at heq
        · rw [← heq, (hkeeps l₀).1, (hkeeps l₀).2]
          exact hmade
        · rw [← heq]
          exact hmade }

theorem limiterOf (h : Sim c t s twin) (caller : ℕ) :
    (t.store.limiterOf caller = none ∧ s.limiterOf caller = none) ∨
      ∃ o l l', t.store.held.lookup caller = some o ∧ t.store.limiterOf caller = some l ∧
        s.limiterOf caller = some l' ∧ l.Twin c (o ∈ t.fresh) l' := by
  unfold Store.limiterOf
  rw [h.held]
  cases hheld : t.store.held.lookup caller with
  | none => exact .inl ⟨rfl, rfl⟩
  | some o =>
    obtain ⟨o', ho'⟩ := Option.isSome_iff_exists.mp (h.holds caller o hheld)
    obtain ⟨l, l', hl, hl', htwin⟩ := h.paired o o' ho'
    refine .inr ⟨o, l, l', rfl, hl, ?_, htwin⟩
    rw [Option.bind_some, ho', Option.bind_some, hl']

theorem reset (h : Sim c t s twin) (key : GoString) :
    Sim c ⟨t.store.reset key, t.gone.erase key, t.fresh⟩ (s.reset key) twin where
  __ := h
  listed := by
    intro key' o ho
    simp only [Store.reset, GoMap.lookup_erase_ite] at ho ⊢
    split_ifs at ho with hk
    rw [if_neg hk]
    exact h.listed key' o ho
  dropped := by
    intro key' o' hnone hsome
    simp only [Store.reset, GoMap.lookup_erase_ite] at hnone hsome
    split_ifs at hsome with hk
    rw [if_neg hk] at hnone
    obtain ⟨hgone, hrest⟩ := h.dropped key' o' hnone hsome
    exact ⟨Finset.mem_erase.mpr ⟨hk, hgone⟩, hrest⟩
  own := by
    intro key₁ key₂ o' h₁ h₂
    simp only [Store.reset, GoMap.lookup_erase_ite] at h₁ h₂
    split_ifs at h₁ h₂
    exact h.own key₁ key₂ o' h₁ h₂
  gone := by
    intro key' hkey'
    obtain ⟨hk, hgone⟩ := Finset.mem_erase.mp hkey'
    simp only [Store.reset, GoMap.lookup_erase_ite, if_neg hk]
    exact h.gone key' hgone

theorem resetAll (h : Sim c t s twin) :
    Sim c ⟨t.store.resetAll, ∅, t.fresh⟩ s.resetAll twin where
  __ := h
  listed := fun _ _ ho => by simp [Store.resetAll] at ho
  dropped := fun _ _ _ ho => by simp [Store.resetAll] at ho
  own := fun _ _ _ ho => by simp [Store.resetAll] at ho
  gone := fun key hkey => absurd hkey (Finset.notMem_empty key)

/-- A drop is taken by the first run only: the limiter leaves its pair. -/
theorem drop (h : Sim c t s twin) {key : GoString} {o : ℕ} {l : Limiter F64}
    (hkey : t.store.limiters.lookup key = some o) (hl : t.store.heap[o]? = some l)
    (hidle : l.Idle c) (hfree : ∀ caller, t.store.held.lookup caller ≠ some o) :
    Sim c ⟨{ t.store with limiters := t.store.limiters.erase key }, insert key t.gone, t.fresh⟩ s
      (Function.update twin o none) := by
  obtain ⟨o', ho', hkey'⟩ := h.listed key o hkey
  obtain ⟨l₁, l', hl₁, hl', htwin⟩ := h.paired o o' ho'
  rw [hl] at hl₁
  cases hl₁
  have hrate := h.made l (List.mem_of_getElem? hl)
  have hkeep : ∀ {o₁ o₁' : ℕ}, Function.update twin o none o₁ = some o₁' → twin o₁ = some o₁' := by
    intro o₁ o₁' ho₁
    by_cases hoo : o₁ = o
    · rw [hoo, Function.update_self] at ho₁
      cases ho₁
    · rwa [Function.update_of_ne hoo] at ho₁
  have hidle' : l'.Idle c := by
    by_cases hfresh : o ∈ t.fresh
    · exact (htwin.standIn hfresh).2
    · obtain ⟨htokens, hlast⟩ := htwin.inStep hfresh
      have hrefilled := hidle.refilled
      rw [htwin.rate, htwin.burst, htokens, hlast] at hrefilled
      exact ⟨htwin.rate ▸ hidle.rate, htwin.rate ▸ hidle.finite, hrefilled,
        (htwin.pending c le_rfl).symm.trans hidle.pending⟩
  -- no other key, and no caller, refers to the limiter
  have honly : ∀ key₁, t.store.limiters.lookup key₁ = some o → key₁ = key := by
    intro key₁ h₁
    obtain ⟨o₁', ho₁', hkey₁'⟩ := h.listed key₁ o h₁
    rw [ho'] at ho₁'
    cases ho₁'
    exact h.own key₁ key o' hkey₁' hkey'
  exact {
    rate := h.rate
    burst := h.burst
    paired := fun o₁ o₁' ho₁ => h.paired o₁ o₁' (hkeep ho₁)
    injective := fun o₁ o₂ o₁' h₁ h₂ => h.injective o₁ o₂ o₁' (hkeep h₁) (hkeep h₂)
    held := by
      intro caller
      rw [h.held]
      cases hheld : t.store.held.lookup caller with
      | none => rfl
      | some o₁ =>
        have hoo : o₁ ≠ o := fun heq => hfree caller (heq ▸ hheld)
        rw [Option.bind_some, Option.bind_some, Function.update_of_ne hoo]
    holds := by
      intro caller o₁ hheld
      have hoo : o₁ ≠ o := fun heq => hfree caller (heq ▸ hheld)
      rw [Function.update_of_ne hoo]
      exact h.holds caller o₁ hheld
    listed := by
      intro key₁ o₁ h₁
      simp only [GoMap.lookup_erase_ite] at h₁
      split_ifs at h₁ with hk
      have hoo : o₁ ≠ o := fun heq => hk (honly key₁ (heq ▸ h₁))
      rw [Function.update_of_ne hoo]
      exact h.listed key₁ o₁ h₁
    dropped := by
      intro key₁ o₁' hnone hsome
      simp only [GoMap.lookup_erase_ite] at hnone
      by_cases hk : key₁ = key
      · rw [hk, hkey'] at hsome
        cases hsome
        refine ⟨by rw [hk]; exact Finset.mem_insert_self .., fun o₁ ho₁ => ?_, l', hl', ?_, ?_,
          hidle'⟩
        · have hoo : o₁ = o := h.injective o₁ o o' (hkeep ho₁) ho'
          rw [hoo, Function.update_self] at ho₁
          cases ho₁
        · rw [← htwin.rate, hrate.1, h.rate]
        · rw [← htwin.burst, hrate.2, h.burst]
      · rw [if_neg hk] at hnone
        obtain ⟨hgone, hlone, hrest⟩ := h.dropped key₁ o₁' hnone hsome
        exact ⟨Finset.mem_insert_of_mem hgone, fun o₁ ho₁ => hlone o₁ (hkeep ho₁), hrest⟩
    own := h.own
    gone := by
      intro key₁ hkey₁
      simp only [GoMap.lookup_erase_ite]
      rcases Finset.mem_insert.mp hkey₁ with rfl | hgone
      · exact ⟨if_pos rfl, by rw [hkey']; rfl⟩
      · obtain ⟨hnone, hsome⟩ := h.gone key₁ hgone
        exact ⟨by rw [hnone, ite_self], hsome⟩
    fresh := h.fresh
    made := h.made }

theorem hold (h : Sim c t s twin) (caller : ℕ) {o o' : ℕ} (ho : twin o = some o') :
    Sim c ⟨{ t.store with held := t.store.held.insert caller o }, t.gone, t.fresh⟩
      { s with held := s.held.insert caller o' } twin where
  __ := h
  held := by
    intro caller'
    simp only [GoMap.lookup_insert_ite]
    split_ifs
    · rw [Option.bind_some, ho]
    · exact h.held caller'
  holds := by
    intro caller' o₁ ho₁
    simp only [GoMap.lookup_insert_ite] at ho₁
    split_ifs at ho₁
    · cases ho₁
      rw [ho]
      rfl
    · exact h.holds caller' o₁ ho₁

/-- The first run makes a limiter for `key` whose twin is `o'`, the limiter the second
run has for `key` or makes as well. -/
theorem create (h : Sim c t s twin) {key : GoString} (s' : Store F64) (o' : ℕ)
    (hs' : s'.rate = s.rate ∧ s'.burst = s.burst ∧ s'.held = s.held)
    (hheap : ∀ (i : ℕ) l, s.heap[i]? = some l → s'.heap[i]? = some l)
    (hmap : ∀ k, s'.limiters.lookup k = if k = key then some o' else s.limiters.lookup k)
    (hlone : ∀ o, twin o ≠ some o') (hown : ∀ k, s.limiters.lookup k = some o' → k = key)
    (htwin : ∃ l', s'.heap[o']? = some l' ∧
      (Limiter.newLimiter t.store.rate t.store.burst c).Twin c (key ∈ t.gone) l') :
    Sim c ⟨{ t.store with
          heap := t.store.heap ++ [Limiter.newLimiter t.store.rate t.store.burst c]
          limiters := t.store.limiters.insert key t.store.heap.length },
        t.gone.erase key,
        if key ∈ t.gone then insert t.store.heap.length t.fresh else t.fresh⟩
      s' (Function.update twin t.store.heap.length (some o')) := by
  have hnew : ∀ {o₁ o₁' : ℕ}, twin o₁ = some o₁' → o₁ ≠ t.store.heap.length := by
    intro o₁ o₁' ho₁ heq
    have := (h.twin_lt ho₁).1
    omega
  have hkeep : ∀ {o₁ o₁' : ℕ}, twin o₁ = some o₁' →
      Function.update twin t.store.heap.length (some o') o₁ = some o₁' := by
    intro o₁ o₁' ho₁
    rw [Function.update_of_ne (hnew ho₁)]
    exact ho₁
  have hfresh : ∀ o₁ ≠ t.store.heap.length,
      (o₁ ∈ (if key ∈ t.gone then insert t.store.heap.length t.fresh else t.fresh) ↔
        o₁ ∈ t.fresh) := by
    intro o₁ ho₁
    split_ifs
    · rw [Finset.mem_insert]
      exact or_iff_right ho₁
    · exact Iff.rfl
  have hfresh' : t.store.heap.length ∈
      (if key ∈ t.gone then insert t.store.heap.length t.fresh else t.fresh) ↔ key ∈ t.gone := by
    split_ifs with hgone
    · exact ⟨fun _ => hgone, fun _ => Finset.mem_insert_self ..⟩
    · exact ⟨fun hmem => absurd (h.fresh _ hmem) (lt_irrefl _), fun hg => absurd hg hgone⟩
  exact {
    rate := by rw [hs'.1]; exact h.rate
    burst := by rw [hs'.2.1]; exact h.burst
    paired := by
      intro o₁ o₁' ho₁
      by_cases hoo : o₁ = t.store.heap.length
      · subst hoo
        rw [Function.update_self] at ho₁
        cases ho₁
        obtain ⟨l', hl', hpair⟩ := htwin
        refine ⟨_, l', List.getElem?_concat_length, hl', ?_⟩
        rw [hfresh']
        exact hpair
      · rw [Function.update_of_ne hoo] at ho₁
        obtain ⟨l, l', hl, hl', hpair⟩ := h.paired o₁ o₁' ho₁
        refine ⟨l, l', ?_, hheap o₁' l' hl', ?_⟩
        · rw [List.getElem?_append_left (h.twin_lt ho₁).1]
          exact hl
        · rw [hfresh o₁ hoo]
          exact hpair
    injective := by
      intro o₁ o₂ o₁' h₁ h₂
      by_cases hoo₁ : o₁ = t.store.heap.length <;> by_cases hoo₂ : o₂ = t.store.heap.length
      · rw [hoo₁, hoo₂]
      · rw [hoo₁, Function.update_self] at h₁
        rw [Function.update_of_ne hoo₂, ← h₁] at h₂
        exact absurd h₂ (hlone o₂)
      · rw [hoo₂, Function.update_self] at h₂
        rw [Function.update_of_ne hoo₁, ← h₂] at h₁
        exact absurd h₁ (hlone o₁)
      · rw [Function.update_of_ne hoo₁] at h₁
        rw [Function.update_of_ne hoo₂] at h₂
        exact h.injective o₁ o₂ o₁' h₁ h₂
    held := by
      intro caller
      rw [hs'.2.2, h.held]
      cases hheld : t.store.held.lookup caller with
      | none => rfl
      | some o₁ =>
        obtain ⟨o₁', ho₁⟩ := Option.isSome_iff_exists.mp (h.holds caller o₁ hheld)
        rw [Option.bind_some, Option.bind_some, hkeep ho₁, ho₁]
    holds := by
      intro caller o₁ hheld
      obtain ⟨o₁', ho₁⟩ := Option.isSome_iff_exists.mp (h.holds caller o₁ hheld)
      rw [hkeep ho₁]
      rfl
    listed := by
      intro k o₁ hk
      simp only [GoMap.lookup_insert_ite] at hk
      rw [hmap]
      split_ifs at hk with heq
      · cases hk
        exact ⟨o', Function.update_self .., if_pos heq⟩
      · obtain ⟨o₁', ho₁, hk'⟩ := h.listed k o₁ hk
        exact ⟨o₁', hkeep ho₁, by rw [if_neg heq]; exact hk'⟩
    dropped := by
      intro k o₁' hnone hsome
      simp only [GoMap.lookup_insert_ite] at hnone
      rw [hmap] at hsome
      split_ifs at hnone hsome with heq
      obtain ⟨hgone, hfree, l', hl', hrate, hburst, hidle⟩ := h.dropped k o₁' hnone hsome
      refine ⟨Finset.mem_erase.mpr ⟨heq, hgone⟩, fun o₁ ho₁ => ?_, l', hheap o₁' l' hl',
        by rw [hs'.1, hrate], by rw [hs'.2.1, hburst], hidle⟩
      by_cases hoo : o₁ = t.store.heap.length
      · rw [hoo, Function.update_self] at ho₁
        cases ho₁
        exact heq (hown k hsome)
      · rw [Function.update_of_ne hoo] at ho₁
        exact hfree o₁ ho₁
    own := by
      intro k₁ k₂ o₁' h₁ h₂
      rw [hmap] at h₁ h₂
      split_ifs at h₁ h₂ with hk₁ hk₂ hk₂
      · rw [hk₁, hk₂]
      · cases h₁
        exact hk₁.trans (hown k₂ h₂).symm
      · cases h₂
        exact (hown k₁ h₁).trans hk₂.symm
      · exact h.own k₁ k₂ o₁' h₁ h₂
    gone := by
      intro k hk
      obtain ⟨hne, hgone⟩ := Finset.mem_erase.mp hk
      obtain ⟨hnone, hsome⟩ := h.gone k hgone
      simp only [GoMap.lookup_insert_ite, hmap, if_neg hne]
      exact ⟨hnone, hsome⟩
    fresh := by
      intro o₁ ho₁
      rw [List.length_append, List.length_singleton]
      by_cases hoo : o₁ = t.store.heap.length
      · omega
      · have := h.fresh o₁ ((hfresh o₁ hoo).mp ho₁)
        omega
    made := by
      intro l hl
      rcases List.mem_append.mp hl with hl | hl
      · exact h.made l hl
      · rw [List.mem_singleton.mp hl]
        exact ⟨rfl, rfl⟩ }

/-- What `getLimiter` does to the two stores, before the caller takes the result. -/
theorem getLimiter (h : Sim c t s twin) (key : GoString) :
    ∃ twin', Sim c ⟨(t.store.getLimiter key c).1,
        if t.store.limiters.lookup key = none then t.gone.erase key else t.gone,
        if t.store.limiters.lookup key = none ∧ key ∈ t.gone then
          insert t.store.heap.length t.fresh else t.fresh⟩ (s.getLimiter key c).1 twin' ∧
      twin' (t.store.getLimiter key c).2 = some (s.getLimiter key c).2 := by
  unfold Store.getLimiter
  cases hkey : t.store.limiters.lookup key with
  | some o =>
    obtain ⟨o', ho', hkey'⟩ := h.listed key o hkey
    simp only [hkey', reduceCtorEq, if_false, false_and]
    exact ⟨twin, h, ho'⟩
  | none =>
    simp only [if_true, true_and]
    cases hkey' : s.limiters.lookup key with
    | some o' =>
      -- the second run still has the limiter the first run dropped
      obtain ⟨hgone, hfree, l', hl', hrate, hburst, hidle⟩ := h.dropped key o' hkey hkey'
      have hrate' : l'.rate = t.store.rate := hrate.trans h.rate.symm
      have hburst' : l'.burst = t.store.burst := hburst.trans h.burst.symm
      refine ⟨_, h.create s o' ⟨rfl, rfl, rfl⟩ (fun _ _ hl => hl)
        (fun k => ?_) hfree (fun k hk => h.own k key o' hk hkey') ⟨l', hl', ?_⟩,
        Function.update_self ..⟩
      · split_ifs with hk
        · rw [hk, hkey']
        · rfl
      · exact ⟨hrate'.symm, hburst'.symm, fun u hu => (Limiter.pending_mono hidle.pending hu).symm,
          fun hnot => absurd hgone hnot,
          fun _ => ⟨Limiter.newLimiter_idle (hrate' ▸ hidle.rate) (hrate' ▸ hidle.finite) _ _, hidle⟩⟩
    | none =>
      have hfresh : key ∉ t.gone := fun hgone => by
        have hsome := (h.gone key hgone).2
        rw [hkey'] at hsome
        cases hsome
      refine ⟨_, h.create { s with
          heap := s.heap ++ [Limiter.newLimiter s.rate s.burst c]
          limiters := s.limiters.insert key s.heap.length } s.heap.length
        ⟨rfl, rfl, rfl⟩ (fun i l hl => ?_) (fun k => GoMap.lookup_insert_ite ..)
        (fun o ho => absurd (h.twin_lt ho).2 (lt_irrefl _))
        (fun k hk => absurd (h.lt_heap hk) (lt_irrefl _)) ⟨_, List.getElem?_concat_length, ?_⟩,
        Function.update_self ..⟩
      · rw [List.getElem?_append_left (List.getElem?_eq_some_iff.mp hl).1]
        exact hl
      · rw [h.rate, h.burst]
        exact ⟨rfl, rfl, fun _ _ => rfl, fun _ => ⟨rfl, rfl⟩, fun hgone => absurd hgone hfresh⟩

theorem step (h : Sim c t s twin) {e : Step F64} (hcleanup : e.isCleanup = false)
    (htime : e.InTime c) (hsafe : t.Safe e) :
    ∃ twin', Sim (e.advance c) (t.step e).1 (s.step e).1 twin' ∧
      (t.step e).2 = (s.step e).2 := by
  cases e with
  | getLimiter caller key now =>
    obtain ⟨hle, hadvance⟩ := Step.advance_of_inTime now rfl hcleanup htime
    rw [hadvance]
    obtain ⟨twin', hsim, ho⟩ := (h.mono hle).getLimiter key
    have hheld := hsim.hold caller ho
    refine ⟨twin', ?_, ?_⟩
    · by_cases hkey : t.store.limiters.lookup key = none
      · simp only [hkey, if_true, true_and] at hheld
        simp only [Tracked.step, Store.step, hkey, if_true]
        exact hheld
      · simp only [hkey, if_false, false_and] at hheld
        simp only [Tracked.step, Store.step, hkey, if_false]
        exact hheld
    · simp only [Tracked.step, Store.step]
      split_ifs <;> rfl
  | allow caller endpoint now =>
    obtain ⟨hle, hadvance⟩ := Step.advance_of_inTime now rfl hcleanup htime
    rw [hadvance]
    have hlate := h.mono hle
    have hkeeps : ∀ l : Limiter F64, (l.allowWithEndpoint endpoint now).1.rate = l.rate ∧
        (l.allowWithEndpoint endpoint now).1.burst = l.burst := fun l =>
      ⟨(l.allowWithEndpoint_keeps endpoint now).1, (l.allowWithEndpoint_keeps endpoint now).2.1⟩
    rcases hlate.limiterOf caller with ⟨hnone, hnone'⟩ | ⟨o, l, l', ho, hl, hl', htwin⟩
    · cases hheld : t.store.held.lookup caller with
      | none =>
        have hcall := hlate.call caller (fun l => (l.allowWithEndpoint endpoint now).1) t.fresh
          (Finset.Subset.refl _) (fun _ _ => Iff.rfl)
          (fun o ho => by rw [hheld] at ho; cases ho) hkeeps
        refine ⟨twin, ?_, ?_⟩
        · simp only [Tracked.step, Store.step, hheld]
          exact hcall
        · simp only [Tracked.step, Store.step, hheld, hnone, hnone']
      | some o =>
        -- what a caller holds was created
        obtain ⟨o', ho'⟩ := Option.isSome_iff_exists.mp (h.holds caller o hheld)
        obtain ⟨l, -, hl, -⟩ := h.paired o o' ho'
        rw [Store.limiterOf, hheld, Option.bind_some, hl] at hnone
        cases hnone
    · have hcall := hlate.call caller (fun l => (l.allowWithEndpoint endpoint now).1)
        (t.fresh.erase o) (Finset.erase_subset ..)
        (fun o₁ ho₁ => by
          have hne : o₁ ≠ o := fun heq => ho₁ (heq ▸ ho)
          rw [Finset.mem_erase]
          exact and_iff_right hne)
        (fun o₁ ho₁ l l' hpair => by
          rw [ho] at ho₁
          cases ho₁
          have hnext := (hpair.allow le_rfl endpoint).2
          have hnot : (o ∈ t.fresh.erase o) = False := by simp
          rw [hnot]
          exact hnext) hkeeps
      have hlimits : (l.getEffectiveConfig now).2 = (l'.getEffectiveConfig now).2 := by
        rw [Limiter.getEffectiveConfig_snd, Limiter.getEffectiveConfig_snd,
          htwin.limits le_rfl]
      refine ⟨twin, ?_, ?_⟩
      · simp only [Tracked.step, Store.step, ho]
        exact hcall
      · simp only [Tracked.step, Store.step, ho, hl, hl', Option.map_some,
          (htwin.allow le_rfl endpoint).1, hlimits]
  | setCustomConfig caller rate burst duration now =>
    obtain ⟨hle, hadvance⟩ := Step.advance_of_inTime now rfl hcleanup htime
    rw [hadvance]
    exact ⟨twin, (h.mono hle).call caller _ t.fresh (Finset.Subset.refl _)
      (fun _ _ => Iff.rfl)
      (fun o ho l l' hpair => hpair.setCustomConfig (hsafe o ho) rate burst duration now)
      (fun _ => ⟨rfl, rfl⟩), rfl⟩
  | clearCustomConfig caller =>
    have hadvance : Step.advance c (.clearCustomConfig caller : Step F64) = c := max_self c
    rw [hadvance]
    exact ⟨twin, h.call caller _ t.fresh (Finset.Subset.refl _) (fun _ _ => Iff.rfl)
      (fun _ _ l l' hpair => hpair.clearCustomConfig) (fun _ => ⟨rfl, rfl⟩), rfl⟩
  | reset key =>
    have hadvance : Step.advance c (.reset key : Step F64) = c := max_self c
    rw [hadvance]
    exact ⟨twin, h.reset key, rfl⟩
  | resetAll =>
    have hadvance : Step.advance c (.resetAll : Step F64) = c := max_self c
    rw [hadvance]
    exact ⟨twin, h.resetAll, rfl⟩
  | cleanup key now => cases hcleanup

theorem cleanup (h : Sim c t s twin) {key : GoString} {now : Time}
    (hsafe : t.Safe (.cleanup key now)) :
    ∃ twin', Sim (Step.advance c (.cleanup key now : Step F64)) (t.step (.cleanup key now)).1 s twin' ∧
      (t.step (.cleanup key now)).2 = none := by
  have hle : c ≤ Step.advance c (.cleanup key now : Step F64) := le_max_left _ _
  have hnow : now ≤ Step.advance c (.cleanup key now : Step F64) := le_max_right _ _
  cases hvictim : t.store.victim now key with
  | none =>
    refine ⟨twin, ?_, ?_⟩
    · simp only [Tracked.step, Store.step, Store.expire_eq, hvictim]
      exact h.mono hle
    · simp only [Tracked.step, Store.step, hvictim]
      rfl
  | some v =>
    obtain ⟨o, l⟩ := v
    obtain ⟨hkey, hl⟩ := Store.of_victim hvictim
    obtain ⟨hidle, hfree⟩ := hsafe o l hvictim
    refine ⟨Function.update twin o none, ?_, ?_⟩
    · simp only [Tracked.step, Store.step, Store.expire_eq, hvictim]
      exact (h.mono hle).drop hkey hl (hidle.mono hnow) hfree
    · simp only [Tracked.step, Store.step, hvictim]
      rfl

end Sim

theorem Sim.start (c : Time) (rate : F64) (burst : ℤ) :
    Sim c (Tracked.start rate burst) (Store.newStore rate burst) fun _ => none where
  rate := rfl
  burst := rfl
  paired := fun _ _ h => by cases h
  injective := fun _ _ _ h => by cases h
  held := fun _ => rfl
  holds := fun _ _ h => by simp [Tracked.start, Store.newStore] at h
  listed := fun _ _ h => by simp [Tracked.start, Store.newStore] at h
  dropped := fun _ _ _ h => by simp [Store.newStore] at h
  own := fun _ _ _ h => by simp [Store.newStore] at h
  gone := fun key h => absurd h (Finset.notMem_empty key)
  fresh := fun o h => absurd h (Finset.notMem_empty o)
  made := fun l h => absurd h List.not_mem_nil

/-- The run lemma: step by step, leaving out the cleanups of one run. -/
theorem Sim.run {c : Time} {t : Tracked} {s : Store F64} {twin : ℕ → Option ℕ}
    (h : Sim c t s twin) {es : List (Step F64)} (hclock : Clocked c es)
    (hsafe : Tracked.machine.Along Tracked.Safe t es) :
    (Tracked.machine.run t es).2.reduceOption =
      (Store.machine.run s (es.filter fun e => !e.isCleanup)).2.reduceOption := by
  induction es generalizing c t s twin with
  | nil => rfl
  | cons e es ih =>
    obtain ⟨htime, hclock⟩ := hclock
    obtain ⟨hhere, hsafe⟩ := hsafe
    cases hcleanup : e.isCleanup with
    | false =>
      obtain ⟨twin', hsim, hanswer⟩ := h.step hcleanup htime hhere
      have hrest := ih hsim hclock hsafe
      rw [List.filter_cons_of_pos (by rw [hcleanup]; rfl), Machine.run_cons, Machine.run_cons]
      change ((t.step e).2 :: _).reduceOption = ((s.step e).2 :: _).reduceOption
      rw [hanswer]
      cases (s.step e).2 with
      | none =>
        rw [List.reduceOption_cons_of_none, List.reduceOption_cons_of_none]
        exact hrest
      | some v =>
        rw [List.reduceOption_cons_of_some, List.reduceOption_cons_of_some]
        exact congrArg (v :: ·) hrest
    | true =>
      obtain ⟨key, now, rfl⟩ : ∃ key now, e = .cleanup key now := by
        cases e with
        | cleanup key now => exact ⟨key, now, rfl⟩
        | _ => cases hcleanup
      obtain ⟨twin', hsim, hanswer⟩ := h.cleanup hhere
      have hrest := ih hsim hclock hsafe
      rw [List.filter_cons_of_neg (by rw [hcleanup]; decide), Machine.run_cons]
      change ((t.step _).2 :: _).reduceOption = _
      rw [hanswer, List.reduceOption_cons_of_none]
      exact hrest

/-- Where every limiter a cleanup drops is idle and out of reach, and no adjustment
meets the stand-in of a dropped one, no request can tell that cleanups happen. -/
theorem cleanup_unobservable (rate : F64) (burst : ℤ) (created : Time) (es : List (Step F64))
    (hclock : Clocked created es)
    (hsafe : Tracked.machine.Along Tracked.Safe (Tracked.start rate burst) es) :
    verdicts rate burst es = verdicts rate burst (es.filter fun e => !e.isCleanup) := by
  have h := (Sim.start created rate burst).run hclock hsafe
  unfold verdicts
  rw [← h]
  have hrun := Tracked.run_store (Tracked.start rate burst) es
  change (Store.machine.run (Tracked.start rate burst).store es).2.reduceOption = _
  rw [hrun]

/-- One request, a drop when the limiter is full again, and one more request. -/
def quietClient {F : Type} : List (Step F) :=
  [.getLimiter 0 [] 0, .allow 0 [] 0, .cleanup [] 400000000000,
    .getLimiter 1 [] 400000000000, .allow 1 [] 400000000000]

theorem cleanup_unobservable_quiet :
    Clocked 0 (quietClient (F := F64)) ∧
    Tracked.machine.Along Tracked.Safe (Tracked.start (.ofRat (1 / 10)) 1) quietClient ∧
    verdicts (F := F64) (.ofRat (1 / 10)) 1 quietClient =
      [⟨true, .ofRat (1 / 10), 1⟩, ⟨true, .ofRat (1 / 10), 1⟩] ∧
    verdicts (F := F64) (.ofRat (1 / 10)) 1 quietClient =
      verdicts (.ofRat (1 / 10)) 1 (quietClient.filter fun e => !e.isCleanup) := by
  have hclock : Clocked 0 (quietClient (F := F64)) := by
    simp [quietClient, Clocked, Step.InTime, Step.reading, Step.advance, Step.isCleanup]
  have hsafe : Tracked.machine.Along Tracked.Safe (Tracked.start (.ofRat (1 / 10)) 1) quietClient := by
    refine ⟨trivial, trivial, fun limiter l hvictim => ?_, trivial, trivial, trivial⟩
    obtain ⟨-, hl⟩ := Store.of_victim hvictim
    have hidle : ∀ l ∈ (Tracked.machine.run (Tracked.start (.ofRat (1 / 10)) 1)
        [.getLimiter 0 [] 0, .allow 0 [] 0]).1.store.heap, l.Idle 400000000000 := by
      decide +kernel
    have hheld : (Tracked.machine.run (Tracked.start (.ofRat (1 / 10)) 1)
        [.getLimiter 0 [] 0, .allow 0 [] 0]).1.store.held = ∅ := by decide +kernel
    refine ⟨hidle l (List.mem_of_getElem? hl), fun caller hcaller => ?_⟩
    change ((Tracked.machine.run (Tracked.start (.ofRat (1 / 10)) 1)
        [.getLimiter 0 [] 0, .allow 0 [] 0]).1.store.held).lookup caller = _ at hcaller
    rw [hheld, Finmap.lookup_empty] at hcaller
    cases hcaller
  exact ⟨hclock, hsafe, by decide +kernel,
    cleanup_unobservable (.ofRat (1 / 10)) 1 0 quietClient hclock hsafe⟩

/-- A client raised to ten requests for an hour, and left alone for seven minutes. -/
def raisedClient : List (Step F64) :=
  [.getLimiter 0 [] 0, .setCustomConfig 0 (.ofRat 100) 10 3600000000000 0, .cleanup [] 400000000000,
    .getLimiter 1 [] 400000000000, .allow 1 [] 400000000000]

/-- The cleanup takes the custom limit with it. -/
theorem cleanup_forgets_limit :
    ¬ ∀ (rate : F64) (burst : ℤ) (created : Time) (es : List (Step F64)), Clocked created es →
      verdicts rate burst es = verdicts rate burst (es.filter fun e => !e.isCleanup) := by
  intro h
  have hclock : Clocked 0 raisedClient := by
    simp [raisedClient, Clocked, Step.InTime, Step.reading, Step.advance, Step.isCleanup]
  have hsame := h 1 1 0 raisedClient hclock
  have hdiffer : verdicts 1 1 raisedClient ≠
      verdicts 1 1 (raisedClient.filter fun e => !e.isCleanup) := by decide +kernel
  exact hdiffer hsame

/-! ### What one client is granted -/

namespace Store

/-- The limiter that `key` has now. -/
def current (s : Store ℚ) (key : GoString) : Option (Limiter ℚ) :=
  (s.limiters.lookup key).bind fun limiter => s.heap[limiter]?

/-- What a client may draw on at `t`; the next limiter it gets is full. -/
def level (s : Store ℚ) (key : GoString) (t : ℚ) : ℚ :=
  (s.current key).elim (s.burst : ℚ) fun l => l.bucket.level s.rate s.burst t

section

variable {s s' : Store ℚ} {key : GoString}

theorem current_of_lookup {o : ℕ} (ho : s.limiters.lookup key = some o) :
    s.current key = s.heap[o]? := by
  rw [current, ho, Option.bind_some]

theorem current_of_notMem (h : s.limiters.lookup key = none) : s.current key = none := by
  rw [current, h, Option.bind_none]

theorem current_congr (hlookup : s'.limiters.lookup key = s.limiters.lookup key)
    (hheap : ∀ o, s.limiters.lookup key = some o → s'.heap[o]? = s.heap[o]?) :
    s'.current key = s.current key := by
  cases hkey : s.limiters.lookup key with
  | none => rw [current_of_notMem hkey, current_of_notMem (hlookup.trans hkey)]
  | some o => rw [current_of_lookup hkey, current_of_lookup (hlookup.trans hkey), hheap o hkey]

theorem level_of_none (h : s.current key = none) : s.level key = fun _ => (s.burst : ℚ) := by
  funext t
  rw [level, h, Option.elim_none]

theorem level_of_some {l : Limiter ℚ} (h : s.current key = some l) :
    s.level key = l.bucket.level s.rate s.burst := by
  funext t
  rw [level, h, Option.elim_some]

theorem level_congr (hrate : s'.rate = s.rate) (hburst : s'.burst = s.burst)
    (h : s'.current key = s.current key) : s'.level key = s.level key := by
  funext t
  rw [level, level, hrate, hburst, h]

end

theorem threshold_lt_of_victim {s : Store ℚ} {now : Time} {key : GoString} {limiter : ℕ}
    {l : Limiter ℚ} (h : s.victim now key = some (limiter, l)) : threshold < now - l.lastUpdate := by
  obtain ⟨hkey, hl⟩ := of_victim h
  simp only [victim, hkey, hl, Option.bind_some] at h
  split_ifs at h with hold
  exact hold

end Store

/-- Without a custom limit, and in use until `c` at the latest. -/
structure Limiter.AsMade (rate : ℚ) (burst : ℤ) (c : Time) (l : Limiter ℚ) : Prop where
  rate : l.rate = rate
  burst : l.burst = burst
  customConfig : l.customConfig = none
  tokens : 0 ≤ l.tokens
  lastUpdate : l.lastUpdate ≤ c

theorem Limiter.AsMade.allow {rate : ℚ} {burst : ℤ} {c now : Time} {l : Limiter ℚ}
    (h : l.AsMade rate burst c) (hrate : 0 ≤ rate) (hburst : 0 ≤ burst) (hnow : c ≤ now)
    (endpoint : GoString) :
    (l.allowWithEndpoint endpoint now).1.AsMade rate burst now ∧
      (l.allowWithEndpoint endpoint now).1.bucket =
        (l.bucket.take rate (burst : ℚ) (seconds now)).1 ∧
      (l.allowWithEndpoint endpoint now).2 =
        (l.bucket.take rate (burst : ℚ) (seconds now)).2 := by
  have htake := l.allowWithEndpoint_take endpoint now
  rw [limits_of_pending l now (l.pending_of_none now h.customConfig), h.rate, h.burst] at htake
  have hbucket : (l.allowWithEndpoint endpoint now).1.bucket =
      (l.bucket.take rate (burst : ℚ) (seconds now)).1 := congrArg Prod.fst htake
  have hgrant : (l.allowWithEndpoint endpoint now).2 =
      (l.bucket.take rate (burst : ℚ) (seconds now)).2 := congrArg Prod.snd htake
  obtain ⟨hkeepsRate, hkeepsBurst, -⟩ := l.allowWithEndpoint_keeps endpoint now
  have hbounds := TokenBucket.take_bounds (s := l.bucket) (b := (burst : ℚ)) hrate
    (by exact_mod_cast hburst) h.tokens (seconds_le.mpr (h.lastUpdate.trans hnow))
  have hlast := TokenBucket.take_last (r := rate) (b := (burst : ℚ)) (s := l.bucket) (seconds now)
  rw [← hbucket] at hbounds hlast
  exact ⟨⟨hkeepsRate.trans h.rate, hkeepsBurst.trans h.burst,
    customConfig_allowWithEndpoint h.customConfig endpoint now, hbounds.1,
    seconds_le.mp hlast.le⟩, hbucket, hgrant⟩

/-- A store, the client each caller came for, and the requests that were granted. -/
structure Tally where
  store : Store ℚ
  asked : ℕ → Option GoString
  granted : List (GoString × Time)

namespace Tally

def new (rate : ℚ) (burst : ℤ) : Tally := ⟨Store.newStore rate burst, fun _ => none, []⟩

def step (t : Tally) (e : Step ℚ) : Tally × Option (Verdict ℚ) :=
  let r := t.store.step e
  match e with
  | .getLimiter caller key _ => (⟨r.1, Function.update t.asked caller (some key), t.granted⟩, r.2)
  | .allow caller _ now =>
    let granted :=
      if r.2.any Verdict.allowed then (t.asked caller).toList.map fun key => (key, now) else []
    (⟨r.1, t.asked, t.granted ++ granted⟩, r.2)
  | _ => (⟨r.1, t.asked, t.granted⟩, r.2)

def machine : Machine Tally (Step ℚ) (Option (Verdict ℚ)) := ⟨step⟩

/-- The requests granted to a client in the `T` seconds from `start` on, both ends included. -/
def grantedWithin (t : Tally) (key : GoString) (start T : ℚ) : ℕ :=
  t.granted.countP fun g => g.1 = key ∧ start ≤ seconds g.2 ∧ seconds g.2 ≤ start + T

/-- The client's limits are not adjusted and its limiter is not reset. A cleanup that drops it
finds no request between its `GetLimiter` and its `Allow`. -/
def LeftAlone (key : GoString) (t : Tally) : Step ℚ → Prop
  | .setCustomConfig caller _ _ _ _ => t.asked caller ≠ some key
  | .reset other => other ≠ key
  | .resetAll => False
  | .cleanup other now => other = key → (t.store.victim now key).isSome →
      ∀ caller ∈ t.store.held, t.asked caller ≠ some key
  | _ => True

/-- Whose limiters there are (`owner`), and what is known of the client's. -/
structure Fed (rate : ℚ) (burst : ℤ) (key : GoString) (start T : ℚ) (c : Time)
    (owner : ℕ → GoString) (t : Tally) : Prop where
  atRate : t.store.rate = rate
  atBurst : t.store.burst = burst
  listed : ∀ k o, t.store.limiters.lookup k = some o → owner o = k ∧ o < t.store.heap.length
  held : ∀ caller o, t.store.held.lookup caller = some o →
    t.asked caller = some (owner o) ∧ o < t.store.heap.length ∧
      (owner o = key → t.store.limiters.lookup key = some o)
  asMade : ∀ o l, t.store.limiters.lookup key = some o → t.store.heap[o]? = some l →
    l.AsMade rate burst c
  covered : TokenBucket.Covered rate (burst : ℚ) start T (seconds c) (t.grantedWithin key start T)
    (t.store.level key)

variable {rate : ℚ} {burst : ℤ} {key : GoString} {start T : ℚ} {c : Time} {owner : ℕ → GoString}
  {t : Tally}

theorem fed_new (hrate : 0 ≤ rate) (hburst : 0 ≤ burst) (hT : 0 ≤ T) (key : GoString) (start : ℚ)
    (c : Time) (owner : ℕ → GoString) : Fed rate burst key start T c owner (new rate burst) where
  atRate := rfl
  atBurst := rfl
  listed _ _ h := by cases h
  held _ _ h := by cases h
  asMade _ _ h := by cases h
  covered := TokenBucket.covered_start hrate (by exact_mod_cast hburst) hT start (seconds c)

theorem Fed.mono (h : Fed rate burst key start T c owner t) {c' : Time} (hc : c ≤ c') :
    Fed rate burst key start T c' owner t :=
  { h with
    asMade := fun o l ho hl =>
      { h.asMade o l ho hl with lastUpdate := (h.asMade o l ho hl).lastUpdate.trans hc }
    covered := h.covered.mono (seconds_le.mpr hc) fun _ _ => le_rfl }

/-- A call on a limiter that is another client's. -/
theorem Fed.callOther (h : Fed rate burst key start T c owner t) {caller o : ℕ}
    (ho : t.store.held.lookup caller = some o) (hne : owner o ≠ key) (f : Limiter ℚ → Limiter ℚ)
    {granted : List (GoString × Time)} (hgranted : ∀ g ∈ granted, g.1 ≠ key) :
    Fed rate burst key start T c owner ⟨t.store.call caller f, t.asked, t.granted ++ granted⟩ := by
  have hcall : t.store.call caller f =
      { t.store with heap := t.store.heap.modify o f, held := t.store.held.erase caller } := by
    rw [Store.call, ho]
  have hheap (o' : ℕ) (ho' : t.store.limiters.lookup key = some o') :
      (t.store.heap.modify o f)[o']? = t.store.heap[o']? := by
    refine Store.getElem?_modify_ne _ f fun heq => hne ?_
    rw [heq]
    exact (h.listed key o' ho').1
  have hlevel : (t.store.call caller f).level key = t.store.level key := by
    rw [hcall]
    exact Store.level_congr rfl rfl (Store.current_congr rfl hheap)
  have hcount : grantedWithin ⟨t.store.call caller f, t.asked, t.granted ++ granted⟩ key start T =
      t.grantedWithin key start T := by
    show (t.granted ++ granted).countP _ = _
    rw [List.countP_append]
    refine Nat.add_eq_left.mpr (List.countP_eq_zero.mpr fun g hg => ?_)
    simp [hgranted g hg]
  rw [hcall] at hlevel hcount ⊢
  refine ⟨h.atRate, h.atBurst, fun k o' ho' => ?_, fun caller' o' ho' => ?_, fun o' l ho' hl => ?_, ?_⟩
  · show _ ∧ o' < (t.store.heap.modify o f).length
    rw [List.length_modify]
    exact h.listed k o' ho'
  · show _ ∧ o' < (t.store.heap.modify o f).length ∧ _
    have hbefore : t.store.held.lookup caller' = some o' := by
      rw [GoMap.lookup_erase_ite] at ho'
      split_ifs at ho'
      exact ho'
    rw [List.length_modify]
    exact h.held caller' o' hbefore
  · have hsame := hheap o' ho'
    exact h.asMade o' l ho' (hsame ▸ hl)
  · rw [hlevel, hcount]
    exact h.covered

/-- A call on the client's own limiter. -/
theorem Fed.callOwn (h : Fed rate burst key start T c owner t) {caller o : ℕ} {l : Limiter ℚ}
    (ho : t.store.held.lookup caller = some o) (hkey : owner o = key)
    (hl : t.store.heap[o]? = some l) {f : Limiter ℚ → Limiter ℚ} (hf : (f l).AsMade rate burst c)
    {granted : List (GoString × Time)}
    (hcovered : TokenBucket.Covered rate (burst : ℚ) start T (seconds c)
      (grantedWithin ⟨t.store, t.asked, t.granted ++ granted⟩ key start T)
      ((f l).bucket.level rate burst)) :
    Fed rate burst key start T c owner ⟨t.store.call caller f, t.asked, t.granted ++ granted⟩ := by
  have hcall : t.store.call caller f =
      { t.store with heap := t.store.heap.modify o f, held := t.store.held.erase caller } := by
    rw [Store.call, ho]
  have hlisted := (h.held caller o ho).2.2 hkey
  have hheap : (t.store.heap.modify o f)[o]? = some (f l) := Store.getElem?_modify_self f hl
  have hlevel : (t.store.call caller f).level key = (f l).bucket.level rate burst := by
    have hcurrent : (t.store.call caller f).current key = some (f l) := by
      rw [hcall]
      exact Eq.trans (Store.current_of_lookup hlisted) hheap
    rw [Store.level_of_some hcurrent, hcall, ← h.atRate, ← h.atBurst]
  rw [hcall] at hlevel ⊢
  refine ⟨h.atRate, h.atBurst, fun k o' ho' => ?_, fun caller' o' ho' => ?_, fun o' l' ho' hl' => ?_, ?_⟩
  · show _ ∧ o' < (t.store.heap.modify o f).length
    rw [List.length_modify]
    exact h.listed k o' ho'
  · show _ ∧ o' < (t.store.heap.modify o f).length ∧ _
    have hbefore : t.store.held.lookup caller' = some o' := by
      rw [GoMap.lookup_erase_ite] at ho'
      split_ifs at ho'
      exact ho'
    rw [List.length_modify]
    exact h.held caller' o' hbefore
  · have hsame : o = o' := Option.some.inj (hlisted.symm.trans ho')
    rw [← hsame] at hl'
    have hnow : f l = l' := Option.some.inj (hheap.symm.trans hl')
    rw [← hnow]
    exact hf
  · rw [hlevel]
    exact hcovered

theorem Fed.getLimiter (h : Fed rate burst key start T c owner t) (hburst : 0 ≤ burst)
    (caller : ℕ) (k : GoString) :
    ∃ owner', Fed rate burst key start T c owner' (t.step (.getLimiter caller k c)).1 := by
  cases hk : t.store.limiters.lookup k with
  | some o =>
    -- the client has one
    obtain ⟨howner, hlt⟩ := h.listed k o hk
    have hstep : (t.step (.getLimiter caller k c)).1 =
        ⟨{ t.store with held := t.store.held.insert caller o },
          Function.update t.asked caller (some k), t.granted⟩ := by
      simp only [step, Store.step, Store.getLimiter, hk]
    rw [hstep]
    refine ⟨owner, h.atRate, h.atBurst, h.listed, fun caller' o' ho' => ?_, h.asMade, h.covered⟩
    rw [GoMap.lookup_insert_ite] at ho'
    split_ifs at ho' with hcaller
    · cases ho'
      refine ⟨?_, hlt, fun hkey => ?_⟩
      · show Function.update t.asked caller (some k) caller' = _
        rw [hcaller, Function.update_self, howner]
      · rw [← hkey, howner]
        exact hk
    · have hold := h.held caller' o' ho'
      refine ⟨?_, hold.2⟩
      show Function.update t.asked caller (some k) caller' = _
      rw [Function.update_of_ne hcaller]
      exact hold.1
  | none =>
    have hstep : (t.step (.getLimiter caller k c)).1 =
        ⟨{ t.store with
            heap := t.store.heap ++ [Limiter.newLimiter t.store.rate t.store.burst c]
            limiters := t.store.limiters.insert k t.store.heap.length
            held := t.store.held.insert caller t.store.heap.length },
          Function.update t.asked caller (some k), t.granted⟩ := by
      simp only [step, Store.step, Store.getLimiter, hk]
    have hnew : (Limiter.newLimiter t.store.rate t.store.burst c).AsMade rate burst c :=
      ⟨h.atRate, h.atBurst, rfl, by show (0 : ℚ) ≤ t.store.burst; rw [h.atBurst]; exact_mod_cast hburst,
        le_rfl⟩
    rw [hstep]
    refine ⟨Function.update owner t.store.heap.length k, h.atRate, h.atBurst, fun k' o' ho' => ?_,
      fun caller' o' ho' => ?_, fun o' l ho' hl => ?_, ?_⟩
    · show _ ∧ o' < (t.store.heap ++ [_]).length
      rw [List.length_append, List.length_singleton]
      rw [GoMap.lookup_insert_ite] at ho'
      split_ifs at ho' with hsame
      · cases ho'
        rw [Function.update_self]
        exact ⟨hsame.symm, by omega⟩
      · have hold := h.listed k' o' ho'
        rw [Function.update_of_ne (by omega)]
        exact ⟨hold.1, by omega⟩
    · show Function.update t.asked caller (some k) caller' = _ ∧ o' < (t.store.heap ++ [_]).length ∧
        (_ → (t.store.limiters.insert k t.store.heap.length).lookup key = _)
      rw [List.length_append, List.length_singleton]
      rw [GoMap.lookup_insert_ite] at ho' ⊢
      split_ifs at ho' with hcaller
      · cases ho'
        rw [hcaller, Function.update_self, Function.update_self]
        exact ⟨rfl, by omega, fun hkey => if_pos hkey.symm⟩
      · have hold := h.held caller' o' ho'
        rw [Function.update_of_ne hcaller, Function.update_of_ne (by omega)]
        refine ⟨hold.1, by omega, fun hkey => ?_⟩
        have hlisted := hold.2.2 hkey
        rw [if_neg fun heq => ?_]
        · exact hlisted
        · rw [heq, hk] at hlisted
          cases hlisted
    · rw [GoMap.lookup_insert_ite] at ho'
      split_ifs at ho' with hsame
      · cases ho'
        rw [List.getElem?_concat_length] at hl
        cases hl
        exact hnew
      · rw [List.getElem?_append_left (h.listed key o' ho').2] at hl
        exact h.asMade o' l ho' hl
    · refine h.covered.mono le_rfl fun τ _ => ?_
      by_cases hsame : key = k
      · -- a full bucket takes the place of one still to come
        have hcurrent : Store.current { t.store with
              heap := t.store.heap ++ [Limiter.newLimiter t.store.rate t.store.burst c]
              limiters := t.store.limiters.insert k t.store.heap.length
              held := t.store.held.insert caller t.store.heap.length } key =
            some (Limiter.newLimiter t.store.rate t.store.burst c) := by
          rw [hsame, Store.current_of_lookup (Finmap.lookup_insert _)]
          exact List.getElem?_concat_length
        rw [Store.level_of_some hcurrent, Store.level_of_none (Store.current_of_notMem (hsame ▸ hk))]
        exact TokenBucket.level_le τ
      · have hlookup : (t.store.limiters.insert k t.store.heap.length).lookup key =
            t.store.limiters.lookup key := by
          rw [GoMap.lookup_insert_ite, if_neg hsame]
        refine le_of_eq (congrFun ?_ τ)
        exact Store.level_congr rfl rfl (Store.current_congr hlookup fun o' hkey =>
          List.getElem?_append_left (h.listed key o' hkey).2)

theorem Fed.allow (h : Fed rate burst key start T c owner t) (hrate : 0 ≤ rate)
    (hburst : 0 ≤ burst) (caller : ℕ) (endpoint : GoString) {now : Time} (hnow : c ≤ now) :
    Fed rate burst key start T now owner (t.step (.allow caller endpoint now)).1 := by
  cases hheld : t.store.held.lookup caller with
  | none =>
    have hstep : (t.step (.allow caller endpoint now)).1 = t := by
      simp [step, Store.step, Store.call, Store.limiterOf, hheld]
    rw [hstep]
    exact h.mono hnow
  | some o =>
    obtain ⟨hasked, hlt, hlisted⟩ := h.held caller o hheld
    have hl : t.store.heap[o]? = some t.store.heap[o] := List.getElem?_eq_getElem hlt
    generalize t.store.heap[o] = l at hl
    have hstep : (t.step (.allow caller endpoint now)).1 =
        ⟨t.store.call caller fun l => (l.allowWithEndpoint endpoint now).1, t.asked,
          t.granted ++ if (l.allowWithEndpoint endpoint now).2 then [(owner o, now)] else []⟩ := by
      simp [step, Store.step, Store.limiterOf, hheld, hl, hasked]
    rw [hstep]
    by_cases hkey : owner o = key
    · obtain ⟨hmade, hbucket, hgrant⟩ :=
        (h.asMade o l (hlisted hkey) hl).allow hrate hburst hnow endpoint
      have hlevel : t.store.level key = l.bucket.level rate burst := by
        rw [Store.level_of_some ((Store.current_of_lookup (hlisted hkey)).trans hl), h.atRate,
          h.atBurst]
      have hcovered := h.covered
      rw [hlevel] at hcovered
      have hnext := hcovered.take hrate (seconds_le.mpr hnow)
      rw [← hbucket, ← hgrant] at hnext
      refine (h.mono hnow).callOwn hheld hkey hl hmade ?_
      have hcount : grantedWithin ⟨t.store, t.asked, t.granted ++
            if (l.allowWithEndpoint endpoint now).2 then [(owner o, now)] else []⟩ key start T =
          t.grantedWithin key start T + if (l.allowWithEndpoint endpoint now).2 = true ∧
            start ≤ seconds now ∧ seconds now ≤ start + T then 1 else 0 := by
        show (t.granted ++ _).countP _ = _
        rw [List.countP_append]
        cases (l.allowWithEndpoint endpoint now).2 with
        | false => simp [grantedWithin]
        | true => simp [grantedWithin, hkey, List.countP_singleton]
      rw [hcount]
      exact hnext
    · refine (h.mono hnow).callOther hheld hkey _ fun g hg => ?_
      split_ifs at hg
      · rw [List.mem_singleton.mp hg]
        exact hkey
      · cases hg

/-- A turn of the cleanup: a limiter five minutes out of use is full. -/
theorem Fed.cleanup (h : Fed rate burst key start T c owner t) (hrate : 0 ≤ rate)
    (hrefill : (burst : ℚ) ≤ 300 * rate) {other : GoString} {now : Time}
    (halone : LeftAlone key t (.cleanup other now)) :
    Fed rate burst key start T (max c now) owner (t.step (.cleanup other now)).1 := by
  have hlate := h.mono (le_max_left c now)
  cases hvictim : t.store.victim now other with
  | none =>
    have hstep : (t.step (.cleanup other now)).1 = t := by
      simp only [step, Store.step, Store.expire_eq, hvictim]
    rw [hstep]
    exact hlate
  | some v =>
    obtain ⟨o, l⟩ := v
    obtain ⟨hother, hl⟩ := Store.of_victim hvictim
    have hstep : (t.step (.cleanup other now)).1 =
        ⟨{ t.store with limiters := t.store.limiters.erase other }, t.asked, t.granted⟩ := by
      simp only [step, Store.step, Store.expire_eq, hvictim]
    rw [hstep]
    refine ⟨h.atRate, h.atBurst, fun k o' ho' => ?_, fun caller o' ho' => ?_, fun o' l' ho' hl' => ?_, ?_⟩
    · rw [GoMap.lookup_erase_ite] at ho'
      split_ifs at ho'
      exact h.listed k o' ho'
    · have hold := h.held caller o' ho'
      refine ⟨hold.1, hold.2.1, fun hkey => ?_⟩
      show (t.store.limiters.erase other).lookup key = _
      rw [GoMap.lookup_erase_ite, if_neg fun heq => ?_]
      · exact hold.2.2 hkey
      · -- nobody is between its two steps
        have hfree := halone heq.symm (by rw [heq, hvictim]; rfl) caller
          (Finmap.mem_iff.mpr ⟨o', ho'⟩)
        exact hfree (hkey ▸ hold.1)
    · rw [GoMap.lookup_erase_ite] at ho'
      split_ifs at ho'
      exact hlate.asMade o' l' ho' hl'
    · refine hlate.covered.mono le_rfl fun τ hτ => ?_
      by_cases heq : key = other
      · have hkey : t.store.limiters.lookup key = some o := heq ▸ hother
        obtain ⟨-, -, -, htokens, -⟩ := h.asMade o l hkey hl
        have hrest : (burst : ℚ) ≤ l.tokens + (seconds now - seconds l.lastUpdate) * rate := by
          have hlong : (300 : ℚ) ≤ seconds now - seconds l.lastUpdate := by
            have hthreshold := seconds_le.mpr (Store.threshold_lt_of_victim hvictim).le
            rw [seconds_sub] at hthreshold
            exact hthreshold.trans' (by norm_num [seconds, Store.threshold])
          have hflow := mul_le_mul_of_nonneg_right hlong hrate
          linarith
        have hfull : l.bucket.level rate burst τ = burst :=
          TokenBucket.level_eq_of_full hrate ((seconds_le.mpr (le_max_right c now)).trans hτ) hrest
        have hgone : Store.current { t.store with limiters := t.store.limiters.erase other } key =
            none := by
          refine Store.current_of_notMem ?_
          rw [heq]
          exact Finmap.lookup_erase _ _
        rw [Store.level_of_none hgone, Store.level_of_some ((Store.current_of_lookup hkey).trans hl),
          h.atRate, h.atBurst, hfull]
      · have hlookup : (t.store.limiters.erase other).lookup key = t.store.limiters.lookup key := by
          rw [GoMap.lookup_erase_ite, if_neg heq]
        refine le_of_eq (congrFun ?_ τ)
        exact Store.level_congr rfl rfl (Store.current_congr hlookup fun _ _ => rfl)

theorem Fed.erase (h : Fed rate burst key start T c owner t) {other : GoString} (hne : other ≠ key) :
    Fed rate burst key start T c owner ⟨t.store.reset other, t.asked, t.granted⟩ := by
  have hkey : (t.store.limiters.erase other).lookup key = t.store.limiters.lookup key := by
    rw [GoMap.lookup_erase_ite, if_neg hne.symm]
  have hlevel : (t.store.reset other).level key = t.store.level key := by
    exact Store.level_congr rfl rfl (Store.current_congr hkey fun _ _ => rfl)
  refine ⟨h.atRate, h.atBurst, fun k o ho => ?_, fun caller o ho => ?_, fun o l ho hl => ?_, ?_⟩
  · show _ ∧ o < t.store.heap.length
    simp only [Store.reset, GoMap.lookup_erase_ite] at ho
    split_ifs at ho
    exact h.listed k o ho
  · have hold := h.held caller o ho
    exact ⟨hold.1, hold.2.1, fun hown => hkey.trans (hold.2.2 hown)⟩
  · exact h.asMade o l (hkey.symm.trans ho) hl
  · show TokenBucket.Covered rate (burst : ℚ) start T (seconds c) (t.grantedWithin key start T)
      ((t.store.reset other).level key)
    rw [hlevel]
    exact h.covered

/-- A call that grants nothing, on whatever limiter, where it changes none of the client's. -/
theorem Fed.adjust (h : Fed rate burst key start T c owner t) (caller : ℕ) (f : Limiter ℚ → Limiter ℚ)
    (hf : t.asked caller = some key → ∀ l : Limiter ℚ, l.customConfig = none → f l = l) :
    Fed rate burst key start T c owner ⟨t.store.call caller f, t.asked, t.granted⟩ := by
  rw [← List.append_nil t.granted]
  cases hheld : t.store.held.lookup caller with
  | none =>
    rw [Store.call, hheld, List.append_nil]
    exact h
  | some o =>
    obtain ⟨hasked, hlt, hlisted⟩ := h.held caller o hheld
    by_cases hkey : owner o = key
    · have hl : t.store.heap[o]? = some t.store.heap[o] := List.getElem?_eq_getElem hlt
      generalize t.store.heap[o] = l at hl
      have hmade := h.asMade o l (hlisted hkey) hl
      have hsame : f l = l := hf (hkey ▸ hasked) l hmade.customConfig
      have hlevel : t.store.level key = l.bucket.level rate burst := by
        rw [Store.level_of_some ((Store.current_of_lookup (hlisted hkey)).trans hl), h.atRate, h.atBurst]
      refine h.callOwn hheld hkey hl (hsame.symm ▸ hmade) ?_
      rw [List.append_nil, hsame, ← hlevel]
      exact h.covered
    · exact h.callOther hheld hkey f fun g hg => absurd hg List.not_mem_nil

theorem Fed.step (h : Fed rate burst key start T c owner t) (hrate : 0 ≤ rate) (hburst : 0 ≤ burst)
    (hrefill : (burst : ℚ) ≤ 300 * rate) {e : Step ℚ} (htime : e.InTime c)
    (halone : LeftAlone key t e) :
    ∃ owner', Fed rate burst key start T (e.advance c) owner' (t.step e).1 := by
  cases e with
  | getLimiter caller k now =>
    obtain ⟨hle, hadvance⟩ := Step.advance_of_inTime now rfl rfl htime
    rw [hadvance]
    exact (h.mono hle).getLimiter hburst caller k
  | allow caller endpoint now =>
    obtain ⟨hle, hadvance⟩ := Step.advance_of_inTime now rfl rfl htime
    rw [hadvance]
    exact ⟨owner, h.allow hrate hburst caller endpoint hle⟩
  | setCustomConfig caller r b duration now =>
    obtain ⟨hle, hadvance⟩ := Step.advance_of_inTime now rfl rfl htime
    rw [hadvance]
    exact ⟨owner, (h.mono hle).adjust caller _ fun hasked => absurd hasked halone⟩
  | clearCustomConfig caller =>
    have hadvance : Step.advance c (.clearCustomConfig caller : Step ℚ) = c := max_self c
    rw [hadvance]
    refine ⟨owner, h.adjust caller _ fun _ l hnone => ?_⟩
    rw [Limiter.clearCustomConfig, ← hnone]
  | reset other =>
    have hadvance : Step.advance c (.reset other : Step ℚ) = c := max_self c
    rw [hadvance]
    exact ⟨owner, h.erase halone⟩
  | resetAll => exact absurd halone id
  | cleanup other now => exact ⟨owner, h.cleanup hrate hrefill halone⟩

theorem Fed.run (h : Fed rate burst key start T c owner t) (hrate : 0 ≤ rate) (hburst : 0 ≤ burst)
    (hrefill : (burst : ℚ) ≤ 300 * rate) {es : List (Step ℚ)} (hclock : Clocked c es)
    (halone : machine.Along (LeftAlone key) t es) :
    ((machine.run t es).1.grantedWithin key start T : ℚ) ≤ burst + rate * T := by
  induction es generalizing c t owner with
  | nil => exact h.covered.most
  | cons e es ih =>
    obtain ⟨owner', hnext⟩ := h.step hrate hburst hrefill hclock.1 halone.1
    exact ih hnext hclock.2 halone.2

/-- In no window is a client granted more than the burst and what flows in meanwhile, whatever
the others do and however often its limiter is dropped for being out of use: five minutes fill
any limiter. -/
theorem client_bound {rate : ℚ} {burst : ℤ} (hrate : 0 ≤ rate) (hburst : 0 ≤ burst)
    (hrefill : (burst : ℚ) ≤ 300 * rate) (key : GoString) (created : Time) (es : List (Step ℚ))
    (hclock : Clocked created es) (halone : machine.Along (LeftAlone key) (new rate burst) es)
    (start : ℚ) {T : ℚ} (hT : 0 ≤ T) :
    ((machine.run (new rate burst) es).1.grantedWithin key start T : ℚ) ≤ burst + rate * T :=
  (fed_new hrate hburst hT key start created fun _ => key).run hrate hburst hrefill hclock halone

/-- One grant before the drop and one after it. -/
theorem client_bound_quiet :
    Clocked 0 (quietClient (F := ℚ)) ∧ machine.Along (LeftAlone []) (new 1 1) quietClient ∧
    (machine.run (new 1 1) quietClient).1.granted = [([], 0), ([], 400000000000)] ∧
    ((machine.run (new 1 1) quietClient).1.grantedWithin [] 0 400 : ℚ) ≤ (1 : ℤ) + 1 * 400 := by
  have hclock : Clocked 0 (quietClient (F := ℚ)) := by
    simp [quietClient, Clocked, Step.InTime, Step.reading, Step.advance, Step.isCleanup]
  have halone : machine.Along (LeftAlone []) (new 1 1) quietClient := by
    refine ⟨trivial, trivial, fun _ _ caller hcaller => ?_, trivial, trivial, trivial⟩
    have hheld : (machine.run (new 1 1) [.getLimiter 0 [] 0, .allow 0 [] 0]).1.store.held = ∅ := by
      decide +kernel
    change caller ∈ (machine.run (new 1 1) [.getLimiter 0 [] 0, .allow 0 [] 0]).1.store.held
      at hcaller
    rw [hheld] at hcaller
    exact absurd hcaller Finmap.notMem_empty
  exact ⟨hclock, halone, by decide +kernel,
    client_bound zero_le_one (by decide) (by norm_num) [] 0 quietClient hclock halone 0 (by norm_num)⟩

/-- A limiter dropped under a request in flight serves it beside the next one. -/
def heldThrough : List (Step ℚ) :=
  [.getLimiter 0 [] 0, .cleanup [] 400000000000, .getLimiter 1 [] 400000000000,
    .allow 0 [] 400000000000, .allow 1 [] 400000000000]

/-- At one instant two requests are granted to a client with a burst of one. -/
theorem drop_in_flight_exceeds :
    ¬ ∀ (key : GoString) (es : List (Step ℚ)), Clocked 0 es → ∀ start : ℚ,
      ((machine.run (new 1 1) es).1.grantedWithin key start 0 : ℚ) ≤ (1 : ℤ) + 1 * 0 := by
  intro h
  have hclock : Clocked 0 heldThrough := by
    simp [heldThrough, Clocked, Step.InTime, Step.reading, Step.advance, Step.isCleanup]
  have hbound := h [] heldThrough hclock 400
  have htwo : (machine.run (new 1 1) heldThrough).1.grantedWithin [] 400 0 = 2 := by decide +kernel
  rw [htwo] at hbound
  norm_num at hbound

end Tally

end Konsul.Ratelimit
