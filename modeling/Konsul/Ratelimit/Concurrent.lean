import Konsul.Lib.Interference
import Konsul.Ratelimit.Store

/-!
# Calls of one store at a time

`GetLimiter` looks under the read lock, and where it finds nothing once more under the
write lock, before it creates a limiter. A request then takes its token under the mutex
of the limiter. The log is not part of the store: it lists the requests in the order in
which they took their tokens.
-/

namespace Konsul.Ratelimit

open GoLib

/-- A request that has its answer. -/
structure Served (I : Type) where
  caller : I
  key : GoString
  request : GoString × Time
  allowed : Bool

structure Shared (I : Type) where
  store : Store ℚ
  log : List (Served I)

/-- A call, and the clock readings that it would use: when it creates a limiter, and when
the limiter decides. -/
inductive StoreCall where
  | getLimiter (key : GoString) (created : Time)
  | allow (key endpoint : GoString) (created now : Time)

namespace StoreCall

variable {I : Type}

def key : StoreCall → GoString
  | getLimiter key _ => key
  | allow key _ _ _ => key

def getLimiterThread (key : GoString) (created : Time) : Thread (Shared I) ℕ := do
  match ← Thread.reading fun s => s.store.limiters.lookup key with
  | some limiter => return limiter
  | none =>
    Thread.writing fun s =>
      let r := s.store.getLimiter key created
      ({ s with store := r.1 }, r.2)

/-- `AllowWithEndpoint` on the limiter with this reference, which is one of the heap. -/
def takeToken (caller : I) (key endpoint : GoString) (now : Time) (limiter : ℕ) (s : Shared I) :
    Shared I × ℕ × Option Bool :=
  match s.store.heap[limiter]? with
  | none => (s, limiter, none)
  | some l =>
    let r := l.allowWithEndpoint endpoint now
    ({ store := { s.store with heap := s.store.heap.set limiter r.1 }
       log := s.log ++ [⟨caller, key, (endpoint, now), r.2⟩] }, limiter, some r.2)

/-- A call returns the limiter it got, and the answer if it is a request. -/
def thread (caller : I) : StoreCall → Thread (Shared I) (ℕ × Option Bool)
  | getLimiter key created => do return (← getLimiterThread key created, none)
  | allow key endpoint created now => do
    let limiter ← getLimiterThread key created
    Thread.unlocked (takeToken caller key endpoint now limiter)

end StoreCall

namespace Shared

variable {I : Type}

def new (rate : ℚ) (burst : ℤ) : Shared I := ⟨.newStore rate burst, []⟩

/-- The requests on a key, in order. -/
def on (s : Shared I) (key : GoString) : List (Served I) := s.log.filter fun e => e.key = key

/-- The limiter of each key is its own, and a single bucket fed with the requests on the key. -/
structure Fed (rate : ℚ) (burst : ℤ) (s : Shared I) : Prop where
  limits : s.store.rate = rate ∧ s.store.burst = burst
  bound : ∀ key limiter, s.store.limiters.lookup key = some limiter → limiter < s.store.heap.length
  distinct : ∀ key key' limiter, s.store.limiters.lookup key = some limiter →
    s.store.limiters.lookup key' = some limiter → key = key'
  fed : ∀ key limiter, s.store.limiters.lookup key = some limiter → ∃ created,
    s.store.heap[limiter]? = some (Limiter.requests.run (Limiter.newLimiter rate burst created)
      ((s.on key).map Served.request)).1 ∧
    (s.on key).map Served.allowed = (Limiter.requests.run (Limiter.newLimiter rate burst created)
      ((s.on key).map Served.request)).2
  fresh : ∀ key, s.store.limiters.lookup key = none → s.on key = []

variable {rate : ℚ} {burst : ℤ} {s : Shared I}

theorem fed_new (rate : ℚ) (burst : ℤ) : (new rate burst : Shared I).Fed rate burst where
  limits := ⟨rfl, rfl⟩
  bound _ _ h := nomatch h
  distinct _ _ _ h := nomatch h
  fed _ _ h := nomatch h
  fresh _ _ := rfl

/-- A limiter that is created is new and has seen no request. -/
theorem Fed.getLimiter (h : s.Fed rate burst) (key : GoString) (created : Time) :
    ({ s with store := (s.store.getLimiter key created).1 } : Shared I).Fed rate burst ∧
      (∀ k l, s.store.limiters.lookup k = some l →
        (s.store.getLimiter key created).1.limiters.lookup k = some l) ∧
      (s.store.getLimiter key created).1.limiters.lookup key =
        some (s.store.getLimiter key created).2 := by
  unfold Store.getLimiter
  cases hkey : s.store.limiters.lookup key with
  | some limiter => exact ⟨h, fun _ _ hk => hk, hkey⟩
  | none =>
    have hlookup : ∀ k l, (s.store.limiters.insert key s.store.heap.length).lookup k = some l →
        (k = key ∧ l = s.store.heap.length) ∨ k ≠ key ∧ s.store.limiters.lookup k = some l := by
      intro k l hk
      rw [GoMap.lookup_insert_ite] at hk
      split_ifs at hk with heq
      · exact .inl ⟨heq, (Option.some.inj hk).symm⟩
      · exact .inr ⟨heq, hk⟩
    refine ⟨⟨h.limits, fun k l hk => ?_, fun k k' l hk hk' => ?_, fun k l hk => ?_, fun k hk => ?_⟩,
      fun k l hk => ?_, Finmap.lookup_insert _⟩
    · rw [List.length_append, List.length_singleton]
      rcases hlookup k l hk with ⟨-, rfl⟩ | ⟨-, hold⟩
      · exact Nat.lt_succ_self _
      · exact Nat.lt_succ_of_lt (h.bound k l hold)
    · rcases hlookup k l hk with ⟨rfl, rfl⟩ | ⟨hne, hold⟩
      · rcases hlookup k' _ hk' with ⟨rfl, -⟩ | ⟨-, hold'⟩
        · rfl
        · exact absurd (h.bound k' _ hold') (lt_irrefl _)
      · rcases hlookup k' l hk' with ⟨rfl, rfl⟩ | ⟨-, hold'⟩
        · exact absurd (h.bound k _ hold) (lt_irrefl _)
        · exact h.distinct k k' l hold hold'
    · rcases hlookup k l hk with ⟨rfl, rfl⟩ | ⟨-, hold⟩
      · refine ⟨created, ?_, ?_⟩
        · change (s.store.heap ++ [_])[s.store.heap.length]? = some (Limiter.requests.run _
            ((s.on k).map Served.request)).1
          rw [h.fresh k hkey, List.getElem?_concat_length, h.limits.1, h.limits.2]
          rfl
        · change (s.on k).map Served.allowed = (Limiter.requests.run _
            ((s.on k).map Served.request)).2
          rw [h.fresh k hkey]
          rfl
      · obtain ⟨made, hheap, hlog⟩ := h.fed k l hold
        refine ⟨made, ?_, hlog⟩
        change (s.store.heap ++ [_])[l]? = _
        rw [List.getElem?_append_left (h.bound k l hold)]
        exact hheap
    · refine h.fresh k ?_
      change (s.store.limiters.insert key s.store.heap.length).lookup k = none at hk
      rw [GoMap.lookup_insert_ite] at hk
      split_ifs at hk
      exact hk
    · have hne : k ≠ key := by
        rintro rfl
        rw [hkey] at hk
        cases hk
      exact (Finmap.lookup_insert_of_ne _ hne).trans hk

/-- A request takes its token from the bucket of its key, and is the last in its log. -/
theorem Fed.takeToken (h : s.Fed rate burst) {key : GoString} {limiter : ℕ}
    (hkey : s.store.limiters.lookup key = some limiter) (caller : I) (endpoint : GoString)
    (now : Time) : ∃ allowed,
    (StoreCall.takeToken caller key endpoint now limiter s).2 = (limiter, some allowed) ∧
    (StoreCall.takeToken caller key endpoint now limiter s).1.log =
      s.log ++ [⟨caller, key, (endpoint, now), allowed⟩] ∧
    (StoreCall.takeToken caller key endpoint now limiter s).1.store.limiters = s.store.limiters ∧
    (StoreCall.takeToken caller key endpoint now limiter s).1.Fed rate burst := by
  obtain ⟨created, hheap, hlog⟩ := h.fed key limiter hkey
  unfold StoreCall.takeToken
  rw [hheap]
  refine ⟨_, rfl, rfl, rfl, ?_⟩
  generalize hrun : Limiter.requests.run (Limiter.newLimiter rate burst created)
    ((s.on key).map Served.request) = r at hheap hlog ⊢
  let entry : Served I := ⟨caller, key, (endpoint, now), (r.1.allowWithEndpoint endpoint now).2⟩
  have hon : ∀ k, (s.log ++ [entry]).filter (fun e => e.key = k) =
      if k = key then s.on k ++ [entry] else s.on k := by
    intro k
    rw [List.filter_append]
    by_cases hk : k = key
    · rw [if_pos hk, hk]
      simp [on, entry]
    · have hne : key ≠ k := Ne.symm hk
      rw [if_neg hk]
      simp [on, entry, hne]
  refine ⟨h.limits, fun k l hk => ?_, h.distinct, fun k l hk => ?_, fun k hk => ?_⟩
  · rw [List.length_set]
    exact h.bound k l hk
  · change ∃ created, (s.store.heap.set limiter _)[l]? = some (Limiter.requests.run _
      (((s.log ++ [entry]).filter fun e => e.key = k).map Served.request)).1 ∧
      ((s.log ++ [entry]).filter fun e => e.key = k).map Served.allowed = (Limiter.requests.run _
        (((s.log ++ [entry]).filter fun e => e.key = k).map Served.request)).2
    rw [hon]
    by_cases hkk : k = key
    · subst hkk
      have hl : l = limiter := by
        rw [hkey] at hk
        exact (Option.some.inj hk).symm
      refine ⟨created, ?_, ?_⟩
      · rw [if_pos rfl, hl, List.getElem?_set_self (h.bound k limiter hkey), List.map_append,
          List.map_singleton, Machine.run_snoc, hrun]
        rfl
      · rw [if_pos rfl, List.map_append, List.map_append, List.map_singleton, List.map_singleton,
          Machine.run_snoc, hrun, hlog]
        rfl
    · have hne : limiter ≠ l := fun heq => hkk (h.distinct k key l hk (heq ▸ hkey))
      obtain ⟨made, hheap', hlog'⟩ := h.fed k l hk
      refine ⟨made, ?_, ?_⟩
      · rw [if_neg hkk, List.getElem?_set_ne hne, hheap']
      · rw [if_neg hkk, hlog']
  · change (s.log ++ [entry]).filter (fun e => e.key = k) = []
    have hne : k ≠ key := by
      rintro rfl
      rw [show s.store.limiters.lookup k = none from hk] at hkey
      cases hkey
    rw [hon, if_neg hne]
    exact h.fresh k hk

end Shared

/-! ### What a call relies on -/

section

variable {I : Type} [DecidableEq I]

/-- The requests of one caller that have their answers. -/
def Shared.of (s : Shared I) (caller : I) : List (Served I) :=
  s.log.filter fun e => e.caller = caller

/-- A key keeps its limiter. -/
def Keeps (s s' : Shared I) : Prop :=
  ∀ key limiter, s.store.limiters.lookup key = some limiter →
    s'.store.limiters.lookup key = some limiter

/-- Others leave what the caller was answered. -/
def Rely (caller : I) (s s' : Shared I) : Prop := Keeps s s' ∧ s'.of caller = s.of caller

/-- A caller leaves what others were answered. -/
def Guarantee (caller : I) (s s' : Shared I) : Prop :=
  Keeps s s' ∧ ∀ other ≠ caller, s'.of other = s.of other

theorem rely_refl (caller : I) (s : Shared I) : Rely caller s s := ⟨fun _ _ h => h, rfl⟩

theorem rely_trans (caller : I) (s s' s'' : Shared I) (h : Rely caller s s')
    (h' : Rely caller s' s'') : Rely caller s s'' :=
  ⟨fun key limiter hkey => h'.1 key limiter (h.1 key limiter hkey), h'.2.trans h.2⟩

theorem rely_of_guarantee (i j : I) (s s' : Shared I) (hij : i ≠ j) (h : Guarantee i s s') :
    Rely j s s' := ⟨h.1, h.2 j (Ne.symm hij)⟩

namespace StoreCall

/-- What a call returns: the limiter of its key, and the one answer in the log. -/
def Returns (call : StoreCall) (caller : I) (s : Shared I) (r : ℕ × Option Bool) : Prop :=
  s.store.limiters.lookup call.key = some r.1 ∧
    match call with
    | getLimiter _ _ => r.2 = none ∧ s.of caller = []
    | allow key endpoint _ now =>
      ∃ allowed, r.2 = some allowed ∧ s.of caller = [⟨caller, key, (endpoint, now), allowed⟩]

variable {rate : ℚ} {burst : ℤ} {caller : I} {s : Shared I}

/-- Found or created, the limiter returned is that of the key. -/
theorem getLimiter_ensures (key : GoString) (created : Time) (hnone : s.of caller = []) :
    (getLimiterThread key created : Thread (Shared I) ℕ).Ensures (Rely caller) (Guarantee caller)
      (Shared.Fed rate burst)
      (fun s limiter => s.store.limiters.lookup key = some limiter ∧ s.of caller = []) s := by
  have hsame : ∀ s : Shared I, Guarantee caller s s := fun s => ⟨fun _ _ h => h, fun _ _ => rfl⟩
  have hread : (Thread.reading fun s : Shared I => s.store.limiters.lookup key).Ensures (Rely caller)
      (Guarantee caller) (Shared.Fed rate burst) (fun s found => s.of caller = [] ∧
        ∀ limiter, found = some limiter → s.store.limiters.lookup key = some limiter) s := by
    refine Thread.ensures_reading hsame fun s' hrely _ s'' hrely' => ?_
    exact ⟨hrely'.2.trans (hrely.2.trans hnone), fun limiter hfound => hrely'.1 key limiter hfound⟩
  refine hread.bind (rely_refl caller) ?_
  intro found s' hfound
  obtain ⟨hnone', hlookup⟩ := hfound
  cases found with
  | none =>
    -- another caller may have created it in between: the second look decides
    refine Thread.ensures_writing fun s'' hrely hfed => ?_
    obtain ⟨hfed', hkeeps, hlimiter⟩ := hfed.getLimiter key created
    exact ⟨⟨hkeeps, fun _ _ => rfl⟩, hfed', fun t hrely' =>
      ⟨hrely'.1 key _ hlimiter, hrely'.2.trans (hrely.2.trans hnone')⟩⟩
  | some limiter =>
    exact fun s'' hrely => ⟨hrely.1 key limiter (hlookup limiter rfl), hrely.2.trans hnone'⟩

theorem thread_ensures (call : StoreCall) (hnone : s.of caller = []) :
    (call.thread caller).Ensures (Rely caller) (Guarantee caller) (Shared.Fed rate burst)
      (call.Returns caller) s := by
  cases call with
  | getLimiter key created =>
    refine Thread.Ensures.bind (rely_refl caller) (getLimiter_ensures key created hnone) ?_
    rintro limiter s' ⟨hkey, hnone'⟩
    exact fun s'' hrely => ⟨hrely.1 key limiter hkey, rfl, hrely.2.trans hnone'⟩
  | allow key endpoint created now =>
    refine Thread.Ensures.bind (rely_refl caller) (getLimiter_ensures key created hnone) ?_
    rintro limiter s' ⟨hkey, hnone'⟩
    refine Thread.ensures_unlocked fun s'' hrely hfed => ?_
    have hkey' := hrely.1 key limiter hkey
    obtain ⟨allowed, hanswer, hlog, hsame, hfed'⟩ := hfed.takeToken hkey' caller endpoint now
    have hof : ∀ i, (takeToken caller key endpoint now limiter s'').1.of i =
        s''.of i ++ if caller = i then [⟨caller, key, (endpoint, now), allowed⟩] else [] := by
      intro i
      rw [Shared.of, hlog, List.filter_append]
      by_cases hi : caller = i <;> simp [hi, Shared.of]
    refine ⟨⟨fun k l hk => hsame.symm ▸ hk, fun i hi => ?_⟩, hfed', fun t hrely' => ?_⟩
    · rw [hof, if_neg (Ne.symm hi), List.append_nil]
    · rw [hanswer]
      refine ⟨hrely'.1 key limiter (hsame.symm ▸ hkey'), allowed, rfl, ?_⟩
      rw [hrely'.2, hof, if_pos rfl, hrely.2, hnone', List.nil_append]

end StoreCall

/-- In every order of the steps of any calls, calls get the same limiter iff they are for the
same key; the answers on a key are those of a single bucket, fed with the requests on the
key in the order in which they took their tokens; and each finished request has its
answer from there. -/
theorem one_limiter_per_key (rate : ℚ) (burst : ℤ) (calls : I → StoreCall) (schedule : List I) :
    let s := (Threads.machine.run
      (Threads.start (Shared.new rate burst) fun i => (calls i).thread i) schedule).1
    (∀ i j r r', s.program i = .ret r → s.program j = .ret r' →
      (r.1 = r'.1 ↔ (calls i).key = (calls j).key)) ∧
    (∀ key, ∃ created, (s.shared.on key).map Served.allowed = (Limiter.requests.run
      (Limiter.newLimiter rate burst created) ((s.shared.on key).map Served.request)).2) ∧
    ∀ i r, s.program i = .ret r → (calls i).Returns i s.shared r := by
  intro s
  obtain ⟨hfed, hpost⟩ := Threads.ensures_run rely_refl rely_trans rely_of_guarantee
    (Shared.fed_new rate burst) (fun i => StoreCall.thread_ensures (calls i) rfl) schedule
  refine ⟨fun i j r r' hi hj => ?_, fun key => ?_, hpost⟩
  · have hkey := (hpost i r hi).1
    have hkey' := (hpost j r' hj).1
    constructor
    · intro hsame
      exact hfed.distinct _ _ r.1 hkey (hsame ▸ hkey')
    · intro hsame
      rw [hsame, hkey'] at hkey
      exact (Option.some.inj hkey).symm
  · cases hkey : s.shared.store.limiters.lookup key with
    | none =>
      refine ⟨0, ?_⟩
      rw [hfed.fresh key hkey]
      rfl
    | some limiter =>
      obtain ⟨created, -, hlog⟩ := hfed.fed key limiter hkey
      exact ⟨created, hlog⟩

end

end Konsul.Ratelimit
