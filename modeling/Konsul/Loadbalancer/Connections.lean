import Konsul.Lib.Machine
import Konsul.Loadbalancer.Balancer

/-!
# Least connections (internal/loadbalancer/balancer.go)

The connections of an instance are counted under its key, which two instances may share.
`outstanding` counts what a run has opened and not closed, instance by instance.
-/

namespace Konsul

open GoLib

/-- An `int32` after an operation. -/
def wrapInt32 (n : ℤ) : ℤ := Int.bmod n (2 ^ 32)

theorem wrapInt32_of_range {n : ℤ} (hlow : -2 ^ 31 ≤ n) (hhigh : n < 2 ^ 31) : wrapInt32 n = n :=
  Int.bmod_eq_of_le (by omega) (by omega)

theorem wrapInt32_lt (n : ℤ) : wrapInt32 n < 2 ^ 31 := by
  have hhigh := Int.bmod_lt (x := n) (m := 2 ^ 32) (by decide)
  unfold wrapInt32
  omega

/-- What tells one instance from another. -/
def Service.endpoint (svc : Service) : GoString × GoString × ℤ := (svc.name, svc.address, svc.port)

namespace Balancer

def incrementConnections (b : Balancer) (svc : Service) : Balancer :=
  let conns := (b.connections.lookup (instanceKey svc)).getD 0
  { b with connections := b.connections.insert (instanceKey svc) (wrapInt32 (conns + 1)) }

def decrementConnections (b : Balancer) (svc : Service) : Balancer :=
  match b.connections.lookup (instanceKey svc) with
  | none => b
  | some conns =>
    if conns > 0 then
      { b with connections := b.connections.insert (instanceKey svc) (wrapInt32 (conns - 1)) }
    else b

/-- The counter that is used for an instance. -/
def connectionsOf (b : Balancer) (svc : Service) : ℤ :=
  (b.connections.lookup (instanceKey svc)).getD 0

end Balancer

inductive ConnCall where
  | increment (svc : Service)
  | decrement (svc : Service)
  | select (instances : List Service)

namespace ConnCall

/-- The instances a call is about. -/
def instances : ConnCall → List Service
  | .increment svc => [svc]
  | .decrement svc => [svc]
  | .select instances => instances

def machine : Machine Balancer ConnCall (Option Service) where
  step b c :=
    match c with
    | .increment svc => (b.incrementConnections svc, none)
    | .decrement svc => (b.decrementConnections svc, none)
    | .select instances => b.selectLeastConnections instances

/-- The balancer after some calls. -/
def after (strategy : Strategy) (calls : List ConnCall) : Balancer :=
  (machine.run (Balancer.new strategy) calls).1

/-- What a call adds to the connections of an instance. -/
def change (e : GoString × GoString × ℤ) : ConnCall → ℤ
  | .increment svc => if svc.endpoint = e then 1 else 0
  | .decrement svc => if svc.endpoint = e then -1 else 0
  | .select _ => 0

def outstanding (calls : List ConnCall) (e : GoString × GoString × ℤ) : ℤ :=
  (calls.map (change e)).sum

end ConnCall

namespace Balancer

open ConnCall

variable {b : Balancer}

/-! ### The loop of a selection -/

/-- A round reads the count of an instance and leaves all counts as they are. -/
theorem leastRound_eq (s : GoMap GoString ℤ × ℕ × ℤ) (e : Service × ℕ) :
    ∃ m, (∀ key, (m.lookup key).getD 0 = (s.1.lookup key).getD 0) ∧
      leastRound s e = (m,
        if e.2 = 0 ∨ (s.1.lookup (instanceKey e.1)).getD 0 < s.2.2 then
          (e.2, (s.1.lookup (instanceKey e.1)).getD 0)
        else s.2) := by
  have hkept : ∀ key, ((if s.1.lookup (instanceKey e.1) = none then s.1.insert (instanceKey e.1) 0
      else s.1).lookup key).getD 0 = (s.1.lookup key).getD 0 := by
    intro key
    split_ifs with hnone
    · rw [GoMap.lookup_insert_ite]
      split_ifs with hkey
      · rw [hkey, hnone]
        rfl
      · rfl
    · rfl
  refine ⟨_, hkept, ?_⟩
  unfold leastRound
  dsimp only
  rw [hkept (instanceKey e.1)]
  split <;> rfl

/-- What the loop knows about the instances it has seen. -/
theorem leastRound_spec (connections : GoMap GoString ℤ) (instances : List Service) :
    let s := instances.zipIdx.foldl leastRound (connections, 0, 0)
    (∀ key, (s.1.lookup key).getD 0 = (connections.lookup key).getD 0) ∧
      (instances ≠ [] → ∃ svc, instances[s.2.1]? = some svc ∧
        s.2.2 = (connections.lookup (instanceKey svc)).getD 0 ∧
        ∀ svc' ∈ instances, s.2.2 ≤ (connections.lookup (instanceKey svc')).getD 0) := by
  induction instances using List.reverseRecOn with
  | nil => exact ⟨fun key => rfl, fun h => absurd rfl h⟩
  | append_singleton instances x ih =>
    have hfold : (instances ++ [x]).zipIdx.foldl leastRound (connections, 0, 0) =
        leastRound (instances.zipIdx.foldl leastRound (connections, 0, 0)) (x, instances.length) := by
      rw [List.zipIdx_append, List.foldl_append, Nat.zero_add]
      rfl
    dsimp only at ih ⊢
    rw [hfold]
    generalize instances.zipIdx.foldl leastRound (connections, 0, 0) = s at ih
    obtain ⟨hkept, hleast⟩ := ih
    obtain ⟨m, hm, hround⟩ := leastRound_eq s (x, instances.length)
    rw [hround]
    dsimp only
    rw [hkept]
    refine ⟨fun key => (hm key).trans (hkept key), fun _ => ?_⟩
    have hlast : (instances ++ [x])[instances.length]? = some x := by simp
    by_cases hless : instances.length = 0 ∨ (connections.lookup (instanceKey x)).getD 0 < s.2.2
    · rw [if_pos hless]
      refine ⟨x, hlast, rfl, fun svc' hsvc' => ?_⟩
      rcases List.mem_append.mp hsvc' with hold | hnew
      · have hne : instances ≠ [] := List.ne_nil_of_mem hold
        obtain ⟨svc, -, -, hall⟩ := hleast hne
        have hlt := hless.resolve_left fun hzero => hne (List.length_eq_zero_iff.mp hzero)
        exact hlt.le.trans (hall svc' hold)
      · rw [List.mem_singleton.mp hnew]
    · rw [if_neg hless]
      obtain ⟨hpos, hle⟩ := not_or.mp hless
      obtain ⟨svc, hget, hcount, hall⟩ := hleast fun hnil => hpos (List.length_eq_zero_iff.mpr hnil)
      refine ⟨svc, ?_, hcount, fun svc' hsvc' => ?_⟩
      · rw [List.getElem?_append_left (List.getElem?_eq_some_iff.mp hget).1, hget]
      · rcases List.mem_append.mp hsvc' with hold | hnew
        · exact hall svc' hold
        · rw [List.mem_singleton.mp hnew]
          exact not_lt.mp hle

theorem connectionsOf_select (b : Balancer) (instances : List Service) (svc : Service) :
    (b.selectLeastConnections instances).1.connectionsOf svc = b.connectionsOf svc :=
  (leastRound_spec b.connections instances).1 (instanceKey svc)

theorem selectLeastConnections_least (b : Balancer) {instances : List Service} (h : instances ≠ []) :
    ∃ svc ∈ instances, (b.selectLeastConnections instances).2 = some svc ∧
      ∀ svc' ∈ instances, b.connectionsOf svc ≤ b.connectionsOf svc' := by
  obtain ⟨svc, hget, hcount, hall⟩ := (leastRound_spec b.connections instances).2 h
  refine ⟨svc, List.mem_of_getElem? hget, hget, fun svc' hsvc' => ?_⟩
  exact hcount.symm.le.trans (hall svc' hsvc')

/-! ### Opening and closing -/

theorem connectionsOf_increment (b : Balancer) (svc svc' : Service) :
    (b.incrementConnections svc).connectionsOf svc' =
      if instanceKey svc' = instanceKey svc then wrapInt32 (b.connectionsOf svc + 1)
      else b.connectionsOf svc' := by
  rw [connectionsOf, incrementConnections]
  dsimp only
  rw [GoMap.lookup_insert_ite]
  split_ifs <;> rfl

theorem connectionsOf_decrement (b : Balancer) (svc svc' : Service) :
    (b.decrementConnections svc).connectionsOf svc' =
      if instanceKey svc' = instanceKey svc ∧ 0 < b.connectionsOf svc then
        wrapInt32 (b.connectionsOf svc - 1)
      else b.connectionsOf svc' := by
  unfold decrementConnections
  cases hlookup : b.connections.lookup (instanceKey svc) with
  | none =>
    have hzero : b.connectionsOf svc = 0 := by
      rw [connectionsOf, hlookup]
      rfl
    rw [if_neg (by omega)]
  | some conns =>
    have hconns : b.connectionsOf svc = conns := by
      rw [connectionsOf, hlookup]
      rfl
    rw [hconns]
    dsimp only
    by_cases hpos : conns > 0
    · rw [if_pos hpos, connectionsOf]
      dsimp only
      rw [GoMap.lookup_insert_ite]
      by_cases hkey : instanceKey svc' = instanceKey svc
      · rw [if_pos hkey, if_pos ⟨hkey, hpos⟩]
        rfl
      · rw [if_neg hkey, if_neg fun h => hkey h.1]
        rfl
    · rw [if_neg hpos, if_neg fun h => hpos h.2]

end Balancer

namespace ConnCall

variable {S : Set Service} {strategy : Strategy} {calls : List ConnCall}

theorem outstanding_snoc (calls : List ConnCall) (c : ConnCall) (e : GoString × GoString × ℤ) :
    outstanding (calls ++ [c]) e = outstanding calls e + c.change e := by
  simp [outstanding]

theorem after_snoc (strategy : Strategy) (calls : List ConnCall) (c : ConnCall) :
    after strategy (calls ++ [c]) = (machine.step (after strategy calls) c).1 := by
  rw [after, Machine.run_snoc]
  rfl

/-- No instance is closed more often than it was opened. -/
def NeverOver (calls : List ConnCall) : Prop :=
  ∀ before, before <+: calls → ∀ e, 0 ≤ outstanding before e

/-- The counters are the instances' own, and a selection finds one with the fewest connections. -/
structure CountsExact (S : Set Service) (strategy : Strategy) (before : List ConnCall) : Prop where
  counts : ∀ svc ∈ S, (after strategy before).connectionsOf svc = outstanding before svc.endpoint
  nonneg : ∀ svc ∈ S, 0 ≤ (after strategy before).connectionsOf svc
  least : ∀ instances, instances ≠ [] → (∀ svc ∈ instances, svc ∈ S) → ∃ svc ∈ instances,
    ((after strategy before).selectLeastConnections instances).2 = some svc ∧
      ∀ svc' ∈ instances, outstanding before svc.endpoint ≤ outstanding before svc'.endpoint

/-- An instance with open connections has its key for itself, and fewer of them than an `int32`
can count. -/
structure Apart (S : Set Service) (before : List ConnCall) : Prop where
  alone : ∀ svc ∈ S, ∀ svc' ∈ S, instanceKey svc = instanceKey svc' →
    svc.endpoint ≠ svc'.endpoint → outstanding before svc.endpoint = 0
  fits : ∀ svc ∈ S, outstanding before svc.endpoint < 2 ^ 31

theorem instanceKey_of_endpoint {svc svc' : Service} (h : svc.endpoint = svc'.endpoint) :
    instanceKey svc = instanceKey svc' := by
  obtain ⟨hname, hrest⟩ := Prod.mk.inj h
  obtain ⟨haddress, hport⟩ := Prod.mk.inj hrest
  rw [instanceKey, instanceKey, hname, haddress, hport]

theorem counts_step {before : List ConnCall} {c : ConnCall}
    (hcounts : ∀ svc ∈ S, (after strategy before).connectionsOf svc = outstanding before svc.endpoint)
    (hover : NeverOver (before ++ [c])) (huses : ∀ svc ∈ c.instances, svc ∈ S)
    (hapart : Apart S before) (hapart' : Apart S (before ++ [c])) :
    ∀ svc ∈ S, (after strategy (before ++ [c])).connectionsOf svc =
      outstanding (before ++ [c]) svc.endpoint := by
  have hnonneg := hover before (List.prefix_append before [c])
  have hnonneg' := hover (before ++ [c]) (List.prefix_refl _)
  intro svc hsvc
  have hfits := hapart'.fits svc hsvc
  rw [after_snoc, outstanding_snoc]
  rw [outstanding_snoc] at hfits
  cases c with
  | increment opened =>
    have hmem : opened ∈ S := huses opened (List.mem_singleton_self opened)
    change ((after strategy before).incrementConnections opened).connectionsOf svc = _
    rw [Balancer.connectionsOf_increment, hcounts opened hmem, hcounts svc hsvc]
    by_cases hend : opened.endpoint = svc.endpoint
    · rw [if_pos (instanceKey_of_endpoint hend).symm, hend, change, if_pos hend]
      rw [change, if_pos hend] at hfits
      exact wrapInt32_of_range (by have := hnonneg svc.endpoint; omega) hfits
    · rw [change, if_neg hend, add_zero]
      refine if_neg fun hkey => ?_
      -- it would have its key for itself, and be open
      have hzero := hapart'.alone opened hmem svc hsvc hkey.symm hend
      rw [outstanding_snoc, change, if_pos rfl] at hzero
      have := hnonneg opened.endpoint
      omega
  | decrement closed =>
    have hmem : closed ∈ S := huses closed (List.mem_singleton_self closed)
    have hopen : 0 < outstanding before closed.endpoint := by
      have hleft := hnonneg' closed.endpoint
      rw [outstanding_snoc, change, if_pos rfl] at hleft
      omega
    change ((after strategy before).decrementConnections closed).connectionsOf svc = _
    rw [Balancer.connectionsOf_decrement, hcounts closed hmem, hcounts svc hsvc]
    by_cases hend : closed.endpoint = svc.endpoint
    · rw [if_pos ⟨(instanceKey_of_endpoint hend).symm, hopen⟩, hend, change, if_pos hend]
      have hfits' := hapart.fits svc hsvc
      rw [hend] at hopen
      exact wrapInt32_of_range (by omega) (by omega)
    · rw [change, if_neg hend, add_zero]
      refine if_neg fun hkey => ?_
      have hzero := hapart.alone closed hmem svc hsvc hkey.1.symm hend
      omega
  | select instances =>
    change ((after strategy before).selectLeastConnections instances).1.connectionsOf svc = _
    rw [Balancer.connectionsOf_select, hcounts svc hsvc, change, add_zero]

theorem counts_of_apart (strategy : Strategy) (hover : NeverOver calls) (huses : ∀ c ∈ calls, ∀ svc ∈ c.instances, svc ∈ S)
    (hapart : ∀ before, before <+: calls → Apart S before) :
    ∀ svc ∈ S, (after strategy calls).connectionsOf svc = outstanding calls svc.endpoint := by
  induction calls using List.reverseRecOn with
  | nil => exact fun svc _ => rfl
  | append_singleton calls c ih =>
    have hpre := List.prefix_append calls [c]
    refine counts_step (ih (fun before hb => hover before (hb.trans hpre))
      (fun c' hc' => huses c' (List.mem_append_left _ hc')) fun before hb => hapart before (hb.trans hpre))
      hover (huses c (by simp)) (hapart calls hpre) (hapart _ (List.prefix_refl _))

/-! ### What exact counters need -/

theorem connectionsOf_lt (strategy : Strategy) (calls : List ConnCall) (svc : Service) :
    (after strategy calls).connectionsOf svc < 2 ^ 31 := by
  induction calls using List.reverseRecOn generalizing svc with
  | nil => exact show (0 : ℤ) < 2 ^ 31 by decide
  | append_singleton calls c ih =>
    rw [after_snoc]
    cases c with
    | increment opened =>
      change ((after strategy calls).incrementConnections opened).connectionsOf svc < _
      rw [Balancer.connectionsOf_increment]
      split_ifs
      · exact wrapInt32_lt _
      · exact ih svc
    | decrement closed =>
      change ((after strategy calls).decrementConnections closed).connectionsOf svc < _
      rw [Balancer.connectionsOf_decrement]
      split_ifs
      · exact wrapInt32_lt _
      · exact ih svc
    | select instances =>
      change ((after strategy calls).selectLeastConnections instances).1.connectionsOf svc < _
      rw [Balancer.connectionsOf_select]
      exact ih svc

/-- Two instances of one key never have the same counts again once one of them is open. -/
theorem alone_of_counts
    (hcounts : ∀ before, before <+: calls → ∀ svc ∈ S,
      (after strategy before).connectionsOf svc = outstanding before svc.endpoint)
    {svc svc' : Service} (hsvc : svc ∈ S) (hsvc' : svc' ∈ S)
    (hkey : instanceKey svc = instanceKey svc') (hne : svc.endpoint ≠ svc'.endpoint) :
    outstanding calls svc.endpoint = 0 ∧ outstanding calls svc'.endpoint = 0 := by
  induction calls using List.reverseRecOn with
  | nil => exact ⟨rfl, rfl⟩
  | append_singleton calls c ih =>
    obtain ⟨hzero, hzero'⟩ := ih fun before hb => hcounts before (hb.trans (List.prefix_append calls [c]))
    have hlast := hcounts _ (List.prefix_refl (calls ++ [c]))
    have hsame : outstanding (calls ++ [c]) svc.endpoint = outstanding (calls ++ [c]) svc'.endpoint := by
      rw [← hlast svc hsvc, ← hlast svc' hsvc', Balancer.connectionsOf, Balancer.connectionsOf, hkey]
    rw [outstanding_snoc, outstanding_snoc, hzero, hzero'] at hsame
    rw [outstanding_snoc, outstanding_snoc, hzero, hzero']
    cases c with
    | increment opened =>
      simp only [change] at hsame ⊢
      split_ifs at hsame ⊢ with h h' h' <;> first | omega | exact absurd (h.symm.trans h') hne
    | decrement closed =>
      simp only [change] at hsame ⊢
      split_ifs at hsame ⊢ with h h' h' <;> first | omega | exact absurd (h.symm.trans h') hne
    | select instances => exact ⟨rfl, rfl⟩

/-- Throughout a run the counters are exact just when instances with open connections have their
keys for themselves and no counter wraps. -/
theorem counts_exact_iff (strategy : Strategy) (hover : NeverOver calls)
    (huses : ∀ c ∈ calls, ∀ svc ∈ c.instances, svc ∈ S) :
    (∀ before, before <+: calls → CountsExact S strategy before) ↔
      ∀ before, before <+: calls → Apart S before := by
  constructor
  · intro h before hb
    have hcounts : ∀ early, early <+: before → ∀ svc ∈ S,
        (after strategy early).connectionsOf svc = outstanding early svc.endpoint :=
      fun early he => (h early (he.trans hb)).counts
    refine ⟨fun svc hsvc svc' hsvc' hkey hne => ?_, fun svc hsvc => ?_⟩
    · exact (alone_of_counts hcounts hsvc hsvc' hkey hne).1
    · rw [← hcounts before (List.prefix_refl _) svc hsvc]
      exact connectionsOf_lt strategy before svc
  · intro h before hb
    have hcounts := counts_of_apart strategy (fun early he => hover early (he.trans hb))
      (fun c hc => huses c (hb.subset hc)) fun early he => h early (he.trans hb)
    refine ⟨hcounts, fun svc hsvc => ?_, fun instances hne hmem => ?_⟩
    · rw [hcounts svc hsvc]
      exact hover before hb svc.endpoint
    · obtain ⟨svc, hsvc, hselect, hleast⟩ :=
        (after strategy before).selectLeastConnections_least hne
      refine ⟨svc, hsvc, hselect, fun svc' hsvc' => ?_⟩
      rw [← hcounts svc (hmem svc hsvc), ← hcounts svc' (hmem svc' hsvc')]
      exact hleast svc' hsvc'

/-! ### Instances of one key -/

def dbOn (port : ℤ) : Service := ⟨str "db", str "10.0.0.1", port, [], ∅, []⟩

theorem outstanding_open (before : List ConnCall) (h : before <+: [.increment (dbOn 55296)])
    (e : GoString × GoString × ℤ) : 0 ≤ outstanding before e := by
  rcases List.prefix_cons_iff.mp h with rfl | ⟨rest, rfl, hrest⟩
  · exact le_refl 0
  · rw [List.prefix_nil.mp hrest]
    simp only [outstanding, List.map_cons, List.map_nil, List.sum_cons, List.sum_nil, change]
    split_ifs <;> decide

/-- A connection to each of two instances, a selection, and the end of the first connection. -/
def twoDatabases : List ConnCall :=
  [.increment (dbOn 5432), .increment (dbOn 5433), .select [dbOn 5432, dbOn 5433],
    .decrement (dbOn 5432)]

theorem outstanding_twoDatabases (before : List ConnCall) (h : before <+: twoDatabases)
    (e : GoString × GoString × ℤ) : 0 ≤ outstanding before e ∧ outstanding before e < 3 := by
  have hlength := h.length_le
  rw [List.prefix_iff_eq_take.mp h]
  generalize before.length = n at hlength
  have hn : n ≤ 4 := hlength
  have hcases : n = 0 ∨ n = 1 ∨ n = 2 ∨ n = 3 ∨ n = 4 := by omega
  rcases hcases with rfl | rfl | rfl | rfl | rfl
  · exact ⟨le_refl 0, zero_lt_three⟩
  all_goals
    simp only [twoDatabases, List.take_zero, List.take_succ_cons, outstanding, List.map_cons,
      List.map_nil, List.sum_cons, List.sum_nil, change]
    split_ifs <;> decide

theorem counts_exact_one :
    NeverOver twoDatabases ∧
    (∀ before, before <+: twoDatabases → Apart {dbOn 5432, dbOn 5433} before) ∧
    ∀ before, before <+: twoDatabases →
      CountsExact {dbOn 5432, dbOn 5433} .leastConnections before := by
  have hover : NeverOver twoDatabases := fun before h e => (outstanding_twoDatabases before h e).1
  have hapart : ∀ before, before <+: twoDatabases → Apart {dbOn 5432, dbOn 5433} before := by
    intro before h
    refine ⟨fun svc hsvc svc' hsvc' hkey hne => ?_, fun svc _ => ?_⟩
    · -- the two keys differ in the port
      rcases hsvc with rfl | rfl <;> rcases hsvc' with rfl | rfl
      · exact absurd rfl hne
      · exact absurd hkey (by decide)
      · exact absurd hkey (by decide)
      · exact absurd rfl hne
    · exact (outstanding_twoDatabases before h svc.endpoint).2.trans (by decide)
  have huses : ∀ c ∈ twoDatabases, ∀ svc ∈ c.instances, svc ∈ ({dbOn 5432, dbOn 5433} : Set Service) := by
    simp [twoDatabases, instances]
  exact ⟨hover, hapart, (counts_exact_iff .leastConnections hover huses).mpr hapart⟩

/-- The two ports are no characters, and both are written as U+FFFD. -/
theorem surrogate_ports :
    ¬ ∀ (S : Set Service) (strategy : Strategy) (calls : List ConnCall),
      (∀ svc ∈ S, svc.Valid) → NeverOver calls →
      (∀ c ∈ calls, ∀ svc ∈ c.instances, svc ∈ S) →
      ∀ before, before <+: calls → CountsExact S strategy before := by
  intro h
  have hvalid : ∀ svc ∈ ({dbOn 55296, dbOn 55297} : Set Service), svc.Valid := by
    rintro svc (rfl | rfl)
    · decide
    · decide
  have hexact := h {dbOn 55296, dbOn 55297} .leastConnections [.increment (dbOn 55296)] hvalid
    outstanding_open (fun c hc svc hsvc => by
      rw [List.mem_singleton.mp hc] at hsvc
      exact .inl (List.mem_singleton.mp hsvc)) _ (List.prefix_refl _)
  have hcount := hexact.counts (dbOn 55297) (.inr rfl)
  exact absurd hcount (by decide)

end ConnCall

end Konsul
