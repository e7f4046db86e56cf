import Konsul.Lib.Strings
import Konsul.Loadbalancer.Connections
import Konsul.Loadbalancer.Overflow
import Konsul.Loadbalancer.RingHash
import Konsul.Store.QueryExact

/-!
# The entry points of the balancer

Each of them queries the store and hands what it found to a strategy function, chosen by its
own switch over the strategies. `StrategyCall` is such a call of a strategy function.
-/

namespace Konsul

open GoLib

structure SelectOptions where
  clientIP : GoString
  sessionKey : GoString
  clientRegion : GoString

/-- What selections work on: a balancer and the variables of the package. -/
structure Balancing where
  balancer : Balancer
  shared : Shared
  hashRings : HashRings

def extractRegionFromTags : List GoString → GoString
  | [] => []
  | tag :: tags =>
    if hasPrefix tag (str "region:") then trimPrefix tag (str "region:")
    else extractRegionFromTags tags

namespace Balancer

def selectIPHash (draw : ℕ) (instances : List Service) (clientIP : GoString) : Option Service :=
  if instances = [] ∨ clientIP = [] then selectRandom draw instances
  else instances[(fnv64a clientIP).toNat % instances.length]?

def selectLatencyBased (draw : ℕ) (instances : List Service) (clientRegion : GoString) :
    Option Service :=
  if instances = [] then some .zero
  else if clientRegion = [] then selectRandom draw instances
  else
    match instances.find? fun svc => extractRegionFromTags svc.tags = clientRegion with
    | some svc => some svc
    | none => selectRandom draw instances

end Balancer

namespace Balancing

variable (w : Balancing) (draw : ℕ) (m : StoreView)

def selectService (serviceTag : GoString) : Balancing × Option (Option Service) :=
  let r := w.balancer.selectService w.shared draw m serviceTag
  (⟨r.1.1, r.1.2, w.hashRings⟩, r.2)

def selectServiceByTags (tags : List GoString) : Balancing × Option (Option Service) :=
  let r := w.balancer.selectServiceByTags draw m tags
  (⟨r.1, w.shared, w.hashRings⟩, r.2)

def selectServiceByQuery (tags : List GoString) (metadata : GoMap GoString GoString) :
    Balancing × Option (Option Service) :=
  let r := w.balancer.selectServiceByQuery draw m tags metadata
  (⟨r.1, w.shared, w.hashRings⟩, r.2)

/-- The strategies without options query the store a second time. -/
def selectServiceWithOptions (serviceTag : GoString) (opts : SelectOptions) :
    Balancing × Option (Option Service) :=
  let instances := m.queryByTags [serviceTag]
  if instances = [] then (w, some none)
  else
    match w.balancer.strategy with
    | .ipHash => (w, (Balancer.selectIPHash draw instances opts.clientIP).map some)
    | .ringHash =>
      let r := Balancer.selectRingHash fnv64a w.hashRings draw serviceTag instances opts.sessionKey
      ({ w with hashRings := r.1 }, r.2.map some)
    | .latencyBased => (w, (Balancer.selectLatencyBased draw instances opts.clientRegion).map some)
    | _ => w.selectService draw m serviceTag

def selectServiceByTagsWithOptions (tags : List GoString) (opts : SelectOptions) :
    Balancing × Option (Option Service) :=
  match m.queryByTags tags with
  | [] => (w, some none)
  | first :: rest =>
    match w.balancer.strategy with
    | .ipHash => (w, (Balancer.selectIPHash draw (first :: rest) opts.clientIP).map some)
    | .ringHash =>
      let r := Balancer.selectRingHash fnv64a w.hashRings draw first.name (first :: rest)
        opts.sessionKey
      ({ w with hashRings := r.1 }, r.2.map some)
    | .latencyBased =>
      (w, (Balancer.selectLatencyBased draw (first :: rest) opts.clientRegion).map some)
    | _ => w.selectServiceByTags draw m tags

end Balancing

/-! ### Strategy functions -/

inductive StrategyFn where
  | selectRoundRobin
  | selectWeightedRoundRobin
  | selectRandom
  | selectWeightedRandom
  | selectLeastConnections
  | selectIPHash
  | selectRingHash
  | selectLatencyBased
  deriving DecidableEq

/-- A strategy function, the name under which it finds its state, and the instances. -/
structure StrategyCall where
  fn : StrategyFn
  serviceName : GoString
  instances : List Service

def StrategyCall.run (c : StrategyCall) (w : Balancing) (draw : ℕ) (opts : SelectOptions) :
    Balancing × Option Service :=
  match c.fn with
  | .selectRoundRobin =>
    let r := w.balancer.selectRoundRobin c.serviceName c.instances
    ({ w with balancer := r.1 }, r.2)
  | .selectWeightedRoundRobin =>
    let r := w.balancer.selectWeightedRoundRobin w.shared c.serviceName c.instances
    ({ w with balancer := r.1.1, shared := r.1.2 }, r.2)
  | .selectRandom => (w, Balancer.selectRandom draw c.instances)
  | .selectWeightedRandom => (w, Balancer.selectWeightedRandom draw c.instances)
  | .selectLeastConnections =>
    let r := w.balancer.selectLeastConnections c.instances
    ({ w with balancer := r.1 }, r.2)
  | .selectIPHash => (w, Balancer.selectIPHash draw c.instances opts.clientIP)
  | .selectRingHash =>
    let r := Balancer.selectRingHash fnv64a w.hashRings draw c.serviceName c.instances
      opts.sessionKey
    ({ w with hashRings := r.1 }, r.2)
  | .selectLatencyBased => (w, Balancer.selectLatencyBased draw c.instances opts.clientRegion)

inductive EntryPoint where
  | service
  | byTags
  | byQuery
  | withOptions
  | byTagsWithOptions
  deriving DecidableEq

namespace EntryPoint

/-- The selection of the services with one tag. -/
def select (e : EntryPoint) (w : Balancing) (draw : ℕ) (m : StoreView) (t : GoString)
    (opts : SelectOptions) : Balancing × Option (Option Service) :=
  match e with
  | .service => w.selectService draw m t
  | .byTags => w.selectServiceByTags draw m [t]
  | .byQuery => w.selectServiceByQuery draw m [t] ∅
  | .withOptions => w.selectServiceWithOptions draw m t opts
  | .byTagsWithOptions => w.selectServiceByTagsWithOptions draw m [t] opts

/-- Where the switch of the entry point leads. -/
def fn : EntryPoint → Strategy → StrategyFn
  | _, .random => .selectRandom
  | _, .leastConnections => .selectLeastConnections
  | .service, .weightedRandom => .selectWeightedRandom
  | .service, .weightedRoundRobin => .selectWeightedRoundRobin
  | .withOptions, .weightedRandom => .selectWeightedRandom
  | .withOptions, .weightedRoundRobin => .selectWeightedRoundRobin
  | .withOptions, .ipHash => .selectIPHash
  | .withOptions, .ringHash => .selectRingHash
  | .withOptions, .latencyBased => .selectLatencyBased
  | .byTagsWithOptions, .ipHash => .selectIPHash
  | .byTagsWithOptions, .ringHash => .selectRingHash
  | .byTagsWithOptions, .latencyBased => .selectLatencyBased
  | _, _ => .selectRoundRobin

/-- The name that the entry point passes on: the tag, or that of the first service. -/
def stateName (e : EntryPoint) (t : GoString) (instances : List Service) : GoString :=
  match e with
  | .service => t
  | .withOptions => t
  | _ => (instances.head?.map Service.name).getD []

/-- The call that the entry point comes to; there is none without instances. -/
def call (e : EntryPoint) (s : Strategy) (m : StoreView) (t : GoString) : Option StrategyCall :=
  let instances := m.queryByTags [t]
  if instances = [] then none else some ⟨e.fn s, e.stateName t instances, instances⟩

/-- What comes of a call. -/
def outcome (w : Balancing) (draw : ℕ) (opts : SelectOptions) :
    Option StrategyCall → Balancing × Option (Option Service)
  | none => (w, some none)
  | some c =>
    let r := c.run w draw opts
    (r.1, r.2.map some)

/-- Two entry points choose by one function over the same instances. -/
def Agree (e e' : EntryPoint) (s : Strategy) (m : StoreView) (t : GoString) : Prop :=
  (e.call s m t).map (fun c => (c.fn, c.instances)) =
    (e'.call s m t).map fun c => (c.fn, c.instances)

variable (w : Balancing) (draw : ℕ) (m : StoreView) (t : GoString) (opts : SelectOptions)

theorem call_of_found (e : EntryPoint) (s : Strategy) {first : Service} {rest : List Service}
    (h : m.queryByTags [t] = first :: rest) :
    e.call s m t = some ⟨e.fn s, e.stateName t (first :: rest), first :: rest⟩ := by
  rw [call, h]
  exact if_neg (List.cons_ne_nil first rest)

theorem queryByTagsAndMetadata_empty :
    m.queryByTagsAndMetadata [t] ∅ = m.queryByTags [t] := by
  rw [StoreView.queryByTagsAndMetadata, ServiceTable.queryByTagsAndMetadata,
    if_neg (List.cons_ne_nil t [])]
  exact if_pos rfl

/-- An entry point does what the call of its strategy function does. -/
theorem select_eq (e : EntryPoint) :
    e.select w draw m t opts = outcome w draw opts (e.call w.balancer.strategy m t) := by
  cases hfound : m.queryByTags [t] with
  | nil =>
    have hnone : e.call w.balancer.strategy m t = none := by
      rw [call, hfound]
      rfl
    rw [hnone]
    cases e with
    | service => simp [select, Balancing.selectService, Balancer.selectService, hfound, outcome]
    | byTags =>
      simp [select, Balancing.selectServiceByTags, Balancer.selectServiceByTags, hfound, outcome,
        Balancer.selectFound]
    | byQuery =>
      simp [select, Balancing.selectServiceByQuery, Balancer.selectServiceByQuery, hfound, outcome,
        Balancer.selectFound, queryByTagsAndMetadata_empty]
    | withOptions => simp [select, Balancing.selectServiceWithOptions, hfound, outcome]
    | byTagsWithOptions => simp [select, Balancing.selectServiceByTagsWithOptions, hfound, outcome]
  | cons first rest =>
    rw [call_of_found m t e w.balancer.strategy hfound]
    obtain ⟨⟨strategy, counters, connections⟩, shared, hashRings⟩ := w
    cases e with
    | service =>
      simp only [select, Balancing.selectService, Balancer.selectService, hfound,
        if_neg (List.cons_ne_nil first rest)]
      cases strategy <;> rfl
    | byTags =>
      simp only [select, Balancing.selectServiceByTags, Balancer.selectServiceByTags, hfound]
      cases strategy <;> rfl
    | byQuery =>
      simp only [select, Balancing.selectServiceByQuery, Balancer.selectServiceByQuery,
        queryByTagsAndMetadata_empty, hfound]
      cases strategy <;> rfl
    | withOptions =>
      simp only [select, Balancing.selectServiceWithOptions, Balancing.selectService,
        Balancer.selectService, hfound, if_neg (List.cons_ne_nil first rest)]
      cases strategy <;> rfl
    | byTagsWithOptions =>
      simp only [select, Balancing.selectServiceByTagsWithOptions, Balancing.selectServiceByTags,
        Balancer.selectServiceByTags, hfound]
      cases strategy <;> rfl

theorem agree_iff (e e' : EntryPoint) (s : Strategy) :
    Agree e e' s m t ↔ m.queryByTags [t] = [] ∨ e.fn s = e'.fn s := by
  cases hfound : m.queryByTags [t] with
  | nil => simp [Agree, call, hfound]
  | cons first rest =>
    rw [Agree, call_of_found m t e s hfound, call_of_found m t e' s hfound]
    simp

/-- The strategies that every switch has, or leaves to its default. -/
theorem fn_eq_iff (s : Strategy) :
    (∀ e e' : EntryPoint, e.fn s = e'.fn s) ↔
      s ∉ [.weightedRoundRobin, .weightedRandom, .ipHash, .ringHash, .latencyBased] := by
  constructor
  · intro h hmem
    have hpair := h .withOptions .byTags
    simp only [List.mem_cons, List.not_mem_nil, or_false] at hmem
    rcases hmem with rfl | rfl | rfl | rfl | rfl <;> exact absurd hpair (by decide)
  · intro h e e'
    cases s with
    | weightedRoundRobin => simp at h
    | weightedRandom => simp at h
    | ipHash => simp at h
    | ringHash => simp at h
    | latencyBased => simp at h
    | roundRobin => cases e <;> cases e' <;> rfl
    | random => cases e <;> cases e' <;> rfl
    | leastConnections => cases e <;> cases e' <;> rfl
    | other name => cases e <;> cases e' <;> rfl

/-- The entry points agree where there is nothing to select, and under the strategies that each
of them has or that none of them has. -/
theorem entry_points_agree_iff :
    (∀ (e : EntryPoint) (draw : ℕ) (opts : SelectOptions),
      e.select w draw m t opts = outcome w draw opts (e.call w.balancer.strategy m t)) ∧
    ((∀ e e' : EntryPoint, Agree e e' w.balancer.strategy m t) ↔
      m.queryByTags [t] = [] ∨ w.balancer.strategy ∉
        [.weightedRoundRobin, .weightedRandom, .ipHash, .ringHash, .latencyBased]) := by
  refine ⟨fun e draw opts => select_eq w draw m t opts e, ?_⟩
  rw [← fn_eq_iff]
  constructor
  · intro h
    by_cases hnone : m.queryByTags [t] = []
    · exact .inl hnone
    · exact .inr fun e e' => ((agree_iff m t e e' _).mp (h e e')).resolve_left hnone
  · rintro (hnone | hfn) e e'
    · exact (agree_iff m t e e' _).mpr (.inl hnone)
    · exact (agree_iff m t e e' _).mpr (.inr (hfn e e'))

/-! ### Weights that are passed over -/

def weighing (name weight : GoString) : Service :=
  ⟨name, str "10.0.0.1", 8080, [str "service:api"],
    (∅ : GoMap GoString GoString).insert (str "weight") weight, []⟩

/-- Two instances, of which the first is to get nine requests of ten. -/
def nineOfTen : StoreView :=
  let table := ((⟨∅, ∅, ∅, 0⟩ : ServiceTable).put (weighing (str "api-1") (str "9")) 10).put
    (weighing (str "api-2") (str "1")) 10
  ⟨table, 0, 0, GoMap.sorted table.data, GoMap.sorted, GoMap.sorted⟩

/-- The selection by tags goes round where the one by tag weighs: with a draw of 9, `SelectService`
takes the second instance and `SelectServiceByTags` the first. -/
theorem weights_ignored :
    ¬ ∀ (w : Balancing) (m : StoreView) (t : GoString) (e e' : EntryPoint),
      Agree e e' w.balancer.strategy m t := by
  intro h
  have hagree := h ⟨Balancer.new .weightedRandom, ⟨∅⟩, ∅⟩ nineOfTen (str "service:api") .service
    .byTags
  rw [agree_iff] at hagree
  rcases hagree with hnone | hfn
  · exact absurd (congrArg List.length hnone) (by decide +kernel)
  · exact absurd hfn (by decide)

example :
    let w : Balancing := ⟨Balancer.new .weightedRandom, ⟨∅⟩, ∅⟩
    let opts : SelectOptions := ⟨[], [], []⟩
    (EntryPoint.service.select w 9 nineOfTen (str "service:api") opts).2 ≠
      (EntryPoint.byTags.select w 9 nineOfTen (str "service:api") opts).2 := by
  decide +kernel

end EntryPoint

/-! ### Every selection -/

/-- A call of a method that selects. -/
inductive Selecting where
  | service (serviceTag : GoString)
  | byTags (tags : List GoString)
  | byMetadata (filters : GoMap GoString GoString)
  | byQuery (tags : List GoString) (metadata : GoMap GoString GoString)
  | withOptions (serviceTag : GoString) (opts : SelectOptions)
  | byTagsWithOptions (tags : List GoString) (opts : SelectOptions)

def Balancing.selectServiceByMetadata (w : Balancing) (draw : ℕ) (m : StoreView)
    (filters : GoMap GoString GoString) : Balancing × Option (Option Service) :=
  let r := w.balancer.selectServiceByMetadata draw m filters
  (⟨r.1, w.shared, w.hashRings⟩, r.2)

namespace Selecting

def select (q : Selecting) (w : Balancing) (draw : ℕ) (m : StoreView) :
    Balancing × Option (Option Service) :=
  match q with
  | service serviceTag => w.selectService draw m serviceTag
  | byTags tags => w.selectServiceByTags draw m tags
  | byMetadata filters => w.selectServiceByMetadata draw m filters
  | byQuery tags metadata => w.selectServiceByQuery draw m tags metadata
  | withOptions serviceTag opts => w.selectServiceWithOptions draw m serviceTag opts
  | byTagsWithOptions tags opts => w.selectServiceByTagsWithOptions draw m tags opts

def find (q : Selecting) (m : StoreView) : List Service :=
  match q with
  | service serviceTag => m.queryByTags [serviceTag]
  | byTags tags => m.queryByTags tags
  | byMetadata filters => m.queryByMetadata filters
  | byQuery tags metadata => m.queryByTagsAndMetadata tags metadata
  | withOptions serviceTag _ => m.queryByTags [serviceTag]
  | byTagsWithOptions tags _ => m.queryByTags tags

/-- The switch over the strategies. -/
def entryPoint : Selecting → EntryPoint
  | service _ => .service
  | byTags _ => .byTags
  | byMetadata _ => .byQuery
  | byQuery _ _ => .byQuery
  | withOptions _ _ => .withOptions
  | byTagsWithOptions _ _ => .byTagsWithOptions

def options : Selecting → SelectOptions
  | withOptions _ opts => opts
  | byTagsWithOptions _ opts => opts
  | _ => ⟨[], [], []⟩

def stateName (q : Selecting) (found : List Service) : GoString :=
  match q with
  | service serviceTag => serviceTag
  | withOptions serviceTag _ => serviceTag
  | _ => (found.head?.map Service.name).getD []

/-- The call of a strategy function that the selection comes to. -/
def call (q : Selecting) (s : Strategy) (m : StoreView) : Option StrategyCall :=
  if q.find m = [] then none
  else some ⟨q.entryPoint.fn s, q.stateName (q.find m), q.find m⟩

theorem select_eq (q : Selecting) (w : Balancing) (draw : ℕ) (m : StoreView) :
    q.select w draw m = EntryPoint.outcome w draw q.options (q.call w.balancer.strategy m) := by
  cases hfound : q.find m with
  | nil =>
    rw [call, if_pos hfound]
    show _ = (w, some none)
    cases q with
    | service t =>
      rw [find] at hfound
      simp only [select, Balancing.selectService, Balancer.selectService, if_pos hfound]
    | byTags tags =>
      rw [find] at hfound
      simp only [select, Balancing.selectServiceByTags, Balancer.selectServiceByTags, hfound,
        Balancer.selectFound]
    | byMetadata filters =>
      rw [find] at hfound
      simp only [select, Balancing.selectServiceByMetadata, Balancer.selectServiceByMetadata, hfound,
        Balancer.selectFound]
    | byQuery tags metadata =>
      rw [find] at hfound
      simp only [select, Balancing.selectServiceByQuery, Balancer.selectServiceByQuery, hfound,
        Balancer.selectFound]
    | withOptions t opts =>
      rw [find] at hfound
      simp only [select, Balancing.selectServiceWithOptions, if_pos hfound]
    | byTagsWithOptions tags opts =>
      rw [find] at hfound
      simp only [select, Balancing.selectServiceByTagsWithOptions, hfound]
  | cons first rest =>
    have hne : q.find m ≠ [] := hfound ▸ List.cons_ne_nil first rest
    rw [call, if_neg hne]
    obtain ⟨⟨strategy, counters, connections⟩, shared, hashRings⟩ := w
    cases q with
    | service t =>
      rw [find] at hne
      simp only [select, Balancing.selectService, Balancer.selectService, if_neg hne]
      cases strategy <;> rfl
    | byTags tags =>
      simp only [select, Balancing.selectServiceByTags, Balancer.selectServiceByTags, stateName, hfound]
      rw [find] at hfound
      rw [hfound]
      cases strategy <;> rfl
    | byMetadata filters =>
      simp only [select, Balancing.selectServiceByMetadata, Balancer.selectServiceByMetadata, stateName, hfound]
      rw [find] at hfound
      rw [hfound]
      cases strategy <;> rfl
    | byQuery tags metadata =>
      simp only [select, Balancing.selectServiceByQuery, Balancer.selectServiceByQuery, stateName, hfound]
      rw [find] at hfound
      rw [hfound]
      cases strategy <;> rfl
    | withOptions t opts =>
      rw [find] at hne
      simp only [select, Balancing.selectServiceWithOptions, Balancing.selectService,
        Balancer.selectService, if_neg hne]
      cases strategy <;> rfl
    | byTagsWithOptions tags opts =>
      simp only [select, Balancing.selectServiceByTagsWithOptions, Balancing.selectServiceByTags,
        Balancer.selectServiceByTags, stateName, hfound]
      rw [find] at hfound
      rw [hfound]
      cases strategy <;> rfl

/-! #### What the queries find -/

/-- What is asked of a service. -/
def Wants (q : Selecting) (svc : Service) : Prop :=
  match q with
  | service serviceTag => ServiceTable.Tagged [serviceTag] svc
  | byTags tags => ServiceTable.Tagged tags svc
  | byMetadata filters => ServiceTable.Carries filters svc
  | byQuery tags metadata => ServiceTable.Tagged tags svc ∧ ServiceTable.Carries metadata svc
  | withOptions serviceTag _ => ServiceTable.Tagged [serviceTag] svc
  | byTagsWithOptions tags _ => ServiceTable.Tagged tags svc

/-- The reading of the clock that the result goes by. -/
def clock (q : Selecting) (m : StoreView) : Time :=
  match q with
  | byQuery tags metadata => if tags = [] ∨ metadata = ∅ then m.now else m.later
  | _ => m.now

/-- A service that is registered, has not expired and is as asked for. -/
def Available (q : Selecting) (m : StoreView) (svc : Service) : Prop :=
  ∃ name e, m.table.data.lookup name = some e ∧ q.clock m < e.expiresAt ∧ e.service = svc ∧ q.Wants svc

theorem mem_find_iff {m : StoreView} (hindexed : m.table.Indexed) (hclock : m.now ≤ m.later) (q : Selecting)
    (svc : Service) : svc ∈ q.find m ↔ q.Available m svc := by
  cases q with
  | service t => exact ServiceTable.mem_queryByTags_iff hindexed.mirror m.now [t] m.range svc
  | byTags tags => exact ServiceTable.mem_queryByTags_iff hindexed.mirror m.now tags m.range svc
  | byMetadata filters =>
    exact ServiceTable.mem_queryByMetadata_iff hindexed.mirror m.now filters _ _ m.range svc
  | withOptions t opts => exact ServiceTable.mem_queryByTags_iff hindexed.mirror m.now [t] m.range svc
  | byTagsWithOptions tags opts =>
    exact ServiceTable.mem_queryByTags_iff hindexed.mirror m.now tags m.range svc
  | byQuery tags metadata =>
    show svc ∈ m.table.queryByTagsAndMetadata m.now m.later tags metadata _ _ m.range ↔
      ∃ name e, m.table.data.lookup name = some e ∧
        (if tags = [] ∨ metadata = ∅ then m.now else m.later) < e.expiresAt ∧ e.service = svc ∧
          ServiceTable.Tagged tags svc ∧ ServiceTable.Carries metadata svc
    by_cases htags : tags = []
    · have hall : ServiceTable.Tagged tags svc := by
        rw [htags]
        exact fun _ htag => absurd htag List.not_mem_nil
      rw [if_pos (Or.inl htags), ServiceTable.queryByTagsAndMetadata, if_pos htags,
        ServiceTable.mem_queryByMetadata_iff hindexed.mirror]
      simp only [hall, true_and]
    · by_cases hmetadata : metadata = ∅
      · have hall : ServiceTable.Carries metadata svc := by
          rw [hmetadata]
          intro key value hpair
          cases hpair
        have hcard : metadata.keys.card = 0 := by
          rw [hmetadata]
          rfl
        rw [if_pos (Or.inr hmetadata), ServiceTable.queryByTagsAndMetadata, if_neg htags, if_pos hcard,
          ServiceTable.mem_queryByTags_iff hindexed.mirror]
        simp only [hall, and_true]
      · have hanswers := hindexed.queryByTagsAndMetadata_answers hclock htags hmetadata
          (m.first metadata) (m.rest metadata) m.range
        rw [if_neg (not_or.mpr ⟨htags, hmetadata⟩), hanswers.mem_iff]
        exact exists_congr fun name => exists_congr fun e => and_congr_right fun _ => and_left_comm

end Selecting

/-! #### What the strategy functions return -/

namespace Balancer

variable {instances : List Service} {svc : Service}

theorem mem_of_selectRandom {draw : ℕ} (h : selectRandom draw instances = some svc) : svc ∈ instances := by
  obtain ⟨index, -, hget⟩ := Option.bind_eq_some_iff.mp h
  exact List.mem_of_getElem? hget

theorem selectRandom_ne_none (draw : ℕ) (hne : instances ≠ []) : selectRandom draw instances ≠ none := by
  have hlength : 0 < instances.length := List.length_pos_iff.mpr hne
  rw [selectRandom_eq draw hne, List.getElem?_eq_getElem (Nat.mod_lt draw hlength)]
  exact Option.some_ne_none _

theorem selectRoundRobin_ne_none (b : Balancer) (serviceName : GoString) (hne : instances ≠ []) :
    (b.selectRoundRobin serviceName instances).2 ≠ none := by
  have hlength : 0 < instances.length := List.length_pos_iff.mpr hne
  show instances[_ % instances.length]? ≠ none
  rw [List.getElem?_eq_getElem (Nat.mod_lt _ hlength)]
  exact Option.some_ne_none _

/-- The weights differ, and their sum as the code takes it is not positive. -/
def Overflows (instances : List Service) : Prop :=
  allEqual (instances.map positiveWeight) = false ∧ totalWeight (instances.map positiveWeight) ≤ 0

theorem selectWeightedRandom_eq_none_iff (draw : ℕ) (hne : instances ≠ []) :
    selectWeightedRandom draw instances = none ↔ Overflows instances := by
  have hlength : 0 < instances.length := List.length_pos_iff.mpr hne
  rw [selectWeightedRandom, if_neg hne, Overflows]
  dsimp only
  cases hequal : allEqual (instances.map positiveWeight) with
  | true => simpa using selectRandom_ne_none draw hne
  | false =>
    by_cases htotal : 0 < totalWeight (instances.map positiveWeight)
    · have hindex : (passedAt (draw % totalWeight (instances.map positiveWeight)) 0
          (instances.map positiveWeight)).getD (instances.length - 1) < instances.length := by
        cases hpassed : passedAt (draw % totalWeight (instances.map positiveWeight)) 0
            (instances.map positiveWeight) with
        | none =>
          show instances.length - 1 < instances.length
          omega
        | some i =>
          have hlt := passedAt_lt hpassed
          rw [List.length_map] at hlt
          exact hlt
      rw [intn, if_pos htotal, Option.bind_some, List.getElem?_eq_getElem hindex]
      simp [htotal]
    · rw [intn, if_neg htotal]
      simp [not_lt.mp htotal]

theorem mem_of_selectWeightedRandom {draw : ℕ} (hne : instances ≠ [])
    (h : selectWeightedRandom draw instances = some svc) : svc ∈ instances := by
  rw [selectWeightedRandom, if_neg hne] at h
  dsimp only at h
  split_ifs at h
  · exact mem_of_selectRandom h
  · obtain ⟨randVal, -, hget⟩ := Option.bind_eq_some_iff.mp h
    exact List.mem_of_getElem? hget

theorem length_currentWeights (shared : Shared) (serviceName : GoString) (size : ℕ) :
    (currentWeights shared serviceName size).length = size := by
  unfold currentWeights
  cases hstate : (shared.weightStates.lookup (weightKey serviceName)).filter
      fun state => state.length = size with
  | none => exact List.length_replicate
  | some state => exact of_decide_eq_true (Option.filter_eq_some_iff.mp hstate).2

theorem mem_of_selectWeightedRoundRobin {b : Balancer} {shared : Shared} {serviceName : GoString}
    (hne : instances ≠ []) (h : (b.selectWeightedRoundRobin shared serviceName instances).2 = some svc) :
    svc ∈ instances := by
  rw [selectWeightedRoundRobin, if_neg hne] at h
  dsimp only at h
  split_ifs at h
  · exact List.mem_of_getElem? h
  · exact List.mem_of_getElem? h

theorem selectWeightedRoundRobin_ne_none (b : Balancer) (shared : Shared) (serviceName : GoString)
    (hne : instances ≠ []) : (b.selectWeightedRoundRobin shared serviceName instances).2 ≠ none := by
  have hlength : 0 < instances.length := List.length_pos_iff.mpr hne
  rw [selectWeightedRoundRobin, if_neg hne]
  dsimp only
  split_ifs
  · exact selectRoundRobin_ne_none b serviceName hne
  · have hraised : (raise (currentWeights shared serviceName instances.length)
        (instances.map extractWeight)).length = instances.length := by
      rw [raise, List.length_zipWith, length_currentWeights, List.length_map, Nat.min_self]
    have hindex := maxIdx_lt (hraised.symm ▸ hlength)
    rw [hraised] at hindex
    dsimp only
    rw [List.getElem?_eq_getElem hindex]
    exact Option.some_ne_none _

theorem mem_of_selectIPHash {draw : ℕ} {clientIP : GoString}
    (h : selectIPHash draw instances clientIP = some svc) : svc ∈ instances := by
  unfold selectIPHash at h
  split_ifs at h
  · exact mem_of_selectRandom h
  · exact List.mem_of_getElem? h

theorem selectIPHash_ne_none (draw : ℕ) (clientIP : GoString) (hne : instances ≠ []) :
    selectIPHash draw instances clientIP ≠ none := by
  have hlength : 0 < instances.length := List.length_pos_iff.mpr hne
  unfold selectIPHash
  split_ifs
  · exact selectRandom_ne_none draw hne
  · rw [List.getElem?_eq_getElem (Nat.mod_lt _ hlength)]
    exact Option.some_ne_none _

theorem mem_of_selectLatencyBased {draw : ℕ} {clientRegion : GoString} (hne : instances ≠ [])
    (h : selectLatencyBased draw instances clientRegion = some svc) : svc ∈ instances := by
  rw [selectLatencyBased, if_neg hne] at h
  split_ifs at h
  · exact mem_of_selectRandom h
  · split at h
    · rename_i found hfound
      cases h
      exact List.mem_of_find?_eq_some hfound
    · exact mem_of_selectRandom h

theorem selectLatencyBased_ne_none (draw : ℕ) (clientRegion : GoString) (hne : instances ≠ []) :
    selectLatencyBased draw instances clientRegion ≠ none := by
  rw [selectLatencyBased, if_neg hne]
  split_ifs
  · exact selectRandom_ne_none draw hne
  · split
    · exact Option.some_ne_none _
    · exact selectRandom_ne_none draw hne

end Balancer

/-! #### Rings -/

/-- Each point of a ring has an instance, with an index below the number of points. -/
structure HashRing.Sound (ring : HashRing) : Prop where
  nonempty : ring.nodes ≠ []
  sorted : ring.nodes.Pairwise (· ≤ ·)
  below : ∀ p ∈ ring.nodes, ∃ i, ring.instances.lookup p = some i ∧ i < ring.instances.keys.card

theorem HashRing.Sound.instanceIdx {ring : HashRing} (h : ring.Sound) (hashValue : UInt64) :
    ∃ i, ring.instanceIdx hashValue = some i ∧ i < ring.instances.keys.card := by
  obtain ⟨p, hp, hnext⟩ := Circle.next_indexOf h.sorted h.nonempty hashValue
  obtain ⟨i, hlookup, hlt⟩ := h.below p hnext.1
  refine ⟨i, ?_, hlt⟩
  rw [HashRing.instanceIdx, hp, Option.map_some, hlookup]
  rfl

/-- More instances than different points: the texts of their virtual nodes are the same, or have
one hash. -/
def Crowded (hash : GoString → UInt64) (instances : List Service) : Prop :=
  (newRing hash instances).instances.keys.card < instances.length

section

variable {hash : GoString → UInt64} {instances : List Service}

theorem mem_nodes_newRing (p : UInt64) : p ∈ (newRing hash instances).nodes ↔
    p ∈ (virtualNodes hash instances).map Prod.fst := List.mem_mergeSort

/-- A point has the index of an instance. -/
theorem lookup_newRing {p : UInt64} (hp : p ∈ (virtualNodes hash instances).map Prod.fst) :
    ∃ i, (newRing hash instances).instances.lookup p = some i ∧ i < instances.length := by
  obtain ⟨⟨svc, i⟩, howner⟩ := Circle.exists_owner hp
  obtain ⟨before, after, heq, -⟩ := Circle.owner_eq_some_iff.mp howner
  have hnode : (p, svc, i) ∈ virtualNodes hash instances := by
    rw [heq]
    simp
  have hget := getElem_of_mem_virtualNodes hnode
  refine ⟨i, ?_, (List.getElem?_eq_some_iff.mp hget).1⟩
  have hfold := Circle.lookup_foldl_insert ((virtualNodes hash instances).map fun e => (e.1, e.2.2)) ∅ p
  rw [List.foldl_map, Circle.owner_map Prod.snd howner] at hfold
  exact hfold

/-- It is enough that the instances differ in the points of their first virtual nodes. -/
theorem not_crowded (h : (instances.map fun svc => hash (nodeKey svc 0)).Nodup) : ¬ Crowded hash instances := by
  have hsub : (instances.map fun svc => hash (nodeKey svc 0)).toFinset ⊆
      (newRing hash instances).instances.keys := by
    intro p hp
    obtain ⟨svc, hsvc, rfl⟩ := List.mem_map.mp (List.mem_toFinset.mp hp)
    have hpoint : (hash (nodeKey svc 0), svc) ∈ points hash instances :=
      List.mem_flatMap.mpr ⟨svc, hsvc, List.mem_map.mpr ⟨0, by decide, rfl⟩⟩
    rw [← points_eq] at hpoint
    obtain ⟨e, he, heq⟩ := List.mem_map.mp hpoint
    have hnode : hash (nodeKey svc 0) ∈ (virtualNodes hash instances).map Prod.fst :=
      List.mem_map.mpr ⟨e, he, (Prod.mk.inj heq).1⟩
    obtain ⟨i, hlookup, -⟩ := lookup_newRing hnode
    rw [Finmap.mem_keys, ← Finmap.lookup_isSome, hlookup]
    rfl
  have hle := Finset.card_le_card hsub
  rw [List.toFinset_card_of_nodup h, List.length_map] at hle
  exact not_lt.mpr hle

theorem sound_newRing (hne : instances ≠ []) (h : ¬ Crowded hash instances) :
    (newRing hash instances).Sound := by
  constructor
  · obtain ⟨e, he⟩ := List.exists_mem_of_ne_nil _ (virtualNodes_ne_nil hash hne)
    exact List.ne_nil_of_mem ((mem_nodes_newRing e.1).mpr (List.mem_map_of_mem he))
  · exact (List.pairwise_mergeSort (by simpa using fun a b c => UInt64.le_trans)
      (by simpa using UInt64.le_total) _).imp of_decide_eq_true
  · intro p hp
    obtain ⟨i, hlookup, hlt⟩ := lookup_newRing ((mem_nodes_newRing p).mp hp)
    exact ⟨i, hlookup, hlt.trans_le (not_lt.mp h)⟩

/-- Every ring that is kept is sound. -/
def HashRings.Sound (hashRings : HashRings) : Prop :=
  ∀ name ring, hashRings.lookup name = some ring → ring.Sound

theorem HashRings.Sound.getOrCreateRing {hashRings : HashRings} (h : hashRings.Sound)
    (serviceName : GoString) (hne : instances ≠ []) (hroom : ¬ Crowded hash instances) :
    (getOrCreateRing hash hashRings serviceName instances).1.Sound := by
  unfold Konsul.getOrCreateRing
  split
  · exact h
  · intro name ring hlookup
    rw [GoMap.lookup_insert_ite] at hlookup
    split_ifs at hlookup
    · cases hlookup
      exact sound_newRing hne hroom
    · exact h name ring hlookup

theorem selectRingHash_ne_none {hashRings : HashRings} (h : hashRings.Sound) (draw : ℕ)
    (serviceName sessionKey : GoString) (hne : instances ≠ []) :
    (Balancer.selectRingHash hash hashRings draw serviceName instances sessionKey).2 ≠ none := by
  unfold Balancer.selectRingHash
  split_ifs
  · exact Balancer.selectRandom_ne_none draw hne
  · unfold Konsul.getOrCreateRing
    cases hkept : (hashRings.lookup serviceName).filter fun ring =>
        ring.instances.keys.card = instances.length with
    | none =>
      obtain ⟨i, svc, hidx, hget, -⟩ := instanceIdx_newRing hash hne (hash sessionKey)
      dsimp only
      rw [hidx, Option.bind_some, hget]
      exact Option.some_ne_none _
    | some ring =>
      obtain ⟨hlookup, hcard⟩ := Option.filter_eq_some_iff.mp hkept
      obtain ⟨i, hidx, hlt⟩ := (h serviceName ring hlookup).instanceIdx (hash sessionKey)
      rw [of_decide_eq_true hcard] at hlt
      dsimp only
      rw [hidx, Option.bind_some, List.getElem?_eq_getElem hlt]
      exact Option.some_ne_none _

theorem mem_of_selectRingHash {hashRings : HashRings} {draw : ℕ} {serviceName sessionKey : GoString}
    {svc : Service}
    (h : (Balancer.selectRingHash hash hashRings draw serviceName instances sessionKey).2 = some svc) :
    svc ∈ instances := by
  unfold Balancer.selectRingHash at h
  split_ifs at h
  · exact Balancer.mem_of_selectRandom h
  · obtain ⟨i, -, hget⟩ := Option.bind_eq_some_iff.mp h
    exact List.mem_of_getElem? hget

end

/-! #### Runs -/

namespace StrategyCall

variable (c : StrategyCall) (w : Balancing) (draw : ℕ) (opts : SelectOptions)

theorem mem_of_run (hne : c.instances ≠ []) {svc : Service} (h : (c.run w draw opts).2 = some svc) :
    svc ∈ c.instances := by
  obtain ⟨fn, serviceName, instances⟩ := c
  cases fn with
  | selectRoundRobin => exact List.mem_of_getElem? h
  | selectWeightedRoundRobin => exact Balancer.mem_of_selectWeightedRoundRobin hne h
  | selectRandom => exact Balancer.mem_of_selectRandom h
  | selectWeightedRandom => exact Balancer.mem_of_selectWeightedRandom hne h
  | selectLeastConnections => exact List.mem_of_getElem? h
  | selectIPHash => exact Balancer.mem_of_selectIPHash h
  | selectRingHash => exact mem_of_selectRingHash h
  | selectLatencyBased => exact Balancer.mem_of_selectLatencyBased hne h

theorem run_eq_none_iff (hne : c.instances ≠ []) (hrings : w.hashRings.Sound) :
    (c.run w draw opts).2 = none ↔ c.fn = .selectWeightedRandom ∧ Balancer.Overflows c.instances := by
  obtain ⟨fn, serviceName, instances⟩ := c
  have hother {o : Option Service} (ho : o ≠ none) (hfn : fn ≠ .selectWeightedRandom) :
      o = none ↔ fn = .selectWeightedRandom ∧ Balancer.Overflows instances :=
    ⟨fun h => absurd h ho, fun h => absurd h.1 hfn⟩
  cases fn with
  | selectRoundRobin => exact hother (w.balancer.selectRoundRobin_ne_none serviceName hne) (by decide)
  | selectWeightedRoundRobin =>
    exact hother (w.balancer.selectWeightedRoundRobin_ne_none w.shared serviceName hne) (by decide)
  | selectRandom => exact hother (Balancer.selectRandom_ne_none draw hne) (by decide)
  | selectWeightedRandom =>
    show Balancer.selectWeightedRandom draw instances = none ↔ _
    rw [Balancer.selectWeightedRandom_eq_none_iff draw hne]
    exact (and_iff_right rfl).symm
  | selectLeastConnections =>
    obtain ⟨svc, -, hsvc, -⟩ := w.balancer.selectLeastConnections_least hne
    exact hother (o := (w.balancer.selectLeastConnections instances).2) (hsvc ▸ Option.some_ne_none svc)
      (by decide)
  | selectIPHash => exact hother (Balancer.selectIPHash_ne_none draw opts.clientIP hne) (by decide)
  | selectRingHash =>
    exact hother (selectRingHash_ne_none hrings draw serviceName opts.sessionKey hne) (by decide)
  | selectLatencyBased =>
    exact hother (Balancer.selectLatencyBased_ne_none draw opts.clientRegion hne) (by decide)

theorem sound_run (hne : c.instances ≠ []) (hrings : w.hashRings.Sound)
    (hroom : c.fn = .selectRingHash → ¬ Crowded fnv64a c.instances) :
    (c.run w draw opts).1.hashRings.Sound := by
  obtain ⟨fn, serviceName, instances⟩ := c
  cases fn with
  | selectRingHash =>
    show (Balancer.selectRingHash fnv64a w.hashRings draw serviceName instances opts.sessionKey).1.Sound
    unfold Balancer.selectRingHash
    split_ifs
    · exact hrings
    · exact hrings.getOrCreateRing serviceName hne (hroom rfl)
  | _ => exact hrings

end StrategyCall

namespace Balancing

inductive Event where
  | select (q : Selecting) (m : StoreView) (draw : ℕ)
  | setStrategy (strategy : Strategy)
  | incrementConnections (svc : Service)
  | decrementConnections (svc : Service)

def start (strategy : Strategy) : Balancing := ⟨.new strategy, ⟨∅⟩, ∅⟩

def machine : Machine Balancing Event Unit where
  step w
    | .select q m draw => ((q.select w draw m).1, ())
    | .setStrategy strategy => ({ w with balancer := { w.balancer with strategy } }, ())
    | .incrementConnections svc => ({ w with balancer := w.balancer.incrementConnections svc }, ())
    | .decrementConnections svc => ({ w with balancer := w.balancer.decrementConnections svc }, ())

/-- Instances that go on a ring have a point each. -/
def Roomy (w : Balancing) : Event → Prop
  | .select q m _ =>
    q.entryPoint.fn w.balancer.strategy = .selectRingHash → ¬ Crowded fnv64a (q.find m)
  | _ => True

theorem sound_step {w : Balancing} (h : w.hashRings.Sound) {e : Event} (he : w.Roomy e) :
    (machine.step w e).1.hashRings.Sound := by
  cases e with
  | select q m draw =>
    show (q.select w draw m).1.hashRings.Sound
    rw [q.select_eq, Selecting.call]
    split_ifs with hfound
    · exact h
    · exact StrategyCall.sound_run _ w draw q.options hfound h he
  | setStrategy strategy => exact h
  | incrementConnections svc => exact h
  | decrementConnections svc => exact h

theorem sound_run (strategy : Strategy) {events : List Event}
    (h : machine.Along Roomy (start strategy) events) :
    (machine.run (start strategy) events).1.hashRings.Sound := by
  have hstep (w : Balancing) (e : Event) (hw : w.hashRings.Sound) (he : w.Roomy e) :
      (machine.step w e).1.hashRings.Sound := sound_step hw he
  exact machine.invariant hstep (fun name ring hlookup => by cases hlookup) h

/-- Whatever has been selected before, under whatever strategies, a selection returns a service that
is registered, has not expired and is as asked for. It returns none just when there is none, and
panics just when weights that differ add up to more than an `int` holds. -/
theorem selections_sound (strategy : Strategy) (events : List Event)
    (h : machine.Along Roomy (start strategy) events) (q : Selecting) (m : StoreView) (draw : ℕ)
    (hindexed : m.table.Indexed) (hclock : m.now ≤ m.later) :
    let w := (machine.run (start strategy) events).1
    let answer := (q.select w draw m).2
    (∀ svc, answer = some (some svc) → q.Available m svc) ∧
      (answer = some none ↔ ∀ svc, ¬ q.Available m svc) ∧
      (answer = none ↔ q.entryPoint.fn w.balancer.strategy = .selectWeightedRandom ∧
        Balancer.Overflows (q.find m)) := by
  intro w answer
  have hrings : w.hashRings.Sound := sound_run strategy h
  have hanswer : answer = (EntryPoint.outcome w draw q.options (q.call w.balancer.strategy m)).2 :=
    congrArg Prod.snd (q.select_eq w draw m)
  by_cases hfound : q.find m = []
  · have hnone : ∀ svc, ¬ q.Available m svc := by
      intro svc hsvc
      have hmem := (q.mem_find_iff hindexed hclock svc).mpr hsvc
      rw [hfound] at hmem
      exact List.not_mem_nil hmem
    rw [Selecting.call, if_pos hfound] at hanswer
    rw [hanswer, hfound]
    refine ⟨fun svc heq => ?_, iff_of_true rfl hnone, iff_of_false (Option.some_ne_none _) fun hover => ?_⟩
    · cases heq
    · exact absurd hover.2.1 (by decide)
  · let c : StrategyCall := ⟨q.entryPoint.fn w.balancer.strategy, q.stateName (q.find m), q.find m⟩
    rw [Selecting.call, if_neg hfound] at hanswer
    have hrun : answer = (c.run w draw q.options).2.map some := hanswer
    rw [hrun]
    refine ⟨fun svc heq => ?_, iff_of_false ?_ ?_, ?_⟩
    · obtain ⟨svc', hsvc, heq⟩ := Option.map_eq_some_iff.mp heq
      cases heq
      exact (q.mem_find_iff hindexed hclock svc).mp (c.mem_of_run w draw q.options hfound hsvc)
    · intro heq
      obtain ⟨svc, -, heq⟩ := Option.map_eq_some_iff.mp heq
      cases heq
    · obtain ⟨svc, hsvc⟩ := List.exists_mem_of_ne_nil _ hfound
      exact fun hnone => hnone svc ((q.mem_find_iff hindexed hclock svc).mp hsvc)
    · rw [Option.map_eq_none_iff]
      exact c.run_eq_none_iff w draw q.options hfound hrings

/-- A session on the ring, and then weights. -/
def ringThenWeights : List Event :=
  [.select (.withOptions (str "service:api") ⟨[], str "session", []⟩) EntryPoint.nineOfTen 0,
    .setStrategy .weightedRandom]

theorem selections_sound_weights :
    let w := (machine.run (start .ringHash) ringThenWeights).1
    let q : Selecting := .service (str "service:api")
    let answer := (q.select w 9 EntryPoint.nineOfTen).2
    (∀ svc, answer = some (some svc) → q.Available EntryPoint.nineOfTen svc) ∧
      (answer = some none ↔ ∀ svc, ¬ q.Available EntryPoint.nineOfTen svc) ∧
      (answer = none ↔ q.entryPoint.fn w.balancer.strategy = .selectWeightedRandom ∧
        Balancer.Overflows (q.find EntryPoint.nineOfTen)) := by
  refine selections_sound .ringHash ringThenWeights ⟨fun _ => not_crowded ?_, trivial, trivial⟩ _ _ 9
    (((ServiceTable.indexed_empty 0).put _ 10).put _ 10) le_rfl
  decide +kernel

end Balancing

end Konsul
