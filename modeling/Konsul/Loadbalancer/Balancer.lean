import Konsul.Lib.Decimal
import Konsul.Store.ServiceQuery

/-!
# The load balancer

A selection queries the service store at some moment and picks one of the services found.
Weight states belong to the package and not to a balancer. `draw` is the random number
behind `rand.Intn`; a selection that is `none` is a panic.
-/

namespace Konsul

open GoLib

inductive Strategy where
  | roundRobin
  | weightedRoundRobin
  | random
  | weightedRandom
  | leastConnections
  | ipHash
  | ringHash
  | latencyBased
  | other (s : GoString)
  deriving DecidableEq

structure Balancer where
  strategy : Strategy
  counters : GoMap GoString UInt64
  connections : GoMap GoString ℤ

/-- The package's variables. -/
structure Shared where
  weightStates : GoMap GoString (List ℤ)

/-- What a query sees: the store, the clock and the orders of the loops over maps. -/
structure StoreView where
  table : ServiceTable
  now : Time
  /-- The clock in the second half of a query by tags and metadata. -/
  later : Time
  range : table.data.Order
  first : (filters : GoMap GoString GoString) → filters.Order
  rest : (filters : GoMap GoString GoString) → filters.Order

namespace StoreView

def queryByTags (m : StoreView) (tags : List GoString) : List Service :=
  m.table.queryByTags m.now tags m.range

def queryByMetadata (m : StoreView) (filters : GoMap GoString GoString) : List Service :=
  m.table.queryByMetadata m.now filters (m.first filters) (m.rest filters) m.range

def queryByTagsAndMetadata (m : StoreView) (tags : List GoString)
    (metadata : GoMap GoString GoString) : List Service :=
  m.table.queryByTagsAndMetadata m.now m.later tags metadata (m.first metadata) (m.rest metadata)
    m.range

end StoreView

/-- `rand.Intn`. -/
def intn (draw : ℕ) (n : ℤ) : Option ℤ := if 0 < n then some (draw % n) else none

/-- `string(rune(n))` of an `int`. -/
def runeText (n : ℤ) : GoString :=
  let r := Int.bmod n (2 ^ 32)
  let b (k : ℤ) : UInt8 := UInt8.ofNat k.toNat
  if r < 0 ∨ 0x10FFFF < r ∨ (0xD800 ≤ r ∧ r ≤ 0xDFFF) then Utf8.replacement
  else if r < 0x80 then [b r]
  else if r < 0x800 then [b (0xC0 + r / 64), b (0x80 + r % 64)]
  else if r < 0x10000 then [b (0xE0 + r / 4096), b (0x80 + r / 64 % 64), b (0x80 + r % 64)]
  else [b (0xF0 + r / 262144), b (0x80 + r / 4096 % 64), b (0x80 + r / 64 % 64), b (0x80 + r % 64)]

def instanceKey (svc : Service) : GoString :=
  svc.name ++ str ":" ++ svc.address ++ str ":" ++ runeText svc.port

def Service.zero : Service := ⟨[], [], 0, [], ∅, []⟩

/-! ### Weights -/

def extractWeight (svc : Service) : ℤ :=
  match svc.metadata.lookup (str "weight") with
  | none => 1
  | some weightStr =>
    match atoi weightStr with
    | some weight => if weight ≤ 0 then 1 else weight
    | none => 1

def allEqual : List ℤ → Bool
  | [] => true
  | first :: rest => rest.all fun v => v = first

/-- The sum in the loop over the instances. -/
def totalWeight (weights : List ℤ) : ℤ := weights.foldl (fun total w => wrapInt (total + w)) 0

/-- The weights as `selectWeightedRandom` takes them. -/
def positiveWeight (svc : Service) : ℤ := if extractWeight svc ≤ 0 then 1 else extractWeight svc

namespace Balancer

def new (strategy : Strategy) : Balancer := ⟨strategy, ∅, ∅⟩

/-! ### Selection -/

def counter (b : Balancer) (serviceName : GoString) : UInt64 :=
  (b.counters.lookup serviceName).getD 0

/-- The index is of the counter before the call; it wraps around at 2^64. -/
def selectRoundRobin (b : Balancer) (serviceName : GoString) (instances : List Service) :
    Balancer × Option Service :=
  let counter := b.counter serviceName + 1
  ({ b with counters := b.counters.insert serviceName counter },
    instances[(counter - 1).toNat % instances.length]?)

def selectRandom (draw : ℕ) (instances : List Service) : Option Service :=
  (intn draw instances.length).bind fun index => instances[index.toNat]?

/-- One round of the loop: the connections, with a counter for the instance, and the index and
the count of the least so far. -/
def leastRound (s : GoMap GoString ℤ × ℕ × ℤ) (e : Service × ℕ) : GoMap GoString ℤ × ℕ × ℤ :=
  let key := instanceKey e.1
  let connections := if s.1.lookup key = none then s.1.insert key 0 else s.1
  let conns := (connections.lookup key).getD 0
  if e.2 = 0 ∨ conns < s.2.2 then (connections, e.2, conns) else (connections, s.2)

def selectLeastConnections (b : Balancer) (instances : List Service) :
    Balancer × Option Service :=
  let s := instances.zipIdx.foldl leastRound (b.connections, 0, 0)
  ({ b with connections := s.1 }, instances[s.2.1]?)

/-- The index at which the cumulative weight passes the drawn value. -/
def passedAt (randVal cumulative : ℤ) : List ℤ → Option ℕ
  | [] => none
  | weight :: weights =>
    let cumulative := wrapInt (cumulative + weight)
    if randVal < cumulative then some 0 else (passedAt randVal cumulative weights).map (· + 1)

def selectWeightedRandom (draw : ℕ) (instances : List Service) : Option Service :=
  if instances = [] then some .zero
  else
    let weights := instances.map positiveWeight
    if allEqual weights then selectRandom draw instances
    else
      (intn draw (totalWeight weights)).bind fun randVal =>
        instances[(passedAt randVal 0 weights).getD (instances.length - 1)]?

/-! ### Smooth weighted round-robin -/

/-- The index and the value of the greatest weight, the first of equals. -/
def maxRound (best : ℕ × ℤ) (e : ℤ × ℕ) : ℕ × ℤ := if e.1 > best.2 then (e.2, e.1) else best

/-- `maxIdx`, over weights that have been added to. -/
def maxIdx (raised : List ℤ) : ℕ := (raised.zipIdx.foldl maxRound (0, -2 ^ 31)).1

def weightKey (serviceName : GoString) : GoString := str "wrr:" ++ serviceName

/-- The state under the key, or zeros where there is none of the size. -/
def currentWeights (shared : Shared) (serviceName : GoString) (size : ℕ) : List ℤ :=
  ((shared.weightStates.lookup (weightKey serviceName)).filter fun state => state.length = size).getD
    (List.replicate size 0)

def raise (current weights : List ℤ) : List ℤ :=
  List.zipWith (fun c w => wrapInt (c + w)) current weights

/-- The weights after a pick. -/
def nextWeights (current weights : List ℤ) : List ℤ :=
  let raised := raise current weights
  raised.modify (maxIdx raised) fun c => wrapInt (c - totalWeight weights)

def selectWeightedRoundRobin (b : Balancer) (shared : Shared) (serviceName : GoString)
    (instances : List Service) : (Balancer × Shared) × Option Service :=
  if instances = [] then ((b, shared), some .zero)
  else
    let weights := instances.map extractWeight
    if totalWeight weights = 0 ∨ allEqual weights then
      let r := b.selectRoundRobin serviceName instances
      ((r.1, shared), r.2)
    else
      let current := currentWeights shared serviceName instances.length
      ((b, ⟨shared.weightStates.insert (weightKey serviceName) (nextWeights current weights)⟩),
        instances[maxIdx (raise current weights)]?)

/-! ### Queries -/

/-- A selection without instances is `some none`. -/
def selectService (b : Balancer) (shared : Shared) (draw : ℕ) (m : StoreView)
    (serviceTag : GoString) : (Balancer × Shared) × Option (Option Service) :=
  let instances := m.queryByTags [serviceTag]
  if instances = [] then ((b, shared), some none)
  else
    match b.strategy with
    | .random => ((b, shared), (selectRandom draw instances).map some)
    | .weightedRandom => ((b, shared), (selectWeightedRandom draw instances).map some)
    | .leastConnections =>
      let r := b.selectLeastConnections instances
      ((r.1, shared), r.2.map some)
    | .weightedRoundRobin =>
      let r := b.selectWeightedRoundRobin shared serviceTag instances
      (r.1, r.2.map some)
    | _ =>
      let r := b.selectRoundRobin serviceTag instances
      ((r.1, shared), r.2.map some)

/-- What the other selections do with the services found; the counter is that of the first. -/
def selectFound (b : Balancer) (draw : ℕ) : List Service → Balancer × Option (Option Service)
  | [] => (b, some none)
  | first :: rest =>
    match b.strategy with
    | .random => (b, (selectRandom draw (first :: rest)).map some)
    | .leastConnections =>
      let r := b.selectLeastConnections (first :: rest)
      (r.1, r.2.map some)
    | _ =>
      let r := b.selectRoundRobin first.name (first :: rest)
      (r.1, r.2.map some)

def selectServiceByTags (b : Balancer) (draw : ℕ) (m : StoreView) (tags : List GoString) :
    Balancer × Option (Option Service) :=
  b.selectFound draw (m.queryByTags tags)

def selectServiceByMetadata (b : Balancer) (draw : ℕ) (m : StoreView)
    (filters : GoMap GoString GoString) : Balancer × Option (Option Service) :=
  b.selectFound draw (m.queryByMetadata filters)

def selectServiceByQuery (b : Balancer) (draw : ℕ) (m : StoreView) (tags : List GoString)
    (metadata : GoMap GoString GoString) : Balancer × Option (Option Service) :=
  b.selectFound draw (m.queryByTagsAndMetadata tags metadata)

end Balancer

end Konsul
