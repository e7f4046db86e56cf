import Konsul.Lib.Circle
import Konsul.Lib.Machine
import Konsul.Loadbalancer.Balancer

/-!
# Ring hashing (internal/loadbalancer/strategies.go)

A service tag has one ring for the whole process, whatever the balancer. `hash` stands for
the hash of the virtual nodes and of the session keys, which is `fnv64a` in the code.
-/

namespace Konsul

open GoLib

/-- `hash/fnv`, New64a. -/
def fnv64a (s : Bytes) : UInt64 :=
  s.foldl (fun h b => (h ^^^ b.toUInt64) * 1099511628211) 14695981039346656037

/-- A consistent hash ring: the points in order, and the index of the instance at each. -/
structure HashRing where
  nodes : List UInt64
  instances : GoMap UInt64 ℕ

/-- `hashRings`. -/
abbrev HashRings := GoMap GoString HashRing

/-- Virtual nodes per instance. -/
def HashRing.replicas : ℕ := 150

/-- The text of a virtual node. -/
def nodeKey (svc : Service) (r : ℕ) : GoString :=
  svc.name ++ str ":" ++ svc.address ++ str ":" ++ decimal r

section

variable (hash : GoString → UInt64)

/-- The virtual nodes, in the order of the loops, each with its instance and the index of it. -/
def virtualNodes (instances : List Service) : List (UInt64 × Service × ℕ) :=
  instances.zipIdx.flatMap fun e => (List.range HashRing.replicas).map fun r => (hash (nodeKey e.1 r), e)

def newRing (instances : List Service) : HashRing :=
  let added := virtualNodes hash instances
  { nodes := (added.map Prod.fst).mergeSort fun a b => a ≤ b
    instances := added.foldl (fun m e => m.insert e.1 e.2.2) ∅ }

/-- The ring of a service, taken as it is when it has as many points as there are instances. -/
def getOrCreateRing (hashRings : HashRings) (serviceName : GoString) (instances : List Service) :
    HashRings × HashRing :=
  match (hashRings.lookup serviceName).filter fun ring =>
      ring.instances.keys.card = instances.length with
  | some ring => (hashRings, ring)
  | none =>
    let ring := newRing hash instances
    (hashRings.insert serviceName ring, ring)

/-- The index of the instance at the point a hash value belongs to. -/
def HashRing.instanceIdx (ring : HashRing) (hashValue : UInt64) : Option ℕ :=
  ring.nodes[Circle.indexOf ring.nodes hashValue]?.map fun node =>
    (ring.instances.lookup node).getD 0

namespace Balancer

def selectRingHash (hashRings : HashRings) (draw : ℕ) (serviceName : GoString)
    (instances : List Service) (sessionKey : GoString) : HashRings × Option Service :=
  if instances = [] ∨ sessionKey = [] then (hashRings, selectRandom draw instances)
  else
    let (hashRings, ring) := getOrCreateRing hash hashRings serviceName instances
    (hashRings, (ring.instanceIdx (hash sessionKey)).bind fun instanceIdx => instances[instanceIdx]?)

/-- The choice of a call that finds no ring yet. -/
def freshChoice (draw : ℕ) (serviceName : GoString) (instances : List Service)
    (sessionKey : GoString) : Option Service :=
  (selectRingHash hash ∅ draw serviceName instances sessionKey).2

end Balancer

/-! ### The circle of a ring -/

/-- The points of the instances on the circle. -/
def points (instances : List Service) : List (UInt64 × Service) :=
  instances.flatMap fun svc => (List.range HashRing.replicas).map fun r => (hash (nodeKey svc r), svc)

variable {instances : List Service}

theorem points_eq (instances : List Service) :
    (virtualNodes hash instances).map (fun e => (e.1, e.2.1)) = points hash instances := by
  rw [virtualNodes, List.map_flatMap, points]
  conv_rhs => rw [← List.zipIdx_map_fst 0 instances, List.flatMap_map]
  simp only [List.map_map, Function.comp_def]

theorem points_filter (keep : Service → Bool) (instances : List Service) :
    points hash (instances.filter keep) = (points hash instances).filter fun e => keep e.2 := by
  induction instances with
  | nil => rfl
  | cons svc rest ih =>
    rw [points, points, List.flatMap_cons, List.filter_append, List.filter_map]
    cases hkeep : keep svc with
    | true =>
      rw [List.filter_cons_of_pos hkeep, List.flatMap_cons]
      refine congr_arg₂ _ ?_ ih
      simp [Function.comp_def, hkeep]
    | false =>
      rw [List.filter_cons_of_neg (by rw [hkeep]; exact Bool.false_ne_true)]
      refine Eq.trans ih ?_
      simp [Function.comp_def, hkeep, points]

theorem virtualNodes_ne_nil (h : instances ≠ []) : virtualNodes hash instances ≠ [] := by
  cases instances with
  | nil => exact absurd rfl h
  | cons svc rest =>
    rw [virtualNodes, List.zipIdx_cons, List.flatMap_cons, HashRing.replicas, List.range_succ_eq_map]
    exact List.cons_ne_nil _ _

variable {hash} in
theorem getElem_of_mem_virtualNodes {p : UInt64} {svc : Service} {i : ℕ}
    (h : (p, svc, i) ∈ virtualNodes hash instances) : instances[i]? = some svc := by
  obtain ⟨e, he, hp⟩ := List.mem_flatMap.mp h
  obtain ⟨r, -, heq⟩ := List.mem_map.mp hp
  cases heq
  exact List.mk_mem_zipIdx_iff_getElem?.mp he

/-- A ring built for some instances gives each place to the instance that owns its point. -/
theorem instanceIdx_newRing (h : instances ≠ []) (hashValue : UInt64) :
    ∃ i svc, (newRing hash instances).instanceIdx hashValue = some i ∧ instances[i]? = some svc ∧
      Circle.Belongs (points hash instances) hashValue svc := by
  have hmem : ∀ p, p ∈ (newRing hash instances).nodes ↔
      p ∈ (virtualNodes hash instances).map Prod.fst := fun p => List.mem_mergeSort
  have hsorted : (newRing hash instances).nodes.Pairwise (· ≤ ·) :=
    (List.pairwise_mergeSort (by simpa using fun a b c => UInt64.le_trans)
      (by simpa using UInt64.le_total) _).imp of_decide_eq_true
  have hne : (newRing hash instances).nodes ≠ [] := by
    obtain ⟨e, he⟩ := List.exists_mem_of_ne_nil _ (virtualNodes_ne_nil hash h)
    exact List.ne_nil_of_mem ((hmem e.1).mpr (List.mem_map_of_mem he))
  obtain ⟨p, hp, hnext⟩ := Circle.next_indexOf hsorted hne hashValue
  obtain ⟨⟨svc, i⟩, howner⟩ := Circle.exists_owner ((hmem p).mp hnext.1)
  have hlookup : (newRing hash instances).instances.lookup p = some i := by
    have hfold := Circle.lookup_foldl_insert ((virtualNodes hash instances).map
      fun e => (e.1, e.2.2)) ∅ p
    rw [List.foldl_map, Circle.owner_map Prod.snd howner] at hfold
    exact hfold
  refine ⟨i, svc, ?_, ?_, p, ?_, ?_⟩
  · rw [HashRing.instanceIdx, hp, Option.map_some, hlookup]
    rfl
  · obtain ⟨before, after, heq, -⟩ := Circle.owner_eq_some_iff.mp howner
    have hmem' : (p, svc, i) ∈ virtualNodes hash instances := by
      rw [heq]
      simp
    exact getElem_of_mem_virtualNodes hmem'
  · have hset : {q | q ∈ (points hash instances).map Prod.fst} =
        {q | q ∈ (newRing hash instances).nodes} := by
      refine Set.ext fun q => Iff.trans ?_ (hmem q).symm
      rw [← points_eq hash, List.map_map]
      rfl
    rw [hset]
    exact hnext
  · rw [← points_eq hash]
    exact Circle.owner_map Prod.fst howner

variable {hash} in
theorem mem_of_belongs {hashValue : UInt64} {svc : Service}
    (h : Circle.Belongs (points hash instances) hashValue svc) : svc ∈ instances := by
  obtain ⟨p, -, howner⟩ := h
  obtain ⟨before, rest, heq, -⟩ := Circle.owner_eq_some_iff.mp howner
  have hmem : (p, svc) ∈ points hash instances := by
    rw [heq]
    simp
  obtain ⟨e, he, hpe⟩ := List.mem_flatMap.mp hmem
  obtain ⟨r, -, hr⟩ := List.mem_map.mp hpe
  cases hr
  exact he

/-! ### Few sessions move -/

def SortedByName (instances : List Service) : Prop := instances.Pairwise fun a b => a.name < b.name

instance : DecidablePred SortedByName := fun instances =>
  inferInstanceAs (Decidable (instances.Pairwise fun a b => a.name < b.name))

theorem SortedByName.notMem {x : Service} {grown : List Service} (hg : SortedByName grown)
    (hadd : grown.Perm (x :: instances)) : ∀ svc ∈ instances, svc.name ≠ x.name := by
  have hnodup : (grown.map Service.name).Nodup :=
    List.pairwise_map.mpr (hg.imp fun hlt heq => by rw [heq] at hlt; exact List.lt_irrefl _ hlt)
  have hnodup' := (hadd.map Service.name).nodup_iff.mp hnodup
  intro svc hsvc heq
  exact (List.nodup_cons.mp hnodup').1 (heq ▸ List.mem_map_of_mem hsvc)

/-- The instances without the new one are the new list without it. -/
theorem SortedByName.eq_filter {x : Service} {grown : List Service} (hs : SortedByName instances)
    (hg : SortedByName grown) (hadd : grown.Perm (x :: instances)) :
    instances = grown.filter fun svc => svc.name ≠ x.name := by
  have hperm : (grown.filter fun svc => svc.name ≠ x.name).Perm instances := by
    refine (hadd.filter _).trans ?_
    rw [List.filter_cons_of_neg (by simp), List.filter_eq_self.mpr]
    exact fun svc hsvc => decide_eq_true (hg.notMem hadd svc hsvc)
  refine hperm.symm.eq_of_pairwise (fun a b _ _ hab hba => ?_) hs (hg.filter _)
  exact absurd hba (List.lt_asymm hab)

namespace Balancer

theorem freshChoice_of_ne (draw : ℕ) (serviceName : GoString) (h : instances ≠ [])
    {sessionKey : GoString} (hkey : sessionKey ≠ []) :
    ∃ svc, freshChoice hash draw serviceName instances sessionKey = some svc ∧
      Circle.Belongs (points hash instances) (hash sessionKey) svc := by
  obtain ⟨i, svc, hidx, hget, hbelongs⟩ := instanceIdx_newRing hash h (hash sessionKey)
  refine ⟨svc, ?_, hbelongs⟩
  rw [freshChoice, selectRingHash, if_neg (by simp [h, hkey]), getOrCreateRing, Finmap.lookup_empty]
  dsimp only [Option.filter_none]
  rw [hidx, Option.bind_some, hget]

/-- The key of a session that moves when an instance comes or goes was on that instance, or is
now. -/
theorem minimal_disruption {hash : GoString → UInt64} {instances grown : List Service} {x : Service}
    {sessionKey : GoString} (hkey : sessionKey ≠ []) (hs : SortedByName instances)
    (hg : SortedByName grown) (hadd : grown.Perm (x :: instances)) (serviceName : GoString)
    (draw draw' : ℕ) :
    let before := freshChoice hash draw serviceName instances sessionKey
    let after := freshChoice hash draw' serviceName grown sessionKey
    (after ≠ before → after = some x) ∧ (instances ≠ [] → after ≠ some x → before = after) := by
  have hgrown : grown ≠ [] := fun hnil => by
    rw [hnil] at hadd
    exact List.cons_ne_nil _ _ hadd.nil_eq.symm
  obtain ⟨svc, hafter, hbelongs⟩ :=
    freshChoice_of_ne hash draw' serviceName hgrown hkey
  have hstays : svc ≠ x → freshChoice hash draw serviceName instances sessionKey = some svc := by
    intro hne
    have hold : svc ∈ instances := by
      rcases List.mem_cons.mp (hadd.mem_iff.mp (mem_of_belongs hbelongs)) with heq | hold
      · exact absurd heq hne
      · exact hold
    have hname := hg.notMem hadd svc hold
    have hkept := hbelongs.filter (fun e => decide (e.2.name ≠ x.name)) fun _ => decide_eq_true hname
    rw [← points_filter hash fun svc => decide (svc.name ≠ x.name),
      ← hs.eq_filter hg hadd] at hkept
    obtain ⟨svc', hbefore, hbelongs'⟩ :=
      freshChoice_of_ne hash draw serviceName (List.ne_nil_of_mem hold) hkey
    rw [hbefore, hbelongs'.unique hkept]
  intro before after
  constructor
  · intro hne
    by_contra hx
    have hsx : svc ≠ x := fun heq => hx (hafter.trans (congrArg some heq))
    exact hne (hafter.trans (hstays hsx).symm)
  · intro _ hx
    have hsx : svc ≠ x := fun heq => hx (hafter.trans (congrArg some heq))
    exact (hstays hsx).trans hafter.symm

def numbered (i : ℕ) : Service :=
  ⟨str "api" ++ decimal i, str "10.0.0.1", 8080, [str "service:api"], ∅, []⟩

theorem minimal_disruption_second :
    let before := freshChoice fnv64a 0 (str "service:api") [numbered 1] (str "session")
    let after := freshChoice fnv64a 0 (str "service:api") [numbered 1, numbered 2] (str "session")
    (after ≠ before → after = some (numbered 2)) ∧
      ([numbered 1] ≠ [] → after ≠ some (numbered 2) → before = after) :=
  minimal_disruption (by decide) (by decide) (by decide) (.swap ..) (str "service:api") 0 0

/-- Without a session key the choice is drawn anew each time. -/
theorem empty_key_moves :
    ¬ ∀ (hash : GoString → UInt64) (instances grown : List Service) (x : Service)
      (sessionKey : GoString), SortedByName instances → SortedByName grown →
      grown.Perm (x :: instances) → ∀ (serviceName : GoString) (draw draw' : ℕ),
      let before := freshChoice hash draw serviceName instances sessionKey
      let after := freshChoice hash draw' serviceName grown sessionKey
      (after ≠ before → after = some x) ∧ (instances ≠ [] → after ≠ some x → before = after) := by
  intro h
  have hmoved := (h fnv64a [numbered 1, numbered 2] [numbered 1, numbered 2, numbered 3]
    (numbered 3) [] (by decide) (by decide) (List.perm_append_singleton (numbered 3) [numbered 1, numbered 2])
    (str "service:api") 0 1).1 (by decide)
  exact absurd hmoved (by decide)

end Balancer

/-! ### Rings that are kept -/

/-- A call of `selectRingHash` on any balancer, and the number it draws if it draws one. -/
structure RingCall where
  serviceName : GoString
  instances : List Service
  sessionKey : GoString
  draw : ℕ

namespace RingCall

open Balancer

def ringMachine : Machine HashRings RingCall (Option Service) :=
  ⟨fun hashRings c =>
    Balancer.selectRingHash hash hashRings c.draw c.serviceName c.instances c.sessionKey⟩

/-- What the call chooses with a ring built for it. -/
def fresh (c : RingCall) : Option Service :=
  Balancer.freshChoice hash c.draw c.serviceName c.instances c.sessionKey

/-- A ring that the call would take as it is was built for the call's instances. -/
def OwnRing (hashRings : HashRings) (c : RingCall) : Prop :=
  c.instances ≠ [] → c.sessionKey ≠ [] → ∀ ring, hashRings.lookup c.serviceName = some ring →
    ring.instances.keys.card = c.instances.length → ring = newRing hash c.instances

variable {hash}

theorem step_of_ownRing {hashRings : HashRings} {c : RingCall} (h : OwnRing hash hashRings c) :
    ((ringMachine hash).step hashRings c).2 = c.fresh hash := by
  show (Balancer.selectRingHash hash hashRings c.draw c.serviceName c.instances c.sessionKey).2 = _
  unfold fresh Balancer.freshChoice Balancer.selectRingHash
  by_cases hguard : c.instances = [] ∨ c.sessionKey = []
  · rw [if_pos hguard, if_pos hguard]
  · rw [if_neg hguard, if_neg hguard]
    have hring : (getOrCreateRing hash hashRings c.serviceName c.instances).2 =
        newRing hash c.instances := by
      unfold getOrCreateRing
      cases hkept : (hashRings.lookup c.serviceName).filter fun ring =>
          ring.instances.keys.card = c.instances.length with
      | none => rfl
      | some ring =>
        obtain ⟨hlookup, hcard⟩ := Option.filter_eq_some_iff.mp hkept
        obtain ⟨hinstances, hkey⟩ := not_or.mp hguard
        exact h hinstances hkey ring hlookup (of_decide_eq_true hcard)
    dsimp only
    rw [hring]
    rfl

/-! ### A ring that is kept too long -/

theorem owner_last (rest : List Service) (last : Service) {r : ℕ} (hr : r < HashRing.replicas) :
    Circle.owner (points hash (rest ++ [last])) (hash (nodeKey last r)) = some last := by
  have hblock : points hash [last] =
      (List.range HashRing.replicas).map fun r => (hash (nodeKey last r), last) := by
    rw [points, List.flatMap_singleton]
  have hmem : hash (nodeKey last r) ∈ (points hash [last]).map Prod.fst := by
    rw [hblock, List.map_map]
    exact List.mem_map_of_mem (f := fun r => hash (nodeKey last r)) (List.mem_range.mpr hr)
  obtain ⟨svc, hsvc⟩ := Circle.exists_owner hmem
  have hlast := mem_of_belongs (Circle.belongs_of_point hsvc)
  rw [List.mem_singleton] at hlast
  rw [points, List.flatMap_append, Circle.owner_append]
  change (Circle.owner (points hash [last]) _).or _ = _
  rw [hsvc, hlast, Option.some_or]

/-- A session with the text of a virtual node of the last instance for its key is on it. -/
theorem freshChoice_last (draw : ℕ) (serviceName : GoString) (rest : List Service) (last : Service)
    {r : ℕ} (hr : r < HashRing.replicas) :
    freshChoice hash draw serviceName (rest ++ [last]) (nodeKey last r) = some last := by
  have hkey : nodeKey last r ≠ [] :=
    List.append_ne_nil_of_right_ne_nil _ (decimal_ne_nil r)
  obtain ⟨svc, hfresh, hbelongs⟩ :=
    freshChoice_of_ne hash draw serviceName (List.concat_ne_nil last rest) hkey
  rw [hfresh, hbelongs.unique (Circle.belongs_of_point (owner_last rest last hr))]

theorem instanceIdx_single (svc : Service) (hashValue : UInt64) :
    (newRing hash [svc]).instanceIdx hashValue = some 0 := by
  obtain ⟨i, svc', hidx, hget, -⟩ :=
    instanceIdx_newRing hash (List.cons_ne_nil svc []) hashValue
  have hi : i < 1 := (List.getElem?_eq_some_iff.mp hget).1
  rw [hidx, Nat.lt_one_iff.mp hi]

theorem card_newRing_single {svc : Service}
    (h : ((List.range HashRing.replicas).map fun r => hash (nodeKey svc r)).Nodup) :
    (newRing hash [svc]).instances.keys.card = HashRing.replicas := by
  have hnodes : virtualNodes hash [svc] =
      (List.range HashRing.replicas).map fun r => (hash (nodeKey svc r), svc, 0) := by
    rw [virtualNodes, List.zipIdx_singleton, List.flatMap_singleton]
  rw [newRing]
  dsimp only
  rw [hnodes, ← List.foldl_map (f := fun e : UInt64 × Service × ℕ => (e.1, e.2.2))
    (g := fun (m : GoMap UInt64 ℕ) e => m.insert e.1 e.2), Circle.card_foldl_insert]
  · simp
  · simpa [List.map_map, Function.comp_def] using h

theorem step_new {hashRings : HashRings} {c : RingCall} (hne : c.instances ≠ [])
    (hkey : c.sessionKey ≠ []) (hlookup : hashRings.lookup c.serviceName = none) :
    ((ringMachine hash).step hashRings c).1 =
      hashRings.insert c.serviceName (newRing hash c.instances) := by
  show (selectRingHash hash hashRings c.draw c.serviceName c.instances c.sessionKey).1 = _
  rw [selectRingHash, if_neg (not_or.mpr ⟨hne, hkey⟩), getOrCreateRing, hlookup]
  rfl

theorem step_of_kept {hashRings : HashRings} {c : RingCall} {ring : HashRing}
    (hne : c.instances ≠ []) (hkey : c.sessionKey ≠ [])
    (hlookup : hashRings.lookup c.serviceName = some ring)
    (hcard : ring.instances.keys.card = c.instances.length) :
    ((ringMachine hash).step hashRings c).2 =
      (ring.instanceIdx (hash c.sessionKey)).bind fun i => c.instances[i]? := by
  have hkept : (some ring).filter (fun ring => ring.instances.keys.card = c.instances.length) =
      some ring := Option.filter_some_pos (decide_eq_true hcard)
  show (selectRingHash hash hashRings c.draw c.serviceName c.instances c.sessionKey).2 = _
  rw [selectRingHash, if_neg (not_or.mpr ⟨hne, hkey⟩), getOrCreateRing, hlookup, hkept]

def oneInstance : RingCall := ⟨str "service:api", [numbered 0], str "session", 0⟩

/-- As many instances as the first call's one has points. -/
def manyInstances : RingCall :=
  ⟨str "service:api", (List.range 150).map numbered, nodeKey (numbered 149) 0, 0⟩

theorem nodup_points :
    ((List.range HashRing.replicas).map fun r => fnv64a (nodeKey (numbered 0) r)).Nodup := by
  decide +kernel

/-- In a run in which a ring is only kept for the instances it was built for, every call chooses as
if it were the first. -/
theorem no_memory {hash : GoString → UInt64} (calls : List RingCall)
    (h : (ringMachine hash).Along (OwnRing hash) ∅ calls) :
    ((ringMachine hash).run ∅ calls).2 = calls.map (fresh hash) := by
  generalize (∅ : HashRings) = hashRings at h
  induction calls generalizing hashRings with
  | nil => rfl
  | cons c calls ih =>
    obtain ⟨hc, hcalls⟩ := h
    rw [Machine.run_cons, List.map_cons, step_of_ownRing hc, ih _ hcalls]

/-- A service of its own. -/
def dbInstance : RingCall := ⟨str "service:db", [numbered 7], str "session", 0⟩

/-- Another service, a second instance of the first one, and a call without a session. -/
def otherCalls : List RingCall :=
  [dbInstance,
    ⟨str "service:api", [numbered 0, numbered 1], str "session", 0⟩,
    ⟨str "service:api", [numbered 0, numbered 1], [], 1⟩]

theorem no_memory_repeat :
    ((ringMachine fnv64a).run ∅ (oneInstance :: otherCalls)).2 =
      (oneInstance :: otherCalls).map (fresh fnv64a) := by
  have hfirst : ((ringMachine fnv64a).step ∅ oneInstance).1 =
      (∅ : HashRings).insert oneInstance.serviceName (newRing fnv64a oneInstance.instances) :=
    step_new (List.cons_ne_nil _ _) (by decide) (Finmap.lookup_empty _)
  have hdb : (((ringMachine fnv64a).step ∅ oneInstance).1).lookup dbInstance.serviceName = none := by
    rw [hfirst, Finmap.lookup_insert_of_ne _ (by decide)]
    exact Finmap.lookup_empty _
  have hsecond : ((ringMachine fnv64a).step ((ringMachine fnv64a).step ∅ oneInstance).1 dbInstance).1 =
      ((ringMachine fnv64a).step ∅ oneInstance).1.insert dbInstance.serviceName
        (newRing fnv64a dbInstance.instances) := step_new (List.cons_ne_nil _ _) (by decide) hdb
  refine no_memory (oneInstance :: otherCalls) ⟨fun _ _ ring hlookup => ?_,
    fun _ _ ring hlookup => ?_, fun _ _ ring hlookup hcard => ?_, fun _ hkey => absurd rfl hkey, trivial⟩
  · rw [Finmap.lookup_empty] at hlookup
    cases hlookup
  · rw [hdb] at hlookup
    cases hlookup
  · -- the ring that is kept has 150 points
    rw [hsecond, Finmap.lookup_insert_of_ne _ (by decide), hfirst] at hlookup
    rw [← Option.some.inj ((Finmap.lookup_insert _).symm.trans hlookup), oneInstance,
      card_newRing_single nodup_points] at hcard
    exact absurd hcard (by decide)

theorem answer_stale :
    ((ringMachine fnv64a).step ((ringMachine fnv64a).step ∅ oneInstance).1 manyInstances).2 =
      some (numbered 0) := by
  have hkey : manyInstances.sessionKey ≠ [] :=
    List.append_ne_nil_of_right_ne_nil _ (decimal_ne_nil 0)
  have hcard : (newRing fnv64a oneInstance.instances).instances.keys.card =
      manyInstances.instances.length := by
    rw [oneInstance, card_newRing_single nodup_points, manyInstances, List.length_map,
      List.length_range]
    rfl
  have hlookup : ((∅ : HashRings).insert oneInstance.serviceName
      (newRing fnv64a oneInstance.instances)).lookup manyInstances.serviceName =
      some (newRing fnv64a oneInstance.instances) := Finmap.lookup_insert _
  rw [step_new (List.cons_ne_nil _ _) (by decide) (Finmap.lookup_empty _),
    step_of_kept (List.cons_ne_nil _ _) hkey hlookup hcard]
  change ((newRing fnv64a [numbered 0]).instanceIdx _).bind _ = _
  rw [instanceIdx_single]
  rfl

theorem fresh_manyInstances : manyInstances.fresh fnv64a = some (numbered 149) := by
  have hsplit : (List.range 150).map numbered = (List.range 149).map numbered ++ [numbered 149] := by
    rw [List.range_succ, List.map_append]
    rfl
  rw [fresh, manyInstances, hsplit]
  exact freshChoice_last 0 _ _ (numbered 149) (by decide)

/-- The second call is answered from the ring of the first. -/
theorem stale_ring :
    ¬ ∀ calls : List RingCall, ((ringMachine fnv64a).run ∅ calls).2 = calls.map (fresh fnv64a) := by
  intro h
  have hanswers := congrArg (fun l => l[1]?) (h [oneInstance, manyInstances])
  have hsecond : some (some (numbered 0)) = some (some (numbered 149)) := by
    rw [← answer_stale, ← fresh_manyInstances]
    exact hanswers
  exact absurd (Option.some.inj (Option.some.inj hsecond)) (by decide)

end RingCall

end

end Konsul
