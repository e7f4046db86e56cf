import Konsul.Lib.RoundRobin
import Konsul.Lib.Machine
import Konsul.Loadbalancer.Balancer
import Konsul.Store.QueryExact

/-!
# Fairness of round-robin

The selections of a query go by a counter that other queries use as well: all whose result
begins with the same service, and the one for a tag of that name. A query gets its instances
evenly just when the uses of the counter before as many of its selections in a row as it has
instances are different modulo their number.
-/

namespace Konsul

open GoLib

inductive Query where
  | service (serviceTag : GoString)
  | tags (tags : List GoString)
  | metadata (filters : GoMap GoString GoString)
  | both (tags : List GoString) (metadata : GoMap GoString GoString)
  deriving DecidableEq

namespace Query

/-- What the query finds. -/
def find (q : Query) (v : StoreView) : List Service :=
  match q with
  | .service serviceTag => v.queryByTags [serviceTag]
  | .tags names => v.queryByTags names
  | .metadata filters => v.queryByMetadata filters
  | .both names filters => v.queryByTagsAndMetadata names filters

/-- The name of the counter for a result. -/
def counterName (q : Query) (found : List Service) : GoString :=
  match q with
  | .service serviceTag => serviceTag
  | _ => (found.head?.map Service.name).getD []

end Query

structure Selection where
  query : Query
  view : StoreView
  draw : ℕ

namespace Balancer

def select (s : Balancer × Shared) (e : Selection) :
    (Balancer × Shared) × Option (Option Service) :=
  match e.query with
  | .service serviceTag => s.1.selectService s.2 e.draw e.view serviceTag
  | .tags tags =>
    let r := s.1.selectServiceByTags e.draw e.view tags
    ((r.1, s.2), r.2)
  | .metadata filters =>
    let r := s.1.selectServiceByMetadata e.draw e.view filters
    ((r.1, s.2), r.2)
  | .both tags metadata =>
    let r := s.1.selectServiceByQuery e.draw e.view tags metadata
    ((r.1, s.2), r.2)

def machine : Machine (Balancer × Shared) Selection (Option (Option Service)) := ⟨select⟩

/-! ### A selection -/

variable {s : Balancer × Shared} {e : Selection}

theorem select_of_empty (hfound : e.query.find e.view = []) :
    select s e = (s, some none) := by
  unfold select
  cases hq : e.query with
  | service serviceTag =>
    rw [hq, Query.find] at hfound
    simp only [selectService, if_pos hfound]
  | _ =>
    rw [hq, Query.find] at hfound
    simp only [selectServiceByTags, selectServiceByMetadata, selectServiceByQuery, hfound,
      selectFound]

theorem select_of_roundRobin (hstrategy : s.1.strategy = .roundRobin)
    (hfound : e.query.find e.view ≠ []) : select s e =
      (((s.1.selectRoundRobin (e.query.counterName (e.query.find e.view))
          (e.query.find e.view)).1, s.2),
        (s.1.selectRoundRobin (e.query.counterName (e.query.find e.view))
          (e.query.find e.view)).2.map some) := by
  have hselect : ∀ found, found ≠ [] → s.1.selectFound e.draw found =
      ((s.1.selectRoundRobin ((found.head?.map Service.name).getD []) found).1,
        (s.1.selectRoundRobin ((found.head?.map Service.name).getD []) found).2.map some) := by
    intro found hne
    cases found with
    | nil => exact absurd rfl hne
    | cons first rest => simp only [selectFound, hstrategy]; rfl
  unfold select
  cases hq : e.query with
  | service serviceTag =>
    rw [hq, Query.find] at hfound
    simp only [selectService, if_neg hfound, hstrategy, Query.find, Query.counterName]
  | tags names =>
    rw [hq] at hfound
    exact congrArg (fun r => ((r.1, s.2), r.2)) (hselect _ hfound)
  | metadata filters =>
    rw [hq] at hfound
    exact congrArg (fun r => ((r.1, s.2), r.2)) (hselect _ hfound)
  | both names filters =>
    rw [hq] at hfound
    exact congrArg (fun r => ((r.1, s.2), r.2)) (hselect _ hfound)

theorem counter_selectRoundRobin (b : Balancer) (name name' : GoString) (found : List Service) :
    (b.selectRoundRobin name found).1.counter name' =
      if name' = name then b.counter name + 1 else b.counter name' := by
  rw [counter, selectRoundRobin]
  simp only [GoMap.lookup_insert_ite]
  split_ifs <;> rfl

theorem answer_selectRoundRobin (b : Balancer) (name : GoString) (found : List Service) :
    (b.selectRoundRobin name found).2 = found[(b.counter name).toNat % found.length]? := by
  rw [selectRoundRobin]
  simp only [UInt64.add_sub_cancel]

/-! ### Uses of a counter -/

variable (results : Query → List Service)

/-- A selection of the second query uses the counter of the first. -/
def Shares (q q' : Query) : Bool :=
  results q' ≠ [] ∧ q'.counterName (results q') = q.counterName (results q)

/-- How often the counter of a query was used before each of its selections. -/
def usesBefore (q : Query) (queries : List Query) : List ℕ :=
  (queries.zipIdx.filter fun e => e.1 = q).map fun e =>
    (queries.take e.2).countP (Shares results q)

/-- The answers to the selections of one query. -/
def answersTo {A : Type} (q : Query) (queries : List Query) (answers : List A) : List A :=
  ((queries.zip answers).filter fun e => e.1 = q).map Prod.snd

theorem usesBefore_snoc (q : Query) (queries : List Query) (q' : Query) :
    usesBefore results q (queries ++ [q']) = usesBefore results q queries ++
      if q' = q then [queries.countP (Shares results q)] else [] := by
  have hold : ((queries.zipIdx.filter fun e => e.1 = q).map fun e =>
      ((queries ++ [q']).take e.2).countP (Shares results q)) = usesBefore results q queries := by
    refine List.map_congr_left fun e he => ?_
    have hlt := (List.mem_zipIdx' (List.mem_filter.mp he).1).1
    rw [List.take_append_of_le_length hlt.le]
  rw [usesBefore, List.zipIdx_append, List.filter_append, List.map_append, hold, Nat.zero_add]
  congr 1
  by_cases hq : q' = q
  · simp [hq]
  · simp [hq]

theorem answersTo_snoc {A : Type} (q : Query) {queries : List Query} {answers : List A}
    (hlength : queries.length = answers.length) (q' : Query) (a : A) :
    answersTo q (queries ++ [q']) (answers ++ [a]) =
      answersTo q queries answers ++ if q' = q then [a] else [] := by
  rw [answersTo, List.zip_append hlength, List.filter_append, List.map_append, answersTo]
  congr 1
  by_cases hq : q' = q
  · simp [hq]
  · simp [hq]

/-- Each query finds the same whenever it is asked. -/
def Steady (events : List Selection) : Prop :=
  ∀ e ∈ events, e.query.find e.view = results e.query

variable {results} {b : Balancer} {shared : Shared}

theorem counter_run (hstrategy : b.strategy = .roundRobin) {events : List Selection}
    (hsteady : Steady results events) :
    (machine.run (b, shared) events).1.1.strategy = .roundRobin ∧
    ∀ q, (machine.run (b, shared) events).1.1.counter (q.counterName (results q)) =
      b.counter (q.counterName (results q)) +
        UInt64.ofNat ((events.map Selection.query).countP (Shares results q)) := by
  induction events using List.reverseRecOn with
  | nil => exact ⟨hstrategy, fun q => (UInt64.add_zero _).symm⟩
  | append_singleton events e ih =>
    obtain ⟨hkept, hcounter⟩ := ih fun e' he' => hsteady e' (List.mem_append_left _ he')
    have hfound := hsteady e (List.mem_append_right _ (List.mem_singleton_self e))
    rw [Machine.run_snoc]
    by_cases hempty : results e.query = []
    · have hstep : machine.step (machine.run (b, shared) events).1 e =
          ((machine.run (b, shared) events).1, some none) :=
        select_of_empty (hfound.trans hempty)
      rw [hstep]
      refine ⟨hkept, fun q => ?_⟩
      rw [hcounter, List.map_append, List.countP_append]
      simp [Shares, hempty]
    · have hstep := select_of_roundRobin (e := e) hkept (by rw [hfound]; exact hempty)
      rw [hfound] at hstep
      have hstep' : machine.step (machine.run (b, shared) events).1 e = _ := hstep
      rw [hstep']
      refine ⟨hkept, fun q => ?_⟩
      rw [counter_selectRoundRobin, List.map_append, List.countP_append]
      by_cases hname : e.query.counterName (results e.query) = q.counterName (results q)
      · rw [if_pos hname.symm, hname, hcounter]
        simp [Shares, hempty, hname, UInt64.ofNat_add, UInt64.add_assoc]
      · rw [if_neg (Ne.symm hname), hcounter]
        simp [Shares, hempty, hname]

/-- The index a query's selection falls on after so many uses of its counter. -/
def indexAfter (b : Balancer) (results : Query → List Service) (q : Query) (uses : ℕ) : ℕ :=
  (b.counter (q.counterName (results q)) + UInt64.ofNat uses).toNat % (results q).length

/-- The selections of a query go by the uses of its counter before them. -/
theorem answersTo_run (hstrategy : b.strategy = .roundRobin) {events : List Selection}
    (hsteady : Steady results events) {q : Query} (hq : results q ≠ []) :
    answersTo q (events.map Selection.query) (machine.run (b, shared) events).2 =
      (usesBefore results q (events.map Selection.query)).map fun uses =>
        ((results q)[b.indexAfter results q uses]?).map some := by
  induction events using List.reverseRecOn with
  | nil => rfl
  | append_singleton events e ih =>
    have hbefore : Steady results events := fun e' he' => hsteady e' (List.mem_append_left _ he')
    have hfound := hsteady e (List.mem_append_right _ (List.mem_singleton_self e))
    obtain ⟨hkept, hcounter⟩ :
        (machine.run (b, shared) events).1.1.strategy = .roundRobin ∧ _ :=
      counter_run hstrategy hbefore
    have hlength : (events.map Selection.query).length = (machine.run (b, shared) events).2.length := by
      rw [Machine.length_answers, List.length_map]
    rw [Machine.run_snoc, List.map_append, List.map_singleton, answersTo_snoc q hlength,
      usesBefore_snoc, List.map_append, ih hbefore]
    congr 1
    by_cases hsame : e.query = q
    · subst hsame
      have hstep := select_of_roundRobin (e := e) hkept (by rw [hfound]; exact hq)
      rw [hfound, answer_selectRoundRobin, hcounter] at hstep
      rw [if_pos rfl, if_pos rfl, List.map_singleton]
      exact congrArg (fun a => [a]) (congrArg Prod.snd hstep)
    · rw [if_neg hsame, if_neg hsame]
      rfl

/-- Of its instances a query gets each equally often, in all its selections in a row. -/
def Fair (found : List Service) (answers : List (Option (Option Service))) : Prop :=
  ∀ k window, window <:+: answers → window.length = k * found.length →
    ∀ svc ∈ found, window.count (some (some svc)) = k

/-- Of as many selections of a query in a row as it has instances no two have the same number
of uses of the counter before them, modulo the number of instances. The uses are counted from
the value `b` has for the counter, which starts again at 2^64. -/
def Spread (b : Balancer) (results : Query → List Service) (q : Query) (queries : List Query) :
    Prop :=
  let start := (b.counter (q.counterName (results q))).toNat
  ∀ window, window <:+: usesBefore results q queries → window.length = (results q).length →
    window.Pairwise fun u v =>
      ¬ (start + u) % 2 ^ 64 ≡ (start + v) % 2 ^ 64 [MOD (results q).length]

theorem indexAfter_eq (b : Balancer) (results : Query → List Service) (q : Query) (uses : ℕ) :
    b.indexAfter results q uses =
      ((b.counter (q.counterName (results q))).toNat + uses) % 2 ^ 64 % (results q).length := by
  rw [indexAfter, UInt64.toNat_add, UInt64.toNat_ofNat', Nat.add_mod_mod]

theorem spread_iff (b : Balancer) (results : Query → List Service) (q : Query)
    (queries : List Query) : Spread b results q queries ↔
      ∀ window, window <:+: usesBefore results q queries → window.length = (results q).length →
        (window.map (b.indexAfter results q)).Nodup := by
  refine forall₃_congr fun window _ _ => ?_
  rw [List.Nodup, List.pairwise_map]
  simp only [indexAfter_eq]
  rfl

theorem infix_map_iff {A B : Type} (f : A → B) (l : List A) (window : List B) :
    window <:+: l.map f ↔ ∃ w, w <:+: l ∧ window = w.map f := by
  constructor
  · rintro ⟨before, after, h⟩
    obtain ⟨x, y, rfl, hx, hy⟩ := List.map_eq_append_iff.mp h.symm
    obtain ⟨p, w, rfl, -, hw⟩ := List.map_eq_append_iff.mp hx
    exact ⟨w, ⟨p, y, rfl⟩, hw.symm⟩
  · rintro ⟨w, ⟨before, after, rfl⟩, rfl⟩
    exact ⟨before.map f, after.map f, by rw [List.map_append, List.map_append]⟩

/-- In a run in which each query finds the same distinct instances throughout, every query
gets its instances evenly just when its selections are spread over the uses of its counter. -/
theorem fair_iff_spread (b : Balancer) (shared : Shared) (hstrategy : b.strategy = .roundRobin)
    (results : Query → List Service) (hdistinct : ∀ q, (results q).Nodup)
    (events : List Selection) (hsteady : Steady results events) :
    (∀ q, Fair (results q)
      (answersTo q (events.map Selection.query) (machine.run (b, shared) events).2)) ↔
    ∀ q, Spread b results q (events.map Selection.query) := by
  refine forall_congr' fun q => ?_
  rw [spread_iff]
  unfold Fair
  by_cases hempty : results q = []
  · refine iff_of_true ?_ ?_
    · rw [hempty]
      exact fun k window _ _ svc hsvc => absurd hsvc List.not_mem_nil
    · intro window _ hlength
      rw [hempty] at hlength
      rw [List.eq_nil_of_length_eq_zero hlength]
      exact List.nodup_nil
  have hpos : 0 < (results q).length := List.length_pos_iff.mpr hempty
  have hindex : ∀ uses, b.indexAfter results q uses < (results q).length := fun uses =>
    Nat.mod_lt _ hpos
  let answer (i : ℕ) : Option (Option Service) := ((results q)[i]?).map some
  have hanswers : answersTo q (events.map Selection.query) (machine.run (b, shared) events).2 =
      ((usesBefore results q (events.map Selection.query)).map (b.indexAfter results q)).map
        answer := by
    rw [answersTo_run hstrategy hsteady hempty, List.map_map]
    rfl
  have hall : ((results q).map fun svc => some (some svc)).Nodup :=
    (hdistinct q).map fun svc svc' h => Option.some.inj (Option.some.inj h)
  have hmem : ∀ a ∈ answersTo q (events.map Selection.query) (machine.run (b, shared) events).2,
      a ∈ (results q).map fun svc => some (some svc) := by
    intro a ha
    rw [hanswers, List.map_map] at ha
    obtain ⟨uses, -, rfl⟩ := List.mem_map.mp ha
    refine List.mem_map.mpr ⟨(results q).get ⟨_, hindex uses⟩, List.get_mem _ _, ?_⟩
    simp only [Function.comp_apply, answer, List.getElem?_eq_getElem (hindex uses), Option.map_some, List.get_eq_getElem]
  have heven := even_windows_iff hall hmem
  rw [List.length_map] at heven
  refine Iff.trans (forall₄_congr fun k window _ _ => ?_) (heven.trans ?_)
  · rw [List.forall_mem_map]
  rw [hanswers]
  constructor
  · intro h window hwindow hlength
    have hnodup := h ((window.map (b.indexAfter results q)).map answer) (by
      rw [infix_map_iff]
      exact ⟨_, (infix_map_iff ..).mpr ⟨window, hwindow, rfl⟩, rfl⟩)
      (by rw [List.length_map, List.length_map, hlength])
    exact hnodup.of_map
  · intro h window hwindow hlength
    obtain ⟨indices, hindices, rfl⟩ := (infix_map_iff ..).mp hwindow
    obtain ⟨uses, huses, rfl⟩ := (infix_map_iff ..).mp hindices
    rw [List.length_map, List.length_map] at hlength
    refine (h uses huses hlength).map_on fun i hi j hj hij => ?_
    obtain ⟨m, -, rfl⟩ := List.mem_map.mp hi
    obtain ⟨n, -, rfl⟩ := List.mem_map.mp hj
    simp only [answer, List.getElem?_eq_getElem (hindex _), Option.map_some, Option.some.injEq]
      at hij
    exact (hdistinct q).getElem_inj_iff.mp hij

/-! ### A query with a counter of its own -/

theorem usesBefore_alone {q : Query} {queries : List Query}
    (h : ∀ q' ∈ queries, Shares results q q' = true ↔ q' = q) :
    usesBefore results q queries = List.range (queries.countP fun q' => q' = q) := by
  induction queries using List.reverseRecOn with
  | nil => rfl
  | append_singleton queries q' ih =>
    have hold := fun p hp => h p (List.mem_append_left [q'] hp)
    have hcount : queries.countP (Shares results q) = queries.countP fun q' => q' = q :=
      List.countP_congr fun p hp => by rw [hold p hp, decide_eq_true_iff]
    rw [usesBefore_snoc, ih hold, List.countP_append, hcount]
    by_cases hq : q' = q
    · simp [hq, List.range_succ]
    · simp [hq]

/-- A query that no other shares its counter with gets its instances evenly as long as the
counter does not wrap around. -/
theorem spread_alone {q : Query} {queries : List Query}
    (h : ∀ q' ∈ queries, Shares results q q' = true ↔ q' = q)
    (hwrap : (b.counter (q.counterName (results q))).toNat + queries.length ≤ 2 ^ 64) :
    Spread b results q queries := by
  intro window hwindow hlength
  generalize (b.counter (q.counterName (results q))).toNat = start at hwrap ⊢
  rw [usesBefore_alone h] at hwindow
  obtain ⟨before, after, hsplit⟩ := hwindow
  have hmany : queries.countP (fun q' => q' = q) ≤ queries.length := List.countP_le_length
  have hat : ∀ i (hi : i < window.length), window.get ⟨i, hi⟩ = before.length + i ∧
      before.length + i < queries.length := by
    intro i hi
    have hfull : (before ++ window ++ after)[before.length + i]? = some (window.get ⟨i, hi⟩) := by
      rw [List.append_assoc, List.getElem?_append_right (Nat.le_add_right _ _),
        Nat.add_sub_cancel_left, List.getElem?_append_left hi]
      exact List.getElem?_eq_getElem hi
    rw [hsplit] at hfull
    obtain ⟨hlt, hget⟩ := List.getElem?_eq_some_iff.mp hfull
    rw [List.getElem_range] at hget
    rw [List.length_range] at hlt
    exact ⟨hget.symm, hlt.trans_le hmany⟩
  rw [List.pairwise_iff_get]
  intro i j hij hmod
  obtain ⟨hi, hilt⟩ := hat i i.isLt
  obtain ⟨hj, hjlt⟩ := hat j j.isLt
  rw [hi, hj, Nat.mod_eq_of_lt (by omega), Nat.mod_eq_of_lt (by omega)] at hmod
  have hdvd := (Nat.modEq_iff_dvd' (by omega)).mp hmod
  have hdiff : start + (before.length + j) - (start + (before.length + i)) = j - i := by omega
  rw [hdiff] at hdvd
  have hle := Nat.le_of_dvd (by omega) hdvd
  have hjlen := j.isLt
  omega

end Balancer

/-! ### Distinct instances -/

namespace Query

variable {v : StoreView}

theorem nodup_of_answers {t : ServiceTable} {now : Time} {p : Service → Prop}
    {result : List Service} (h : t.Answers now p result) : result.Nodup :=
  List.Nodup.of_map Service.name (h.sorted.imp fun hlt heq =>
    absurd (heq ▸ hlt) (List.lt_irrefl _))

theorem nodup_list {t : ServiceTable} (h : t.Indexed) (now : Time) (range : t.data.Order) :
    (t.list now range).Nodup := by
  rw [ServiceTable.list, List.Nodup, List.pairwise_filterMap]
  have hkeys := List.pairwise_map.mp range.nodup_keys
  refine hkeys.imp_of_mem fun {e e'} he he' hne service hs service' hs' heq => hne ?_
  have hname (e : Σ _ : GoString, ServiceEntry) (he : e ∈ range.list) (service : Service)
      (hs : (if e.2.expiresAt > now then some e.2.service else none) = some service) :
      service.name = e.1 := by
    split_ifs at hs
    cases hs
    exact h.name e.1 e.2.service
      (congrArg (Option.map ServiceEntry.service) ((range.mem_list_iff e.1 e.2).mp he))
  rw [← hname e he service hs, ← hname e' he' service' hs', heq]

theorem nodup_queryByTags {t : ServiceTable} (h : t.Indexed) (now : Time) (tags : List GoString)
    (range : t.data.Order) : (t.queryByTags now tags range).Nodup := by
  by_cases htags : tags = []
  · rw [htags]
    exact nodup_list h now range
  · exact nodup_of_answers (h.queryByTags_answers now htags range)

theorem nodup_queryByMetadata {t : ServiceTable} (h : t.Indexed) (now : Time)
    (filters : GoMap GoString GoString) (first rest : filters.Order) (range : t.data.Order) :
    (t.queryByMetadata now filters first rest range).Nodup := by
  by_cases hfilters : filters = ∅
  · subst hfilters
    have hnil : first.list = [] := List.length_eq_zero_iff.mp first.length_list
    rw [ServiceTable.queryByMetadata, hnil]
    exact nodup_list h now range
  · exact nodup_of_answers (h.queryByMetadata_answers now hfilters first rest range)

/-- A query of a store whose services stand under their own names finds distinct services. -/
theorem nodup_find (h : v.table.Indexed) (q : Query) : (q.find v).Nodup := by
  cases q with
  | service serviceTag => exact nodup_queryByTags h v.now [serviceTag] v.range
  | tags names => exact nodup_queryByTags h v.now names v.range
  | metadata filters => exact nodup_queryByMetadata h v.now filters _ _ v.range
  | both names filters =>
    simp only [find, StoreView.queryByTagsAndMetadata, ServiceTable.queryByTagsAndMetadata]
    split_ifs
    · exact nodup_queryByMetadata h v.now filters _ _ v.range
    · exact nodup_queryByTags h v.now names v.range
    · exact List.nodup_nil
    · exact List.nodup_nil
    · exact (List.perm_insertionSort _ _).nodup_iff.mpr
        ((nodup_queryByMetadata h v.later filters _ _ v.range).filter _)

end Query

/-! ### Two queries with one counter -/

namespace Balancer

def api (name : GoString) (tags : List GoString) : Service :=
  ⟨name, str "10.0.0.1", 8080, tags, ∅, []⟩

/-- Two instances, of which one has a second tag. -/
def twoInstances : StoreView :=
  let table := ((⟨∅, ∅, ∅, 0⟩ : ServiceTable).put (api (str "api-1") [str "a", str "b"]) 10).put
    (api (str "api-2") [str "a"]) 10
  ⟨table, 0, 0, GoMap.sorted table.data, GoMap.sorted, GoMap.sorted⟩

theorem indexed_twoInstances : twoInstances.table.Indexed :=
  ((ServiceTable.indexed_empty 0).put _ 10).put _ 10

/-- Selections of the services with tag a, and of those with tag b in between. -/
def inTurn : List Selection :=
  [⟨.tags [str "a"], twoInstances, 0⟩, ⟨.tags [str "b"], twoInstances, 0⟩,
    ⟨.tags [str "a"], twoInstances, 0⟩]

theorem steady_inTurn : Steady (fun q => q.find twoInstances) inTurn := by
  intro e he
  simp only [inTurn, List.mem_cons, List.not_mem_nil, or_false] at he
  rcases he with rfl | rfl | rfl <;> rfl

/-- The query by tag b takes every second place of the counter, and the one by tag a gets the
same instance each time. -/
theorem shared_counter : Steady (fun q => q.find twoInstances) inTurn ∧
    ¬ Fair ((Query.tags [str "a"]).find twoInstances)
      (answersTo (.tags [str "a"]) (inTurn.map Selection.query)
        (machine.run (new .roundRobin, ⟨∅⟩) inTurn).2) := by
  refine ⟨steady_inTurn, fun h => ?_⟩
  have hanswers : answersTo (.tags [str "a"]) (inTurn.map Selection.query)
      (machine.run (new .roundRobin, ⟨∅⟩) inTurn).2 =
      [some (some (api (str "api-1") [str "a", str "b"])),
        some (some (api (str "api-1") [str "a", str "b"]))] := by
    decide +kernel
  have hfound : (Query.tags [str "a"]).find twoInstances =
      [api (str "api-1") [str "a", str "b"], api (str "api-2") [str "a"]] := by
    decide +kernel
  rw [hanswers, hfound] at h
  have hcount := h 1 _ (List.infix_refl _) rfl _ (List.mem_cons_of_mem _ List.mem_cons_self)
  exact absurd hcount (by decide +kernel)

/-- Selections by one tag alone. -/
theorem fair_iff_spread_alone : Fair ((Query.tags [str "a"]).find twoInstances)
    (answersTo (.tags [str "a"]) [.tags [str "a"], .tags [str "a"]]
      (machine.run (new .roundRobin, ⟨∅⟩) [⟨.tags [str "a"], twoInstances, 0⟩,
        ⟨.tags [str "a"], twoInstances, 0⟩]).2) := by
  have hshares : Shares (fun q => q.find twoInstances) (.tags [str "a"]) (.tags [str "a"]) = true := by
    decide +kernel
  have hsteady : Steady (fun q => q.find twoInstances) [⟨.tags [str "a"], twoInstances, 0⟩,
      ⟨.tags [str "a"], twoInstances, 0⟩] := by
    intro e he
    simp only [List.mem_cons, List.not_mem_nil, or_false, or_self] at he
    rw [he]
  refine (fair_iff_spread (new .roundRobin) ⟨∅⟩ rfl (fun q => q.find twoInstances)
    (fun q => q.nodup_find indexed_twoInstances) _ hsteady).mpr (fun q => ?_) (.tags [str "a"])
  by_cases hq : q = .tags [str "a"]
  · subst hq
    refine spread_alone (fun q' hq' => ?_) (by decide)
    simp only [List.map_cons, List.map_nil, List.mem_cons, List.not_mem_nil, or_false, or_self]
      at hq'
    rw [hq']
    exact iff_of_true hshares rfl
  · intro window hwindow _
    have hnone : usesBefore (fun q => q.find twoInstances) q
        [.tags [str "a"], .tags [str "a"]] = [] := by
      simp [usesBefore, Ne.symm hq]
    have hempty : window = [] := List.infix_nil.mp (hnone ▸ hwindow)
    rw [hempty]
    exact List.Pairwise.nil

end Balancer

end Konsul
