import Konsul.Cmd.RouteTable

/-!
# Which route answers

Two routes of the fixed table are compared on their patterns, once for every pair;
`clears_of_yields` says what the comparison means at every path. The admin
interface is at a path of the configuration and is compared with the others apart.
-/

namespace Konsul

open GoLib

namespace Router

/-! ### Comparing two routes -/

namespace Route

def sample (r : Route) : GoString := join Path.slash (r.pattern.sample (str "~"))

/-- No path is for both. -/
def apart (q r : Route) : Bool := !q.pattern.meets r.pattern

/-- The first takes less than the second. -/
def under (q r : Route) : Bool :=
  r.pattern.covers q.pattern && r.takes r.sample && !q.takes r.sample

variable {q r : Route}

theorem takes_eq (h : r.use = false) (path : GoString) :
    r.takes path = r.pattern.takes (segments path) := by
  rw [takes, h]
  rfl

theorem rejects_of_apart (hq : q.use = false) (hr : r.use = false) (h : q.apart r = true)
    {path : GoString} (hpath : r.takes path = true) : q.takes path = false := by
  rw [takes_eq hr] at hpath
  rw [takes_eq hq]
  cases hx : q.pattern.takes (segments path) with
  | false => rfl
  | true =>
    rw [apart, PathPattern.meets_of_takes hx hpath] at h
    cases h

theorem takes_of_covers (hq : q.use = false) (hr : r.use = false)
    (h : q.pattern.covers r.pattern = true) {path : GoString} (hpath : r.takes path = true) :
    q.takes path = true := by
  rw [takes_eq hr] at hpath
  rw [takes_eq hq]
  exact PathPattern.takes_of_covers h hpath

theorem narrower_of_under (hq : q.use = false) (hr : r.use = false) (h : q.under r = true) :
    Narrower Route.takes q r := by
  rw [under, Bool.and_eq_true, Bool.and_eq_true, Bool.not_eq_true'] at h
  obtain ⟨⟨hcovers, htakes⟩, hrejects⟩ := h
  exact ⟨fun path hpath => takes_of_covers hr hq hcovers hpath, r.sample, htakes, hrejects⟩

end Route

/-- In front of the second, the first leaves it its own paths. -/
def Clears (q r : Route) : Prop :=
  Narrower Route.takes q r ∨ ∀ path, r.takes path = true → q.takes path = false

theorem Clears.of_takes {q r : Route} (h : Clears q r) {path : GoString}
    (hpath : r.takes path = true) : Narrower Route.takes q r ∨ q.takes path = false :=
  h.imp_right fun hapart => hapart path hpath

/-! ### The fixed part of the table -/

/-- Everything enabled. -/
def Config.full : Config := ⟨true, true, true, true, true, [], true, true⟩

/-- `Clears` as far as the patterns show it, but for the two routes that are not cleared. -/
def yields (q r : Route) : Bool :=
  q.methods.all (· ∉ r.methods) || q.apart r || q.under r || r = watchRoute || r = queryRoute

/-- The route of `/kv/*` for GET. -/
def kvRest : Route := ⟨[.head, .get], str "/kv" ++ str "/*", false, .kvGet⟩

def serviceRoute : Route := get "/services/:name" .serviceGet

/-- What is computed from the paths of the table. -/
theorem full_checked :
    (Config.full.beforeUI ++ Config.full.afterUI).Pairwise (yields · ·) ∧
      (∀ q ∈ Config.full.afterUI, q.pattern.isLiteral = true) ∧
      kvRest.pattern.covers watchRoute.pattern = true ∧
      serviceRoute.pattern.covers queryRoute.pattern = true := by
  decide +kernel

theorem use_eq_false_of_full :
    ∀ q ∈ Config.full.beforeUI ++ Config.full.afterUI, q.use = false := by
  decide

theorem action_of_beforeUI : ∀ q ∈ Config.full.beforeUI,
    q.action ∉ [.adminUI, .redirectToUI, .graphql, .playground] := by
  decide

theorem action_of_afterUI :
    ∀ q ∈ Config.full.afterUI, q.action ∈ [.redirectToUI, .graphql, .playground] := by
  decide

theorem action_of_beforeWatch : ∀ q ∈ Config.full.beforeWatch, q.action ≠ .kvWatch := by
  decide

theorem action_of_beforeQuery :
    ∀ q ∈ Config.full.beforeQuery, q.action ≠ .queryByTagsAndMetadata := by
  decide

theorem part_sublist (enabled : Bool) (routes : List Route) : (part enabled routes).Sublist routes := by
  cases enabled with
  | true => exact List.Sublist.refl _
  | false => exact List.nil_sublist _

namespace Config

variable (cfg : Config)

theorem beforeWatch_sublist : cfg.beforeWatch.Sublist full.beforeWatch :=
  (((part_sublist _ _).append (part_sublist _ _)).append (part_sublist _ _)).append
    (List.Sublist.refl _)

theorem beforeQuery_sublist : cfg.beforeQuery.Sublist full.beforeQuery :=
  (cfg.beforeWatch_sublist.append (part_sublist _ _)).append (List.Sublist.refl _)

theorem beforeUI_sublist : cfg.beforeUI.Sublist full.beforeUI :=
  cfg.beforeQuery_sublist.append (List.Sublist.refl _)

theorem afterUI_sublist : cfg.afterUI.Sublist full.afterUI :=
  (part_sublist _ _).append ((part_sublist _ _).trans
    ((List.Sublist.refl _).append (part_sublist _ _)))

variable {cfg} {m : Method} {r : Route}

theorem use_of_beforeUI (hr : r ∈ cfg.beforeUI) : r.use = false :=
  use_eq_false_of_full r (List.mem_append_left _ (cfg.beforeUI_sublist.subset hr))

theorem use_of_afterUI (hr : r ∈ cfg.afterUI) : r.use = false :=
  use_eq_false_of_full r (List.mem_append_right _ (cfg.afterUI_sublist.subset hr))

theorem ne_of_mem_afterUI (hr : r ∈ cfg.afterUI) : r ≠ watchRoute ∧ r ≠ queryRoute := by
  have haction := action_of_afterUI r (cfg.afterUI_sublist.subset hr)
  constructor
  all_goals
    rintro rfl
    simp [watchRoute, queryRoute, get] at haction

theorem uiRoute_notMem : cfg.uiRoute ∉ cfg.beforeUI ∧ cfg.uiRoute ∉ cfg.afterUI := by
  constructor
  · intro h
    cases use_of_beforeUI h
  · intro h
    cases use_of_afterUI h

theorem notMem_of_mem_beforeUI (hr : r ∈ cfg.beforeUI) : r ∉ cfg.afterUI := by
  have hfront := action_of_beforeUI r (cfg.beforeUI_sublist.subset hr)
  intro hafter
  have haction := action_of_afterUI r (cfg.afterUI_sublist.subset hafter)
  exact hfront (List.mem_cons_of_mem _ haction)

theorem mem_routes_iff :
    r ∈ cfg.routes ↔
      r ∈ cfg.beforeUI ∨ (cfg.adminUIEnabled = true ∧ r = cfg.uiRoute) ∨ r ∈ cfg.afterUI := by
  rw [routes, List.mem_append, List.mem_append, or_assoc]
  have hpart : r ∈ part cfg.adminUIEnabled [cfg.uiRoute] ↔
      cfg.adminUIEnabled = true ∧ r = cfg.uiRoute := by
    cases h : cfg.adminUIEnabled <;> simp [part]
  rw [hpart]

/-! ### The routes of one method -/

def forMethod (m : Method) (routes : List Route) : List Route := routes.filter (m ∈ ·.methods)

theorem mem_forMethod {routes : List Route} :
    r ∈ forMethod m routes ↔ r ∈ routes ∧ m ∈ r.methods := by
  simp only [forMethod, List.mem_filter, decide_eq_true_eq]

theorem mem_stack_iff : r ∈ cfg.stack m ↔ r ∈ cfg.routes ∧ m ∈ r.methods := by
  simp only [stack, List.mem_filter, decide_eq_true_eq]

theorem exists_stack_eq_beforeWatch (cfg : Config) (m : Method) :
    ∃ back, cfg.stack m = forMethod m cfg.beforeWatch ++ back := by
  simp only [stack, routes, beforeUI, beforeQuery, List.filter_append, List.append_assoc]
  exact ⟨_, rfl⟩

theorem exists_stack_eq_beforeQuery (cfg : Config) (m : Method) :
    ∃ back, cfg.stack m = forMethod m cfg.beforeQuery ++ back := by
  simp only [stack, routes, beforeUI, List.filter_append, List.append_assoc]
  exact ⟨_, rfl⟩

theorem stack_of_ui (h : cfg.uiRoute ∈ cfg.stack m) :
    cfg.stack m = forMethod m cfg.beforeUI ++ cfg.uiRoute :: forMethod m cfg.afterUI := by
  obtain ⟨hroute, hm⟩ := mem_stack_iff.mp h
  rcases mem_routes_iff.mp hroute with hbefore | henabled | hafter
  · exact absurd hbefore uiRoute_notMem.1
  · simp [stack, routes, forMethod, part, henabled.1, hm]
  · exact absurd hafter uiRoute_notMem.2

theorem stack_of_no_ui (h : cfg.uiRoute ∉ cfg.stack m) :
    cfg.stack m = forMethod m cfg.beforeUI ++ forMethod m cfg.afterUI := by
  have hpart : (part cfg.adminUIEnabled [cfg.uiRoute]).filter (m ∈ ·.methods) = [] := by
    rw [List.filter_eq_nil_iff]
    intro q hq hm
    have hq' : q = cfg.uiRoute := List.mem_singleton.mp ((part_sublist _ _).subset hq)
    have hroute : q ∈ cfg.routes := List.mem_append_left _ (List.mem_append_right _ hq)
    apply h
    rw [← hq']
    exact mem_stack_iff.mpr ⟨hroute, of_decide_eq_true hm⟩
  rw [stack, routes, List.filter_append, List.filter_append, hpart, List.append_nil]
  rfl

theorem exists_stack_eq_beforeUI (cfg : Config) (m : Method) :
    ∃ back, cfg.stack m = forMethod m cfg.beforeUI ++ back := by
  by_cases h : cfg.uiRoute ∈ cfg.stack m
  · exact ⟨_, stack_of_ui h⟩
  · exact ⟨_, stack_of_no_ui h⟩

theorem fixed_sublist :
    (forMethod m cfg.beforeUI ++ forMethod m cfg.afterUI).Sublist
      (full.beforeUI ++ full.afterUI) :=
  (List.filter_sublist.trans cfg.beforeUI_sublist).append
    (List.filter_sublist.trans cfg.afterUI_sublist)

theorem clears_of_yields {q r : Route} (hq : q.use = false) (hr : r.use = false)
    (hqm : m ∈ q.methods) (hrm : m ∈ r.methods) (hwatch : r ≠ watchRoute) (hquery : r ≠ queryRoute)
    (h : yields q r = true) : Clears q r := by
  simp only [yields, Bool.or_eq_true, decide_eq_true_eq, hwatch, hquery, or_false] at h
  rcases h with (hmethods | hapart) | hunder
  · rw [List.all_eq_true] at hmethods
    exact absurd hrm (of_decide_eq_true (hmethods m hqm))
  · right
    intro path
    exact Route.rejects_of_apart hq hr hapart
  · exact Or.inl (Route.narrower_of_under hq hr hunder)

/-- What every pair of the table is checked for, at every path. -/
theorem pairwise_fixed (cfg : Config) (m : Method) :
    (forMethod m cfg.beforeUI ++ forMethod m cfg.afterUI).Pairwise fun q r =>
      r ≠ watchRoute → r ≠ queryRoute → Clears q r := by
  have hmethod : ∀ r ∈ forMethod m cfg.beforeUI ++ forMethod m cfg.afterUI, m ∈ r.methods := by
    intro r hr
    rcases List.mem_append.mp hr with hr | hr
    · exact (mem_forMethod.mp hr).2
    · exact (mem_forMethod.mp hr).2
  refine (full_checked.1.sublist fixed_sublist).imp_of_mem ?_
  intro q r hq hr h hwatch hquery
  have hquse := use_eq_false_of_full q (fixed_sublist.subset hq)
  have hruse := use_eq_false_of_full r (fixed_sublist.subset hr)
  exact clears_of_yields hquse hruse (hmethod q hq) (hmethod r hr) hwatch hquery h

/-! ### What is found first -/

variable {path : GoString}

theorem answer_eq_of_find? (h : (cfg.stack m).find? (·.takes path) = some r) :
    cfg.answer m path = some r.action := by
  rw [answer, h]
  rfl

theorem route_of_answer {a : Action} (h : cfg.answer m path = some a) :
    ∃ r ∈ cfg.stack m, r.takes path = true ∧ r.action = a := by
  obtain ⟨r, hfind, haction⟩ := Option.map_eq_some_iff.mp h
  have hpath := List.find?_some hfind
  exact ⟨r, List.mem_of_find?_eq_some hfind, hpath, haction⟩

/-- A path that a route in front takes is answered in front. -/
theorem answer_ne_of_front {front back : List Route} (hstack : cfg.stack m = front ++ back)
    {q : Route} (hq : q ∈ front) (hpath : q.takes path = true) {a : Action}
    (ha : ∀ q' ∈ front, q'.action ≠ a) : cfg.answer m path ≠ some a := by
  obtain ⟨q', hq', hfind⟩ : ∃ q' ∈ front, (front ++ back).find? (·.takes path) = some q' :=
    find?_mem_front hq hpath
  rw [← hstack] at hfind
  rw [answer_eq_of_find? hfind, ne_eq, Option.some_inj]
  exact ha q' hq'

theorem answer_of_own {front back : List Route} (hstack : cfg.stack m = front ++ r :: back)
    (hown : Own Route.takes (cfg.stack m) r path)
    (hfront : ∀ q ∈ front, Narrower Route.takes q r ∨ q.takes path = false) :
    cfg.answer m path = some r.action := by
  apply answer_eq_of_find?
  rw [hstack] at hown ⊢
  exact find?_of_own hown (fun q hq => List.mem_append_left _ hq) hfront

/-! ### The watch route and the query route -/

/-- `/kv/*` takes what `/kv/watch/:key` is for. -/
theorem answer_watchRoute (hm : m ∈ watchRoute.methods) (hpath : watchRoute.takes path = true) :
    cfg.answer m path ≠ some watchRoute.action := by
  have hq : kvRest ∈ kvRoutes := by simp [kvRest, kvRoutes, group, get]
  have hcovers := full_checked.2.2.1
  obtain ⟨back, hstack⟩ := exists_stack_eq_beforeWatch cfg m
  have hmem : kvRest ∈ forMethod m cfg.beforeWatch :=
    mem_forMethod.mpr ⟨List.mem_append_right _ hq, hm⟩
  refine answer_ne_of_front hstack hmem (Route.takes_of_covers rfl rfl hcovers hpath) ?_
  intro q hq
  exact action_of_beforeWatch q (cfg.beforeWatch_sublist.subset (mem_forMethod.mp hq).1)

/-- `/services/:name` takes what `/services/query` is for. -/
theorem answer_queryRoute (hm : m ∈ queryRoute.methods) (hpath : queryRoute.takes path = true) :
    cfg.answer m path ≠ some queryRoute.action := by
  have hq : serviceRoute ∈ registryRoutes := by simp [serviceRoute, registryRoutes]
  have hcovers := full_checked.2.2.2
  obtain ⟨back, hstack⟩ := exists_stack_eq_beforeQuery cfg m
  have hmem : serviceRoute ∈ forMethod m cfg.beforeQuery :=
    mem_forMethod.mpr ⟨List.mem_append_right _ hq, hm⟩
  refine answer_ne_of_front hstack hmem (Route.takes_of_covers rfl rfl hcovers hpath) ?_
  intro q hq
  exact action_of_beforeQuery q (cfg.beforeQuery_sublist.subset (mem_forMethod.mp hq).1)

/-- No request reaches the handlers of the two. -/
theorem answer_ne_action (hr : r = watchRoute ∨ r = queryRoute) (cfg : Config) (m : Method)
    (path : GoString) : cfg.answer m path ≠ some r.action := by
  intro h
  obtain ⟨q, hq, hpath, haction⟩ := route_of_answer h
  obtain ⟨hroute, hm⟩ := mem_stack_iff.mp hq
  have honly : ∀ q ∈ full.beforeUI, (q.action = watchRoute.action → q = watchRoute) ∧
      (q.action = queryRoute.action → q = queryRoute) := by decide
  rcases mem_routes_iff.mp hroute with hbefore | ⟨-, rfl⟩ | hafter
  · have hq' := honly q (cfg.beforeUI_sublist.subset hbefore)
    rcases hr with rfl | rfl
    · rw [hq'.1 haction] at hm hpath
      exact answer_watchRoute hm hpath h
    · rw [hq'.2 haction] at hm hpath
      exact answer_queryRoute hm hpath h
  · rcases hr with rfl | rfl <;> cases haction
  · have hafter' := action_of_afterUI q (cfg.afterUI_sublist.subset hafter)
    rw [haction] at hafter'
    rcases hr with rfl | rfl <;> simp [watchRoute, queryRoute, get] at hafter'

/-! ### The other routes -/

/-- A route in front of the admin interface gets its own paths but for the two. -/
theorem answer_of_beforeUI (hr : r ∈ forMethod m cfg.beforeUI) (hwatch : r ≠ watchRoute)
    (hquery : r ≠ queryRoute) (hown : Own Route.takes (cfg.stack m) r path) :
    cfg.answer m path = some r.action := by
  obtain ⟨front, back, hsplit⟩ := List.append_of_mem hr
  have hpairs := (List.pairwise_append.mp (pairwise_fixed cfg m)).1
  rw [hsplit, List.pairwise_append] at hpairs
  obtain ⟨behind, hstack⟩ := exists_stack_eq_beforeUI cfg m
  rw [hsplit, List.append_assoc, List.cons_append] at hstack
  refine answer_of_own hstack hown fun q hq => ?_
  have hclears : Clears q r := hpairs.2.2 q hq r (List.mem_cons_self ..) hwatch hquery
  exact hclears.of_takes hown.1

/-- So does one behind it, where the admin interface does not take the path. -/
theorem answer_of_afterUI (hr : r ∈ forMethod m cfg.afterUI)
    (hown : Own Route.takes (cfg.stack m) r path)
    (hui : cfg.uiRoute ∈ cfg.stack m → cfg.uiRoute.takes path = false) :
    cfg.answer m path = some r.action := by
  obtain ⟨hwatch, hquery⟩ := ne_of_mem_afterUI (mem_forMethod.mp hr).1
  obtain ⟨front, back, hsplit⟩ := List.append_of_mem hr
  have hpairs := pairwise_fixed cfg m
  rw [hsplit, ← List.append_assoc, List.pairwise_append] at hpairs
  have hfixed : ∀ q ∈ forMethod m cfg.beforeUI ++ front,
      Narrower Route.takes q r ∨ q.takes path = false := by
    intro q hq
    have hclears : Clears q r := hpairs.2.2 q hq r (List.mem_cons_self ..) hwatch hquery
    exact hclears.of_takes hown.1
  by_cases hmem : cfg.uiRoute ∈ cfg.stack m
  · have hstack := stack_of_ui hmem
    rw [hsplit, ← List.cons_append, ← List.append_assoc] at hstack
    refine answer_of_own hstack hown fun q hq => ?_
    rcases List.mem_append.mp hq with hbefore | hq
    · exact hfixed q (List.mem_append_left _ hbefore)
    · rcases List.mem_cons.mp hq with rfl | hfront
      · exact Or.inr (hui hmem)
      · exact hfixed q (List.mem_append_right _ hfront)
  · have hstack := stack_of_no_ui hmem
    rw [hsplit, ← List.append_assoc] at hstack
    exact answer_of_own hstack hown hfixed

/-- What the admin interface takes is not answered behind it. -/
theorem answer_ne_of_ui (hr : r ∈ cfg.afterUI) (hui : cfg.uiRoute ∈ cfg.stack m)
    (hpath : cfg.uiRoute.takes path = true) : cfg.answer m path ≠ some r.action := by
  have haction := action_of_afterUI r (cfg.afterUI_sublist.subset hr)
  have hstack : cfg.stack m =
      (forMethod m cfg.beforeUI ++ [cfg.uiRoute]) ++ forMethod m cfg.afterUI := by
    rw [stack_of_ui hui, List.append_assoc, List.singleton_append]
  refine answer_ne_of_front hstack (List.mem_append_right _ (List.mem_singleton_self _)) hpath ?_
  intro q hq heq
  rw [← heq] at haction
  rcases List.mem_append.mp hq with hq | hq
  · have hfront := action_of_beforeUI q (cfg.beforeUI_sublist.subset (mem_forMethod.mp hq).1)
    exact hfront (List.mem_cons_of_mem _ haction)
  · rw [List.mem_singleton.mp hq] at haction
    simp [uiRoute] at haction

end Config

/-! ### The admin interface -/

theorem detectionPath_isPrefix (path : GoString) : detectionPath path <+: path.map lowerByte :=
  List.rdropWhile_prefix _ _

theorem detectionPath_concat (path : GoString) :
    detectionPath (path ++ [0x61]) = path.map lowerByte ++ [0x61] := by
  rw [detectionPath, List.map_append]
  exact List.rdropWhile_concat_neg _ _ _ (by decide)

/-- A route for one path is narrower than one for all that begin with a prefix of it. -/
theorem Route.narrower_of_isLiteral {q ui : Route} {path : GoString} (hq : q.use = false)
    (hliteral : q.pattern.isLiteral = true) (hui : ui.use = true) (hpath : q.takes path = true)
    (huipath : ui.takes path = true) : Narrower Route.takes q ui := by
  have hbegins (x : GoString) :
      ui.takes x = true ↔ detectionPath (rooted ui.path) <+: detectionPath x := by
    rw [takes, hui, if_pos rfl, hasPrefix, List.isPrefixOf_iff_prefix]
  -- the paths of the route are one detection path
  have hone (x : GoString) (hx : q.takes x = true) : detectionPath x = detectionPath path := by
    rw [takes_eq hq] at hx hpath
    have hsegments := PathPattern.segments_unique hliteral hx hpath
    rw [← join_split Path.slash (detectionPath x), ← join_split Path.slash (detectionPath path)]
    exact congrArg (join Path.slash) hsegments
  rw [hbegins] at huipath
  refine ⟨fun x hx => ?_, path ++ [0x61], ?_, ?_⟩
  · rw [hbegins, hone x hx]
    exact huipath
  · rw [hbegins, detectionPath_concat]
    exact (huipath.trans (detectionPath_isPrefix path)).trans (List.prefix_append _ _)
  · cases hlonger : q.takes (path ++ [0x61]) with
    | false => rfl
    | true =>
      have heq := congrArg List.length (hone _ hlonger)
      have hle := (detectionPath_isPrefix path).length_le
      rw [detectionPath_concat, List.length_append, List.length_singleton] at heq
      omega

namespace Config

variable {cfg : Config} {m : Method} {r : Route} {path : GoString}

/-- The admin interface gets its own paths unless a route with a parameter or a rest, in
front of it, takes them. -/
theorem answer_uiRoute_iff (hui : cfg.uiRoute ∈ cfg.stack m)
    (hown : Own Route.takes (cfg.stack m) cfg.uiRoute path) :
    cfg.answer m path = some cfg.uiRoute.action ↔
      ¬ ∃ q ∈ cfg.stack m, q.use = false ∧ q.pattern.isLiteral = false ∧ q.takes path = true := by
  have hstack := stack_of_ui hui
  constructor
  · rintro hanswer ⟨q, hq, huse, hopen, hpath⟩
    rw [hstack] at hq
    rcases List.mem_append.mp hq with hbefore | hq
    · refine answer_ne_of_front hstack hbefore hpath ?_ hanswer
      intro q' hq' heq
      have haction := action_of_beforeUI q' (cfg.beforeUI_sublist.subset (mem_forMethod.mp hq').1)
      rw [heq] at haction
      exact haction (List.mem_cons_self ..)
    · rcases List.mem_cons.mp hq with rfl | hafter
      · cases huse
      · have hliteral := full_checked.2.1 q (cfg.afterUI_sublist.subset (mem_forMethod.mp hafter).1)
        rw [hopen] at hliteral
        cases hliteral
  · intro hnone
    refine answer_of_own hstack hown fun q hq => ?_
    have huse : q.use = false := use_of_beforeUI (mem_forMethod.mp hq).1
    cases hpath : q.takes path with
    | false => exact Or.inr rfl
    | true =>
      cases hliteral : q.pattern.isLiteral with
      | true => exact Or.inl (Route.narrower_of_isLiteral huse hliteral rfl hpath hown.1)
      | false =>
        refine absurd ⟨q, ?_, huse, hliteral, hpath⟩ hnone
        rw [hstack]
        exact List.mem_append_left _ hq

/-! ### When the route that answers is another -/

/-- The watch route or the query route, whatever the path; the admin interface, behind a route
with a parameter or a rest that takes the path; a route behind it, when it takes the path. -/
def Shadowed (cfg : Config) (m : Method) (r : Route) (path : GoString) : Prop :=
  r = watchRoute ∨ r = queryRoute ∨
    (r = cfg.uiRoute ∧
      ∃ q ∈ cfg.stack m, q.use = false ∧ q.pattern.isLiteral = false ∧ q.takes path = true) ∨
    (r ∈ cfg.afterUI ∧ cfg.uiRoute ∈ cfg.stack m ∧ cfg.uiRoute.takes path = true)

/-- A path of its own is answered by a route iff nothing shadows the route there. -/
theorem answer_eq_iff (hr : r ∈ cfg.stack m) (hown : Own Route.takes (cfg.stack m) r path) :
    cfg.answer m path = some r.action ↔ ¬ cfg.Shadowed m r path := by
  obtain ⟨hroute, hm⟩ := mem_stack_iff.mp hr
  rcases mem_routes_iff.mp hroute with hbefore | ⟨-, rfl⟩ | hafter
  · by_cases hwatch : r = watchRoute
    · exact iff_of_false (answer_ne_action (Or.inl hwatch) cfg m path) fun h => h (Or.inl hwatch)
    · by_cases hquery : r = queryRoute
      · exact iff_of_false (answer_ne_action (Or.inr hquery) cfg m path)
          fun h => h (Or.inr (Or.inl hquery))
      · refine iff_of_true
          (answer_of_beforeUI (mem_forMethod.mpr ⟨hbefore, hm⟩) hwatch hquery hown) ?_
        rintro (h | h | h | h)
        · exact hwatch h
        · exact hquery h
        · exact uiRoute_notMem.1 (h.1 ▸ hbefore)
        · exact notMem_of_mem_beforeUI hbefore h.1
  · rw [answer_uiRoute_iff hr hown]
    have hafter : cfg.uiRoute ∉ cfg.afterUI := uiRoute_notMem.2
    have hwatch : cfg.uiRoute ≠ watchRoute := by simp [uiRoute, watchRoute, get]
    have hquery : cfg.uiRoute ≠ queryRoute := by simp [uiRoute, queryRoute, get]
    simp only [Shadowed, hwatch, hquery, hafter, false_or, true_and, false_and, or_false]
  · obtain ⟨hwatch, hquery⟩ := ne_of_mem_afterUI hafter
    have hui : r ≠ cfg.uiRoute := fun h => uiRoute_notMem.2 (h ▸ hafter)
    simp only [Shadowed, hwatch, hquery, hui, hafter, false_or, false_and, true_and]
    constructor
    · rintro hanswer ⟨hstack, hpath⟩
      exact answer_ne_of_ui hafter hstack hpath hanswer
    · intro h
      refine answer_of_afterUI (mem_forMethod.mpr ⟨hafter, hm⟩) hown fun hstack => ?_
      cases hpath : cfg.uiRoute.takes path with
      | false => rfl
      | true => exact absurd ⟨hstack, hpath⟩ h

/-- The configuration of an environment that sets nothing. -/
def default : Config := ⟨false, false, false, true, true, str "/admin", false, true⟩

/-- A watch on a key is answered with the key of that name below `watch`. -/
theorem kvGet_answers_watch :
    watchRoute ∈ default.stack .get ∧
      Own Route.takes (default.stack .get) watchRoute (str "/kv/watch/config") ∧
      default.answer .get (str "/kv/watch/config") = some .kvGet ∧ watchRoute.action ≠ .kvGet := by
  have htakes : ∀ q ∈ default.stack .get, q.takes (str "/kv/watch/config") = true →
      q = kvRest ∨ q = watchRoute := by decide +kernel
  refine ⟨by decide +kernel, ⟨by decide +kernel, fun q hq hnarrower => ?_⟩, by decide +kernel,
    by decide⟩
  cases hpath : q.takes (str "/kv/watch/config") with
  | false => rfl
  | true =>
    rcases htakes q hq hpath with rfl | rfl
    · have hbelow : watchRoute.takes (str "/kv/a") = true :=
        hnarrower.1 _ (by decide +kernel)
      exact absurd hbelow (by decide +kernel)
    · exact absurd hnarrower (Narrower.irrefl _)

theorem check_answers_health :
    default.answer .get (str "/health") = some .check ↔
      ¬ default.Shadowed .get (get "/health" .check) (str "/health") := by
  have htakes : ∀ q ∈ default.stack .get, q.takes (str "/health") = true →
      q = get "/health" .check := by decide +kernel
  refine answer_eq_iff (r := get "/health" .check) (by decide +kernel)
    ⟨by decide +kernel, fun q hq hnarrower => ?_⟩
  cases hpath : q.takes (str "/health") with
  | false => rfl
  | true =>
    rw [htakes q hq hpath] at hnarrower
    exact absurd hnarrower (Narrower.irrefl _)

end Config

end Router

end Konsul
