import Konsul.Agent.Cache
import Konsul.Graphql.Resolver
import Konsul.Store.QueryExact

/-!
# Which services the read paths report

A read path answers with the contents of services: `reports`. `Get` and its like leave
out a service whose expiry is before the clock, the lists and the queries one whose
expiry is not after it; the resolvers and the agent sync go through all the data, and
mark an expired service or send its expiry along. At the expiry itself the first two
differ; at every other instant, what a path reports as present is what is live.
-/

namespace Konsul

open GoLib

/-! ### The paths -/

inductive ServiceStatus where
  | active
  | expired
  deriving DecidableEq

/-- A service of the GraphQL schema; its checks come from a resolver of their own. -/
structure GraphqlService extends ServiceDataSnapshot where
  status : ServiceStatus
  expiresAt : Time
  deriving DecidableEq

def mapServiceFromStore (now : Time) (svc : Service) (entry : ServiceEntry) : GraphqlService :=
  { svc.toSnapshot with
    status := if entry.expiresAt < now then .expired else .active
    expiresAt := entry.expiresAt }

/-- The services in the answer of a field. -/
def FieldResult.services (now : Time) : FieldResult → List GraphqlService
  | .ok (.service svc entry) => [mapServiceFromStore now svc entry]
  | .ok (.services entries) => entries.map fun entry => mapServiceFromStore now entry.service entry
  | _ => []

namespace ServiceTable

/-- The services a query field answers with. -/
def resolved (t : ServiceTable) (now : Time) (range : t.data.Order)
    (other : (c : StoreCall) → c.Answer) (f : QueryField) : List GraphqlService :=
  ((Resolver.queryField f).run (fun (_ : Unit) c => ((), t.listing range other c)) ()).2.services now

/-- A read of the services, with the orders of the maps it goes through. -/
inductive ReadPath (t : ServiceTable) where
  | get
  | getEntry
  | getEntrySnapshot
  | list (range : t.data.Order)
  | queryByTags (tags : List GoString) (range : t.data.Order)
  | queryByMetadata (filters : GoMap GoString GoString) (first rest : filters.Order)
      (range : t.data.Order)
  | service (name : GraphqlString) (range : t.data.Order) (other : (c : StoreCall) → c.Answer)
  | services (range : t.data.Order) (other : (c : StoreCall) → c.Answer)
  | agentSync (kv : GoMap GoString KVEntry) (index : ℤ) (req : SyncRequest) (range : t.data.Order)
      (kvRange : kv.Order)

/-- What the server sends an agent. -/
def sent (t : ServiceTable) (kv : GoMap GoString KVEntry) (index : ℤ) (req : SyncRequest)
    (range : t.data.Order) (kvRange : kv.Order) : List Agent.ServiceUpdate :=
  ((Agent.Server.mk kv t.data index).handleAgentSync req range kvRange).2.serviceUpdates

end ServiceTable

namespace ServiceStore

open ServiceTable

variable (s : ServiceStore) (now : Time)

/-- The services a path reports, whatever it says of them. -/
def reports : ReadPath s.toServiceTable → Set ServiceDataSnapshot
  | .get => {x | ∃ name svc, s.get now name = some svc ∧ svc.toSnapshot = x}
  | .getEntry => {x | ∃ name e, s.getEntry now name = some e ∧ e.service.toSnapshot = x}
  | .getEntrySnapshot => {x | ∃ name e, s.getEntrySnapshot now name = some e ∧ e.service = x}
  | .list range => {x | ∃ svc ∈ s.toServiceTable.list now range, svc.toSnapshot = x}
  | .queryByTags tags range =>
    {x | ∃ svc ∈ s.toServiceTable.queryByTags now tags range, svc.toSnapshot = x}
  | .queryByMetadata filters first rest range =>
    {x | ∃ svc ∈ s.toServiceTable.queryByMetadata now filters first rest range, svc.toSnapshot = x}
  | .service name range other =>
    {x | ∃ g ∈ s.toServiceTable.resolved now range other (.service name), g.toServiceDataSnapshot = x}
  | .services range other =>
    {x | ∃ g ∈ s.toServiceTable.resolved now range other (.services none none),
      g.toServiceDataSnapshot = x}
  | .agentSync kv index req range kvRange =>
    {x | ∃ u ∈ s.toServiceTable.sent kv index req range kvRange,
      ∃ svc, u.service = some svc ∧ svc.toSnapshot = x}

/-- The services a path reports as present: the resolvers mark them active, and the sync
sends them with an expiry that is not past. -/
def presents : ReadPath s.toServiceTable → Set ServiceDataSnapshot
  | .service name range other =>
    {x | ∃ g ∈ s.toServiceTable.resolved now range other (.service name),
      g.status = .active ∧ g.toServiceDataSnapshot = x}
  | .services range other =>
    {x | ∃ g ∈ s.toServiceTable.resolved now range other (.services none none),
      g.status = .active ∧ g.toServiceDataSnapshot = x}
  | .agentSync kv index req range kvRange =>
    {x | ∃ u ∈ s.toServiceTable.sent kv index req range kvRange,
      ∃ svc e, u.service = some svc ∧ u.entry = some e ∧ ¬ e.expiresAt < now ∧ svc.toSnapshot = x}
  | p => s.reports now p

/-- The services that have not expired. -/
def live : Set ServiceDataSnapshot :=
  {x | ∃ name e, s.data.lookup name = some e ∧ now < e.expiresAt ∧ e.service.toSnapshot = x}

end ServiceStore

namespace ServiceTable

/-- What a path asks for. -/
def ReadPath.Asks {t : ServiceTable} : ReadPath t → ServiceDataSnapshot → Prop
  | .queryByTags tags _, x => Tagged tags x.toService
  | .queryByMetadata filters _ _ _, x => Carries filters x.toService
  | .service name _ _, x => x.name = name
  | _, _ => True

/-- The path looks for one service by its own name. -/
def ReadPath.ByOwnName {t : ServiceTable} : ReadPath t → Prop
  | .service _ _ _ => True
  | _ => False

end ServiceTable

/-! ### What each path finds -/

section

variable {s : ServiceStore} {now : Time}

theorem ServiceStore.getEntry_eq_some_iff {name : GoString} {e : ServiceEntry} :
    s.getEntry now name = some e ↔ s.data.lookup name = some e ∧ ¬ e.expiresAt < now := by
  unfold ServiceStore.getEntry
  cases s.data.lookup name with
  | none => exact iff_of_false (fun h => nomatch h) fun h => nomatch h.1
  | some entry =>
    dsimp only
    split_ifs with hexpired
    · refine iff_of_false (fun h => nomatch h) fun h => ?_
      have hsame : entry = e := Option.some.inj h.1
      exact h.2 (hsame ▸ hexpired)
    · constructor
      · intro h
        have hsame : entry = e := Option.some.inj h
        exact ⟨h, hsame ▸ hexpired⟩
      · exact fun h => h.1

namespace ServiceTable

variable {t : ServiceTable}

theorem page_all {α : Type} (items : List α) :
    page none none items = some (items, (items.length : ℤ)) := by
  simp [page]

theorem resolved_services (now : Time) (range : t.data.Order) (other : (c : StoreCall) → c.Answer) :
    t.resolved now range other (.services none none) =
      (t.listAll range).map fun e => mapServiceFromStore now e.service e := by
  have hpage : (Resolver.services none none).run (fun (_ : Unit) c => ((), t.listing range other c)) () =
      ((), (.ok (.services (t.listAll range)) : FieldResult)) := by
    unfold Resolver.services
    rw [Program.run_perform_bind]
    dsimp only [listing]
    rw [page_all]
    rfl
  unfold resolved
  exact congrArg (fun r => FieldResult.services now r.2) hpage

theorem resolved_service (now : Time) (name : GraphqlString) (range : t.data.Order)
    (other : (c : StoreCall) → c.Answer) :
    t.resolved now range other (.service name) =
      (((t.listAll range).filter fun e => e.service.name ∈ [name.val]).head?.toList).map
        fun e => mapServiceFromStore now e.service e := by
  have hrun : (Resolver.service name).run (fun (_ : Unit) c => ((), t.listing range other c)) () =
      ((), .ok (((t.listAll range).filter fun e => e.service.name ∈ [name.val]).head?.elim .null
        fun e => .service e.service e)) := by
    have hnamed : (Resolver.entryNamed name).run (fun (_ : Unit) c => ((), t.listing range other c))
        () = ((), ((t.listAll range).filter fun e => e.service.name ∈ [name.val]).head?) := rfl
    unfold Resolver.service
    rw [Program.run_bind, hnamed]
    cases ((t.listAll range).filter fun e => e.service.name ∈ [name.val]).head? <;> rfl
  unfold resolved
  refine (congrArg (fun r => FieldResult.services now r.2) hrun).trans ?_
  cases ((t.listAll range).filter fun e => e.service.name ∈ [name.val]).head? <;> rfl

theorem sent_eq (kv : GoMap GoString KVEntry) (index : ℤ) (req : SyncRequest)
    (range : t.data.Order) (kvRange : kv.Order) :
    t.sent kv index req range kvRange =
      range.list.map fun e => ⟨Agent.updateTypeAdd, e.1, some e.2.service, some e.2⟩ := by
  unfold sent Agent.Server.handleAgentSync
  split_ifs <;> rfl

theorem mem_resolved_service {now : Time} {name : GraphqlString} {range : t.data.Order}
    {other : (c : StoreCall) → c.Answer} {g : GraphqlService}
    (h : g ∈ t.resolved now range other (.service name)) :
    ∃ key e, t.data.lookup key = some e ∧ e.service.name = name ∧
      mapServiceFromStore now e.service e = g := by
  rw [resolved_service, List.mem_map] at h
  obtain ⟨e, he, hg⟩ := h
  have hhead := Option.mem_toList.mp he
  have hmem := List.mem_of_mem_head? hhead
  rw [List.mem_filter, mem_listAll_iff] at hmem
  obtain ⟨⟨key, hkey⟩, hname⟩ := hmem
  have hown : e.service.name = name := by simpa using hname
  exact ⟨key, e, hkey, hown, hg⟩

theorem resolved_service_ne_nil (now : Time) {name : GraphqlString} (range : t.data.Order)
    (other : (c : StoreCall) → c.Answer) {key : GoString} {e : ServiceEntry}
    (he : t.data.lookup key = some e) (hname : e.service.name = name) :
    t.resolved now range other (.service name) ≠ [] := by
  have hmem : e ∈ (t.listAll range).filter fun e => e.service.name ∈ [name.val] := by
    rw [List.mem_filter, mem_listAll_iff]
    exact ⟨⟨key, he⟩, by simp [hname]⟩
  rw [resolved_service]
  cases hhead : ((t.listAll range).filter fun e => e.service.name ∈ [name.val]).head? with
  | none =>
    rw [List.head?_eq_none_iff] at hhead
    rw [hhead] at hmem
    exact absurd hmem List.not_mem_nil
  | some e => exact List.cons_ne_nil _ _

end ServiceTable

theorem mapServiceFromStore_active_iff (now : Time) (svc : Service) (e : ServiceEntry) :
    (mapServiceFromStore now svc e).status = .active ↔ ¬ e.expiresAt < now := by
  unfold mapServiceFromStore
  by_cases hexpired : e.expiresAt < now
  · simp [hexpired]
  · simp [hexpired]

/-! ### One set -/

namespace ServiceStore

open ServiceTable

/-- The services stored under a name and not expired by the test of `Get`. -/
theorem mem_live_iff (hnow : ∀ name e, s.data.lookup name = some e → e.expiresAt ≠ now)
    (x : ServiceDataSnapshot) : x ∈ s.live now ↔
      ∃ name e, s.data.lookup name = some e ∧ ¬ e.expiresAt < now ∧ e.service.toSnapshot = x := by
  refine exists_congr fun name => exists_congr fun e => and_congr_right fun he => ?_
  have hne := hnow name e he
  rw [not_lt]
  exact and_congr_left fun _ => ⟨le_of_lt, fun hle => lt_of_le_of_ne hle hne.symm⟩

/-- Away from the expiry of a service every path presents the live services it asks for;
the one that goes by own names needs each service to be under its own. -/
theorem presents_eq (h : s.toServiceTable.Mirrored)
    (hnow : ∀ name e, s.data.lookup name = some e → e.expiresAt ≠ now)
    (p : ReadPath s.toServiceTable)
    (hnames : p.ByOwnName → ∀ name e, s.data.lookup name = some e → e.service.name = name) :
    s.presents now p = {x | x ∈ s.live now ∧ p.Asks x} := by
  ext x
  have hlive := mem_live_iff hnow x
  cases p with
  | get =>
    simp only [presents, reports, get, Option.map_eq_some_iff, getEntry_eq_some_iff,
      ReadPath.Asks, and_true, Set.mem_ofPred_eq, hlive]
    constructor
    · rintro ⟨name, svc, ⟨e, ⟨he, hunexpired⟩, rfl⟩, hx⟩
      exact ⟨name, e, he, hunexpired, hx⟩
    · rintro ⟨name, e, he, hunexpired, hx⟩
      exact ⟨name, _, ⟨e, ⟨he, hunexpired⟩, rfl⟩, hx⟩
  | getEntry =>
    simp only [presents, reports, getEntry_eq_some_iff, ReadPath.Asks, and_true, Set.mem_ofPred_eq,
      hlive, and_assoc]
  | getEntrySnapshot =>
    simp only [presents, reports, getEntrySnapshot, Option.map_eq_some_iff, getEntry_eq_some_iff,
      ReadPath.Asks, and_true, Set.mem_ofPred_eq, hlive]
    constructor
    · rintro ⟨name, _, ⟨e, ⟨he, hunexpired⟩, rfl⟩, hx⟩
      exact ⟨name, e, he, hunexpired, hx⟩
    · rintro ⟨name, e, he, hunexpired, hx⟩
      exact ⟨name, _, ⟨e, ⟨he, hunexpired⟩, rfl⟩, hx⟩
  | list range =>
    simp only [presents, reports, mem_list_iff, ReadPath.Asks, and_true, Set.mem_ofPred_eq]
    constructor
    · rintro ⟨svc, ⟨name, e, he, hafter, rfl⟩, hx⟩
      exact ⟨name, e, he, hafter, hx⟩
    · rintro ⟨name, e, he, hafter, hx⟩
      exact ⟨_, ⟨name, e, he, hafter, rfl⟩, hx⟩
  | queryByTags tags range =>
    simp only [presents, reports, mem_queryByTags_iff h, ReadPath.Asks, Set.mem_ofPred_eq]
    constructor
    · rintro ⟨svc, ⟨name, e, he, hafter, rfl, htagged⟩, rfl⟩
      exact ⟨⟨name, e, he, hafter, rfl⟩, htagged⟩
    · rintro ⟨⟨name, e, he, hafter, rfl⟩, htagged⟩
      exact ⟨_, ⟨name, e, he, hafter, rfl, htagged⟩, rfl⟩
  | queryByMetadata filters first rest range =>
    simp only [presents, reports, mem_queryByMetadata_iff h, ReadPath.Asks, Set.mem_ofPred_eq]
    constructor
    · rintro ⟨svc, ⟨name, e, he, hafter, rfl, hcarries⟩, rfl⟩
      exact ⟨⟨name, e, he, hafter, rfl⟩, hcarries⟩
    · rintro ⟨⟨name, e, he, hafter, rfl⟩, hcarries⟩
      exact ⟨_, ⟨name, e, he, hafter, rfl, hcarries⟩, rfl⟩
  | service name range other =>
    simp only [presents, ReadPath.Asks, Set.mem_ofPred_eq, hlive]
    constructor
    · rintro ⟨g, hg, hactive, rfl⟩
      obtain ⟨key, e, he, hname, rfl⟩ := mem_resolved_service hg
      exact ⟨⟨key, e, he, (mapServiceFromStore_active_iff ..).mp hactive, rfl⟩, hname⟩
    · rintro ⟨⟨key, e, he, hunexpired, rfl⟩, hname⟩
      obtain ⟨g, hg⟩ := List.exists_mem_of_ne_nil _ (resolved_service_ne_nil now range other he hname)
      obtain ⟨key', e', he', hname', rfl⟩ := mem_resolved_service hg
      have hown := hnames trivial key e he
      have hown' := hnames trivial key' e' he'
      have hkey : key' = key := by rw [← hown', ← hown, hname']; exact hname.symm
      rw [hkey, he] at he'
      cases he'
      exact ⟨_, hg, (mapServiceFromStore_active_iff ..).mpr hunexpired, rfl⟩
  | services range other =>
    simp only [presents, resolved_services, List.mem_map, mem_listAll_iff, ReadPath.Asks, and_true,
      Set.mem_ofPred_eq, hlive]
    constructor
    · rintro ⟨g, ⟨e, ⟨name, he⟩, rfl⟩, hactive, hx⟩
      exact ⟨name, e, he, (mapServiceFromStore_active_iff ..).mp hactive, hx⟩
    · rintro ⟨name, e, he, hunexpired, hx⟩
      exact ⟨_, ⟨e, ⟨name, he⟩, rfl⟩, (mapServiceFromStore_active_iff ..).mpr hunexpired, hx⟩
  | agentSync kv index req range kvRange =>
    simp only [presents, sent_eq, List.mem_map, Sigma.exists, GoMap.Order.mem_list_iff,
      ReadPath.Asks, and_true, Set.mem_ofPred_eq, hlive]
    constructor
    · rintro ⟨u, ⟨name, e, he, rfl⟩, svc, e', hsvc, hentry, hunexpired, hx⟩
      cases hsvc
      cases hentry
      exact ⟨name, e, he, hunexpired, hx⟩
    · rintro ⟨name, e, he, hunexpired, hx⟩
      exact ⟨_, ⟨name, e, he, rfl⟩, _, e, rfl, rfl, hunexpired, hx⟩

/-- A resolver of one service presents a live one of that name. -/
theorem presents_service_subset
    (hnow : ∀ name e, s.data.lookup name = some e → e.expiresAt ≠ now) (name : GraphqlString)
    (range : s.data.Order) (other : (c : StoreCall) → c.Answer) :
    s.presents now (.service name range other) ⊆ {x | x ∈ s.live now ∧ x.name = name} := by
  rintro x ⟨g, hg, hactive, rfl⟩
  obtain ⟨key, e, he, hname, rfl⟩ := mem_resolved_service hg
  exact ⟨(mem_live_iff hnow _).mpr
    ⟨key, e, he, (mapServiceFromStore_active_iff ..).mp hactive, rfl⟩, hname⟩

theorem services_expired (range : s.data.Order) (other : (c : StoreCall) → c.Answer) :
    {x | ∃ g ∈ s.toServiceTable.resolved now range other (.services none none),
      g.status = .expired ∧ g.toServiceDataSnapshot = x} =
    {x | ∃ name e, s.data.lookup name = some e ∧ e.expiresAt < now ∧ e.service.toSnapshot = x} := by
  ext x
  have hexpired (e : ServiceEntry) : (mapServiceFromStore now e.service e).status = .expired ↔
      e.expiresAt < now := by
    unfold mapServiceFromStore
    by_cases hbefore : e.expiresAt < now
    · simp [hbefore]
    · simp [hbefore]
  simp only [resolved_services, List.mem_map, mem_listAll_iff, Set.mem_ofPred_eq]
  constructor
  · rintro ⟨g, ⟨e, ⟨name, he⟩, rfl⟩, hmark, hx⟩
    exact ⟨name, e, he, (hexpired e).mp hmark, hx⟩
  · rintro ⟨name, e, he, hbefore, hx⟩
    exact ⟨_, ⟨e, ⟨name, he⟩, rfl⟩, (hexpired e).mpr hbefore, hx⟩

/-- Every path reports one set, as far as it asks, without a service whose expiry is past. -/
def ReportsAgree (s : ServiceStore) (now : Time) : Prop :=
  ∃ S : Set ServiceDataSnapshot, (∀ p, s.reports now p = {x | x ∈ S ∧ p.Asks x}) ∧
    ∀ x ∈ S, ∃ name e, s.data.lookup name = some e ∧ ¬ e.expiresAt < now ∧ e.service.toSnapshot = x

end ServiceStore

end

namespace ServiceEvent

open ServiceTable

/-- At every instant at which no stored service is just expiring, the services that the paths
present are the live ones, as far as each asks; `services` marks the other ones expired. -/
theorem presents_live (ttl : Duration) (run : List ServiceEvent) (now : Time)
    (hnow : ∀ name e, (machine.run (.newWithTTL ttl) run).1.data.lookup name = some e →
      e.expiresAt ≠ now) :
    let s := (machine.run (.newWithTTL ttl) run).1
    (∀ p : ReadPath s.toServiceTable, ¬ p.ByOwnName →
      s.presents now p = {x | x ∈ s.live now ∧ p.Asks x}) ∧
    (∀ name range other,
      s.presents now (.service name range other) ⊆ {x | x ∈ s.live now ∧ x.name = name}) ∧
    ((∀ name e, s.data.lookup name = some e → e.service.name = name) → ∀ name range other,
      s.presents now (.service name range other) = {x | x ∈ s.live now ∧ x.name = name}) ∧
    ∀ range other, {x | ∃ g ∈ s.toServiceTable.resolved now range other (.services none none),
      g.status = .expired ∧ g.toServiceDataSnapshot = x} =
      {x | ∃ name e, s.data.lookup name = some e ∧ e.expiresAt < now ∧ e.service.toSnapshot = x} := by
  intro s
  have hexact : s.toServiceTable.Exact := exact_run ttl run
  refine ⟨fun p hp => ?_, ServiceStore.presents_service_subset hnow, fun hnames name range other => ?_,
    ServiceStore.services_expired⟩
  · exact ServiceStore.presents_eq hexact.mirrored hnow p fun hown => absurd hown hp
  · exact ServiceStore.presents_eq hexact.mirrored hnow (.service name range other) fun _ => hnames

def webRegistered : List ServiceEvent := [.call ⟨.inUtc 0, .register web noMetadata⟩]

theorem lookup_webRegistered :
    ∃ e, (machine.run (.newWithTTL 10) webRegistered).1.data =
        (∅ : GoMap GoString ServiceEntry).insert web.name e ∧
      e.expiresAt = 10 := by
  have hvalid : validateService web noMetadata = none := by decide
  exact ⟨_, step_register_data (.newWithTTL 10) (.inUtc 0) hvalid, rfl⟩

theorem presents_live_web : let s := (machine.run (.newWithTTL 10) webRegistered).1
    (∀ name e, s.data.lookup name = some e → e.expiresAt ≠ 11) ∧
    ∀ range, s.presents 11 (.list range) = {x | x ∈ s.live 11 ∧ True} := by
  intro s
  have hnow : ∀ name e, s.data.lookup name = some e → e.expiresAt ≠ 11 := by
    obtain ⟨e, hdata, hexpires⟩ := lookup_webRegistered
    intro name e' he'
    rw [hdata, GoMap.lookup_insert_ite] at he'
    split_ifs at he'
    · cases he'
      rw [hexpires]
      decide
    · cases he'
  exact ⟨hnow, fun range => (presents_live 10 webRegistered 11 hnow).1 (.list range) fun h => h⟩

/-- At the expiry of a service `Get` reports it and `List` does not; past it, the resolver of
all services reports it, and `List` does not. -/
theorem reports_disagree :
    ¬ (machine.run (.newWithTTL 10) webRegistered).1.ReportsAgree 10 ∧
      ¬ (machine.run (.newWithTTL 10) webRegistered).1.ReportsAgree 11 := by
  obtain ⟨e, hdata, hexpires⟩ := lookup_webRegistered
  generalize (machine.run (.newWithTTL 10) webRegistered).1 = s at hdata
  have hlookup : s.data.lookup web.name = some e := by rw [hdata, GoMap.lookup_insert_ite, if_pos rfl]
  have honly (name : GoString) (e' : ServiceEntry) (he' : s.data.lookup name = some e') : e' = e := by
    rw [hdata, GoMap.lookup_insert_ite] at he'
    split_ifs at he'
    · exact (Option.some.inj he').symm
    · cases he'
  have hlist (now : Time) (hnow : 10 ≤ now) (range : s.data.Order) :
      e.service.toSnapshot ∉ s.reports now (.list range) := by
    rintro ⟨svc, hsvc, -⟩
    obtain ⟨name, e', he', hafter, -⟩ := (mem_list_iff now range svc).mp hsvc
    rw [honly name e' he', hexpires] at hafter
    exact absurd hafter (not_lt.mpr hnow)
  constructor
  · rintro ⟨S, hS, -⟩
    have hget : e.service.toSnapshot ∈ s.reports 10 .get := by
      have hfound : s.getEntry 10 web.name = some e :=
        ServiceStore.getEntry_eq_some_iff.mpr ⟨hlookup, by rw [hexpires]; decide⟩
      exact ⟨web.name, e.service, congrArg (Option.map ServiceEntry.service) hfound, rfl⟩
    rw [hS] at hget
    refine hlist 10 le_rfl (GoMap.sorted _) ?_
    rw [hS]
    exact ⟨hget.1, trivial⟩
  · rintro ⟨S, hS, -⟩
    have hservices : e.service.toSnapshot ∈
        s.reports 11 (.services (GoMap.sorted _) fun c => c.nonempty_answer.some) := by
      refine ⟨mapServiceFromStore 11 e.service e, ?_, rfl⟩
      rw [resolved_services]
      exact List.mem_map_of_mem ((mem_listAll_iff _ e).mpr ⟨web.name, hlookup⟩)
    rw [hS] at hservices
    refine hlist 11 (by decide) (GoMap.sorted _) ?_
    rw [hS]
    exact ⟨hservices.1, trivial⟩

end ServiceEvent

end Konsul
