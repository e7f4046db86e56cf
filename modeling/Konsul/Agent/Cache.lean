import Konsul.Agent.Protocol
import Konsul.Lib.Machine

/-!
# Synchronisation of an agent's cache

The cache is a map of entries by key and of lists of entries by service name; its
capacity and the age at which it drops an entry are left out. The server answers a
sync, full or not, with all it has, as additions; the agent merges them into what it
has. `Fresh` says when a full sync leaves the cache equal to the server.
-/

namespace Konsul.Agent

open GoLib

structure Cache where
  services : GoMap GoString (List ServiceEntry)
  kv : GoMap GoString KVEntry

namespace Cache

def empty : Cache := ⟨∅, ∅⟩

/-- Whether a cached entry of the service is replaced by `new`. -/
def sameInstance (name : GoString) (new entry : ServiceEntry) : Bool :=
  entry.service.name = name ∧ entry.service.address = new.service.address ∧
    entry.service.port = new.service.port

/-- The first entry of the same instance is replaced; without one, `new` is appended. -/
def merge (name : GoString) (new : ServiceEntry) : List ServiceEntry → List ServiceEntry
  | [] => [new]
  | entry :: existing =>
    if sameInstance name new entry then new :: existing else entry :: merge name new existing

def applyServiceUpdate (c : Cache) (update : ServiceUpdate) : Cache :=
  if update.type = updateTypeAdd ∨ update.type = updateTypeUpdate then
    match update.entry with
    | some entry =>
      let existing := (c.services.lookup update.serviceName).getD []
      { c with services :=
          c.services.insert update.serviceName (merge update.serviceName entry existing) }
    | none => c
  else if update.type = updateTypeDelete then
    { c with services := c.services.erase update.serviceName }
  else c

def applyKVUpdate (c : Cache) (update : KVUpdate) : Cache :=
  if update.type = updateTypeAdd ∨ update.type = updateTypeUpdate then
    match update.entry with
    | some entry => { c with kv := c.kv.insert update.key entry }
    | none => c
  else if update.type = updateTypeDelete then { c with kv := c.kv.erase update.key }
  else c

def applyUpdates (c : Cache) (r : SyncResponse) : Cache :=
  r.kvUpdates.foldl applyKVUpdate (r.serviceUpdates.foldl applyServiceUpdate c)

/-- The entries `GetService` finds in the cache. -/
def entriesOf (c : Cache) (name : GoString) : List ServiceEntry :=
  (c.services.lookup name).getD []

end Cache

/-! ### The server's side -/

/-- What the sync handler reads, and the index it counts. -/
structure Server where
  kv : GoMap GoString KVEntry
  services : GoMap GoString ServiceEntry
  globalIndex : ℤ

/-- A key is sent when there are no prefixes, or it has one of them. -/
def watched (prefixes : List GoString) (key : GoString) : Bool :=
  prefixes.isEmpty || prefixes.any fun p => hasPrefix key p

namespace Server

def getAllServiceUpdates (h : Server) (range : h.services.Order) : List ServiceUpdate :=
  range.list.map fun e => ⟨updateTypeAdd, e.1, some e.2.service, some e.2⟩

def getAllKVUpdates (h : Server) (prefixes : List GoString) (range : h.kv.Order) :
    List KVUpdate :=
  if prefixes = [] then range.list.map fun e => ⟨updateTypeAdd, e.1, some e.2⟩
  else (range.list.filter fun e => prefixes.any fun p => hasPrefix e.1 p).map fun e =>
    ⟨updateTypeAdd, e.1, some e.2⟩

def handleAgentSync (h : Server) (req : SyncRequest) (services : h.services.Order)
    (kv : h.kv.Order) : Server × SyncResponse :=
  let currentIndex := h.globalIndex + 1
  ({ h with globalIndex := currentIndex },
    if req.fullSync ∨ req.lastSyncIndex = 0 then
      ⟨currentIndex, h.getAllServiceUpdates services, h.getAllKVUpdates req.watchedPrefixes kv⟩
    else
      -- where only changes would be sent, everything is
      ⟨currentIndex, h.getAllServiceUpdates services, h.getAllKVUpdates req.watchedPrefixes kv⟩)

end Server

/-! ### Runs -/

/-- A server and one of its agents. -/
structure Linked where
  server : Server
  agentID : GoString
  watchedPrefixes : List GoString
  lastIndex : ℤ
  cache : Cache

/-- An order for every map the server may range over. -/
structure Ranges where
  services : (m : GoMap GoString ServiceEntry) → m.Order
  kv : (m : GoMap GoString KVEntry) → m.Order

inductive Round where
  /-- Sets, deletions, registrations and expirations on the server. -/
  | change (kv : GoMap GoString KVEntry) (services : GoMap GoString ServiceEntry)
  /-- `performSync` at `now`; `returned` says whether the response reaches the agent. -/
  | sync (fullSync : Bool) (now : Time) (z : Rfc3339.Zone) (ranges : Ranges) (returned : Bool)

namespace Linked

/-- `performSync`; the second component says whether it completes. -/
def performSync (l : Linked) (fullSync : Bool) (z : Rfc3339.Zone) (ranges : Ranges)
    (returned : Bool) : Linked × Bool :=
  let req : SyncRequest := ⟨l.agentID, l.lastIndex, l.watchedPrefixes, fullSync⟩
  let answer := l.server.handleAgentSync req.json (ranges.services _) (ranges.kv _)
  match answer.2.received z, returned with
  | some resp, true =>
    ({ l with server := answer.1, cache := l.cache.applyUpdates resp,
              lastIndex := resp.currentIndex }, true)
  | _, _ => ({ l with server := answer.1 }, false)

/-- Answers a full sync that completes with the state it leaves and its time. -/
def step (l : Linked) : Round → Linked × Option (Linked × Time)
  | .change kv services => ({ l with server := { l.server with kv := kv, services := services } }, none)
  | .sync fullSync now z ranges returned =>
    let r := l.performSync fullSync z ranges returned
    (r.1, if fullSync && r.2 then some (r.1, now) else none)

def machine : Machine Linked Round (Option (Linked × Time)) := ⟨step⟩

/-- An agent that has cached nothing yet. -/
def start (server : Server) (agentID : GoString) (watchedPrefixes : List GoString) : Linked :=
  ⟨server, agentID, watchedPrefixes, 0, Cache.empty⟩

/-- The cache is the server's state at `now`. -/
structure Exact (l : Linked) (now : Time) : Prop where
  kv : ∀ key, watched l.watchedPrefixes key → l.cache.kv.lookup key = l.server.kv.lookup key
  services : ∀ name, l.cache.entriesOf name =
    ((l.server.services.lookup name).filter fun e => now < e.expiresAt).toList

/-- What is sent survives the JSON text. -/
structure Text (l : Linked) : Prop where
  prefixes : ∀ p ∈ l.watchedPrefixes, Utf8.valid p
  kv : ∀ key e, watched l.watchedPrefixes key → l.server.kv.lookup key = some e →
    Utf8.valid key ∧ e.clean = e
  services : ∀ name e, l.server.services.lookup name = some e → Utf8.valid name ∧ e.json = e

/-- The cache before a full sync that makes it exact: no watched key and no service is
cached that the server has not, none the server has is expired, and a service is
cached at most as one entry of the instance the server has. -/
structure Fresh (l : Linked) (now : Time) : Prop where
  kv : ∀ key, watched l.watchedPrefixes key → l.server.kv.lookup key = none →
    l.cache.kv.lookup key = none
  gone : ∀ name, l.server.services.lookup name = none → l.cache.entriesOf name = []
  live : ∀ name e, l.server.services.lookup name = some e → now < e.expiresAt ∧
    (l.cache.entriesOf name = [] ∨
      ∃ old, l.cache.entriesOf name = [old] ∧ Cache.sameInstance name e old)

end Linked

/-! ### The merge -/

namespace Cache

theorem merge_ne_nil (name : GoString) (new : ServiceEntry) (existing : List ServiceEntry) :
    merge name new existing ≠ [] := by
  cases existing with
  | nil => exact List.cons_ne_nil _ _
  | cons entry existing =>
    rw [merge]
    split_ifs <;> exact List.cons_ne_nil _ _

/-- A merge leaves the new entry alone iff it had nothing to leave beside it. -/
theorem merge_eq_singleton_iff (name : GoString) (new : ServiceEntry)
    (existing : List ServiceEntry) :
    merge name new existing = [new] ↔
      existing = [] ∨ ∃ old, existing = [old] ∧ sameInstance name new old := by
  cases existing with
  | nil => exact iff_of_true rfl (.inl rfl)
  | cons entry existing =>
    rw [merge]
    by_cases hsame : sameInstance name new entry = true
    · rw [if_pos hsame, List.cons.injEq]
      constructor
      · rintro ⟨-, rfl⟩
        exact .inr ⟨entry, rfl, hsame⟩
      · rintro (hnil | ⟨old, hold, -⟩)
        · cases hnil
        · rw [List.cons.injEq] at hold
          exact ⟨rfl, hold.2⟩
    · rw [if_neg hsame]
      constructor
      · intro hone
        rw [List.cons.injEq] at hone
        exact absurd hone.2 (merge_ne_nil name new existing)
      · rintro (hnil | ⟨old, hold, hsame'⟩)
        · cases hnil
        · rw [List.cons.injEq] at hold
          exact absurd (hold.1 ▸ hsame') hsame

theorem foldl_applyServiceUpdate (l : List (Σ _ : GoString, ServiceEntry)) (c : Cache) :
    (l.map fun e => (⟨updateTypeAdd, e.1, some e.2.service, some e.2⟩ : ServiceUpdate)).foldl
        applyServiceUpdate c =
      ⟨l.foldl (fun m e => m.insert e.1 (merge e.1 e.2 ((m.lookup e.1).getD []))) c.services,
        c.kv⟩ := by
  induction l generalizing c with
  | nil => rfl
  | cons e l ih =>
    rw [List.map_cons, List.foldl_cons, ih, List.foldl_cons]
    rfl

theorem foldl_applyKVUpdate (l : List (Σ _ : GoString, KVEntry)) (c : Cache) :
    (l.map fun e => (⟨updateTypeAdd, e.1, some e.2⟩ : KVUpdate)).foldl applyKVUpdate c =
      ⟨c.services, l.foldl (fun m e => m.insert e.1 e.2) c.kv⟩ := by
  induction l generalizing c with
  | nil => rfl
  | cons e l ih =>
    rw [List.map_cons, List.foldl_cons, ih, List.foldl_cons]
    rfl

end Cache

/-! ### What a sync sends and what it leaves -/

theorem Server.getAllKVUpdates_eq (h : Server) (prefixes : List GoString) (range : h.kv.Order) :
    h.getAllKVUpdates prefixes range =
      (range.list.filter fun e => watched prefixes e.1).map fun e =>
        ⟨updateTypeAdd, e.1, some e.2⟩ := by
  unfold getAllKVUpdates watched
  cases prefixes with
  | nil => simp
  | cons p ps => simp

namespace Linked

variable {l : Linked}

theorem add_valid : jsonString updateTypeAdd = updateTypeAdd := by decide

theorem Text.services_received (h : l.Text) (range : l.server.services.Order) :
    (l.server.getAllServiceUpdates range).map ServiceUpdate.json =
      l.server.getAllServiceUpdates range := by
  unfold Server.getAllServiceUpdates
  rw [List.map_map]
  refine List.map_congr_left fun e he => ?_
  obtain ⟨hname, hjson⟩ := h.services e.1 e.2 ((range.mem_list_iff _ _).mp he)
  have hservice : e.2.service.json = e.2.service := congrArg ServiceEntry.service hjson
  simp only [Function.comp_apply, ServiceUpdate.json, add_valid, Utf8.toValid_of_valid hname,
    Option.map_some, hjson, hservice]

theorem Text.kv_received (h : l.Text) (range : l.server.kv.Order) :
    (l.server.getAllKVUpdates l.watchedPrefixes range).map KVUpdate.json =
      l.server.getAllKVUpdates l.watchedPrefixes range := by
  rw [Server.getAllKVUpdates_eq, List.map_map]
  refine List.map_congr_left fun e he => ?_
  obtain ⟨he, hwatched⟩ := List.mem_filter.mp he
  obtain ⟨hkey, hclean⟩ := h.kv e.1 e.2 hwatched ((range.mem_list_iff _ _).mp he)
  simp only [Function.comp_apply, KVUpdate.json, add_valid, Utf8.toValid_of_valid hkey,
    Option.map_some, hclean]

/-- What a sync that completes leaves in the cache. -/
def synced (l : Linked) (ranges : Ranges) : Cache :=
  ⟨(ranges.services l.server.services).list.foldl (fun m e =>
      m.insert e.1 (Cache.merge e.1 e.2 ((m.lookup e.1).getD []))) l.cache.services,
    ((ranges.kv l.server.kv).list.filter fun e => watched l.watchedPrefixes e.1).foldl
      (fun m e => m.insert e.1 e.2) l.cache.kv⟩

theorem performSync_of_text (h : l.Text) (fullSync : Bool) (z : Rfc3339.Zone) (ranges : Ranges)
    (returned : Bool) : (l.performSync fullSync z ranges returned).2 = true →
      (l.performSync fullSync z ranges returned).1 =
        { l with server := { l.server with globalIndex := l.server.globalIndex + 1 }
                 cache := l.synced ranges
                 lastIndex := l.server.globalIndex + 1 } := by
  have hprefixes : (SyncRequest.json ⟨l.agentID, l.lastIndex, l.watchedPrefixes, fullSync⟩).watchedPrefixes =
      l.watchedPrefixes := map_jsonString_of_valid h.prefixes
  have hanswer : (l.server.handleAgentSync
      (SyncRequest.json ⟨l.agentID, l.lastIndex, l.watchedPrefixes, fullSync⟩)
      (ranges.services _) (ranges.kv _)).2 =
        ⟨l.server.globalIndex + 1, l.server.getAllServiceUpdates (ranges.services _),
          l.server.getAllKVUpdates l.watchedPrefixes (ranges.kv _)⟩ := by
    unfold Server.handleAgentSync
    rw [hprefixes]
    split_ifs <;> rfl
  unfold performSync
  simp only [hanswer, SyncResponse.received, h.services_received, h.kv_received]
  cases returned with
  | false =>
    split_ifs <;> exact fun hno => nomatch hno
  | true =>
    split_ifs
    · intro _
      simp only [Cache.applyUpdates]
      rw [Server.getAllServiceUpdates, Cache.foldl_applyServiceUpdate,
        Server.getAllKVUpdates_eq, Cache.foldl_applyKVUpdate]
      rfl
    · exact fun hno => nomatch hno

theorem synced_kv (ranges : Ranges) (key : GoString) (hkey : watched l.watchedPrefixes key) :
    (l.synced ranges).kv.lookup key =
      (l.server.kv.lookup key).or (l.cache.kv.lookup key) := by
  have hsublist : ((ranges.kv l.server.kv).list.filter fun e =>
      watched l.watchedPrefixes e.1).Sublist (ranges.kv l.server.kv).list := List.filter_sublist
  have hnodup := (ranges.kv l.server.kv).nodup_keys.sublist (hsublist.map Sigma.fst)
  obtain ⟨hin, hout⟩ := GoMap.lookup_foldl_update
    (fun (_ : GoString) (e : KVEntry) (_ : Option KVEntry) => e) hnodup l.cache.kv
  cases hserver : l.server.kv.lookup key with
  | some e =>
    have hmem : (⟨key, e⟩ : Σ _ : GoString, KVEntry) ∈
        (ranges.kv l.server.kv).list.filter fun e => watched l.watchedPrefixes e.1 :=
      List.mem_filter.mpr ⟨((ranges.kv l.server.kv).mem_list_iff key e).mpr hserver, hkey⟩
    exact hin _ hmem
  | none =>
    refine (hout key fun hmem => ?_).trans (Option.none_or).symm
    obtain ⟨⟨k, e⟩, he, rfl⟩ := List.mem_map.mp hmem
    have hlookup := ((ranges.kv l.server.kv).mem_list_iff k e).mp (List.mem_filter.mp he).1
    rw [hserver] at hlookup
    cases hlookup

theorem synced_entriesOf (ranges : Ranges) (name : GoString) :
    (l.synced ranges).entriesOf name =
      match l.server.services.lookup name with
      | some e => Cache.merge name e (l.cache.entriesOf name)
      | none => l.cache.entriesOf name := by
  obtain ⟨hin, hout⟩ := GoMap.lookup_foldl_update
    (fun (name : GoString) (e : ServiceEntry) (old : Option (List ServiceEntry)) =>
      Cache.merge name e (old.getD [])) (ranges.services l.server.services).nodup_keys
    l.cache.services
  unfold Cache.entriesOf
  cases hserver : l.server.services.lookup name with
  | some e =>
    have hmem := ((ranges.services l.server.services).mem_list_iff name e).mpr hserver
    exact congrArg (·.getD []) (hin _ hmem)
  | none =>
    have hnot : name ∉ (ranges.services l.server.services).list.map Sigma.fst := by
      rw [GoMap.Order.mem_keys_iff, ← Finmap.lookup_eq_none]
      exact hserver
    exact congrArg (·.getD []) (hout name hnot)

/-- A full sync that completes is exact iff the cache was fresh before it. -/
theorem exact_iff_fresh (h : l.Text) {fullSync : Bool} {z : Rfc3339.Zone} {ranges : Ranges}
    {returned : Bool} (now : Time)
    (hdone : (l.performSync fullSync z ranges returned).2 = true) :
    (l.performSync fullSync z ranges returned).1.Exact now ↔ l.Fresh now := by
  rw [performSync_of_text h fullSync z ranges returned hdone]
  constructor
  · rintro ⟨hkv, hservices⟩
    refine ⟨fun key hkey hnone => ?_, fun name hnone => ?_, fun name e hsome => ?_⟩
    · have heq : (l.synced ranges).kv.lookup key = l.server.kv.lookup key := hkv key hkey
      rw [synced_kv ranges key hkey, hnone, Option.none_or] at heq
      exact heq
    · have heq := hservices name
      simp only [synced_entriesOf, hnone] at heq
      exact heq
    · have heq := hservices name
      simp only [synced_entriesOf, hsome] at heq
      by_cases hlive : now < e.expiresAt
      · simp only [Option.filter_some, hlive, decide_true, if_true, Option.toList_some] at heq
        exact ⟨hlive, (Cache.merge_eq_singleton_iff name e _).mp heq⟩
      · simp only [Option.filter_some, hlive, decide_false, if_false, Option.toList_none,
          Bool.false_eq_true] at heq
        exact absurd heq (Cache.merge_ne_nil _ _ _)
  · rintro ⟨hkv, hgone, hlive⟩
    refine ⟨fun key hkey => ?_, fun name => ?_⟩
    · change (l.synced ranges).kv.lookup key = l.server.kv.lookup key
      rw [@synced_kv l ranges key hkey]
      cases hserver : l.server.kv.lookup key with
      | some e => rfl
      | none => rw [hkv key hkey hserver, Option.none_or]
    · simp only [synced_entriesOf]
      cases hserver : l.server.services.lookup name with
      | none => simpa using hgone name hserver
      | some e =>
        obtain ⟨hnow, hold⟩ := hlive name e hserver
        simp only [Option.filter_some, hnow, decide_true, if_true, Option.toList_some]
        exact (Cache.merge_eq_singleton_iff name e _).mpr hold

/-- What a run is assumed to keep for the answer to be decided: the strings of the
server and the agent are text when a full sync completes. -/
def TextAt (l : Linked) : Round → Prop
  | .sync true _ z ranges returned => (l.performSync true z ranges returned).2 = true → l.Text
  | _ => True

def FreshAt (l : Linked) : Round → Prop
  | .sync true now z ranges returned => (l.performSync true z ranges returned).2 = true → l.Fresh now
  | _ => True

/-- Every full sync of a run that completes leaves the cache equal to the server iff
each finds the cache fresh. -/
theorem full_syncs_exact_iff (server : Server) (agentID : GoString)
    (watchedPrefixes : List GoString) (rounds : List Round)
    (htext : machine.Along TextAt (start server agentID watchedPrefixes) rounds) :
    (∀ a ∈ (machine.run (start server agentID watchedPrefixes) rounds).2,
      ∀ l now, a = some (l, now) → l.Exact now) ↔
    machine.Along FreshAt (start server agentID watchedPrefixes) rounds := by
  refine machine.forall_answers_iff (fun l round h => ?_) htext
  cases round with
  | change kv services => exact iff_of_true (fun _ _ hno => nomatch hno) trivial
  | sync fullSync now z ranges returned =>
    cases fullSync with
    | false => exact iff_of_true (fun _ _ hno => nomatch hno) trivial
    | true =>
      cases hdone : (l.performSync true z ranges returned).2 with
      | false =>
        simp only [machine, step, hdone, FreshAt]
        exact iff_of_true (fun _ _ hno => nomatch hno) fun hno => nomatch hno
      | true =>
        have hexact := exact_iff_fresh (h hdone) now hdone
        simp only [machine, step, hdone, FreshAt, Bool.and_self, if_true, true_implies, ← hexact]
        constructor
        · exact fun hall => hall _ _ rfl
        · rintro hone l' now' heq
          cases heq
          exact hone

/-- Nothing is cached before the first sync. -/
theorem fresh_start {server : Server} {now : Time}
    (hlive : ∀ name e, server.services.lookup name = some e → now < e.expiresAt)
    (agentID : GoString) (watchedPrefixes : List GoString) :
    (start server agentID watchedPrefixes).Fresh now :=
  ⟨fun _ _ _ => rfl, fun _ _ => rfl, fun name e he => ⟨hlive name e he, .inl rfl⟩⟩

/-- An exact cache stays fresh while the server only adds and overwrites: no watched key and no
live service leaves it, and none moves to another instance. -/
theorem Exact.fresh_change {t now : Time} (h : l.Exact t) {kv : GoMap GoString KVEntry}
    {services : GoMap GoString ServiceEntry}
    (hkv : ∀ key, watched l.watchedPrefixes key → kv.lookup key = none →
      l.server.kv.lookup key = none)
    (hgone : ∀ name old, l.server.services.lookup name = some old → t < old.expiresAt →
      services.lookup name ≠ none)
    (hlive : ∀ name e, services.lookup name = some e → now < e.expiresAt ∧
      ∀ old, l.server.services.lookup name = some old → Cache.sameInstance name e old) :
    (l.step (.change kv services)).1.Fresh now := by
  have hentries (name : GoString) (hnone : l.server.services.lookup name = none) :
      l.cache.entriesOf name = [] := by
    rw [h.services, hnone]
    rfl
  refine ⟨fun key hkey hnone => ?_, fun name hnone => ?_, fun name e he => ⟨(hlive name e he).1, ?_⟩⟩
  · exact (h.kv key hkey).trans (hkv key hkey hnone)
  · show l.cache.entriesOf name = []
    cases hold : l.server.services.lookup name with
    | none => exact hentries name hold
    | some old =>
      rw [h.services, hold, Option.filter_some]
      split_ifs with hlate
      · exact absurd hnone (hgone name old hold (of_decide_eq_true hlate))
      · rfl
  · show l.cache.entriesOf name = [] ∨ ∃ old, l.cache.entriesOf name = [old] ∧ _
    cases hold : l.server.services.lookup name with
    | none => exact .inl (hentries name hold)
    | some old =>
      rw [h.services, hold, Option.filter_some]
      split_ifs with hlate
      · exact .inr ⟨old, rfl, (hlive name e he).2 old hold⟩
      · exact .inl rfl

/-- Maps visited in the order of their keys. -/
def sortedRanges : Ranges := ⟨fun m => GoMap.sorted m, fun m => GoMap.sorted m⟩

def oneKey : Server := ⟨(∅ : GoMap GoString KVEntry).insert (str "k") ⟨str "v", 1, 1, 0⟩, ∅, 0⟩

/-- A watched key, another one, and a service. -/
def small : Server :=
  ⟨((∅ : GoMap GoString KVEntry).insert (str "db/x") ⟨str "0", 1, 1, 0⟩).insert (str "app/a")
      ⟨str "1", 2, 2, 0⟩,
    (∅ : GoMap GoString ServiceEntry).insert (str "web")
      ⟨⟨str "web", str "10.0.0.1", 80, [], ∅, []⟩, 60000000000, 1, 1⟩, 0⟩

/-- A watched key is set again and one is added, the other key goes, the service beats. -/
def later : Server :=
  ⟨((∅ : GoMap GoString KVEntry).insert (str "app/a") ⟨str "2", 3, 2, 0⟩).insert (str "app/b")
      ⟨str "3", 4, 4, 0⟩,
    (∅ : GoMap GoString ServiceEntry).insert (str "web")
      ⟨⟨str "web", str "10.0.0.1", 80, [], ∅, []⟩, 90000000000, 1, 1⟩, 0⟩

def twoSyncs : List Round :=
  [.sync true 0 Rfc3339.utc sortedRanges true, .change later.kv later.services,
    .sync true 30000000000 Rfc3339.utc sortedRanges true]

theorem text_small : (start small [] [str "app/"]).Text := by
  refine ⟨by decide, fun key e _ hkey => ?_, fun name e hname => ?_⟩
  · have hsome : small.kv.lookup key = some e := hkey
    rw [small, GoMap.lookup_insert_ite, GoMap.lookup_insert_ite] at hsome
    split_ifs at hsome with h h' <;> cases hsome
    · exact ⟨by rw [h]; decide, by decide⟩
    · exact ⟨by rw [h']; decide, by decide⟩
  · have hsome : small.services.lookup name = some e := hname
    rw [small, GoMap.lookup_insert_ite] at hsome
    split_ifs at hsome with h <;> cases hsome
    exact ⟨by rw [h]; decide, by decide⟩

theorem text_later (l : Linked) (hprefixes : l.watchedPrefixes = [str "app/"]) :
    (l.step (.change later.kv later.services)).1.Text := by
  refine ⟨fun p hp => ?_, fun key e _ hkey => ?_, fun name e hname => ?_⟩
  · have hone : p ∈ [str "app/"] := hprefixes ▸ hp
    rw [List.mem_singleton.mp hone]
    decide
  · have hsome : later.kv.lookup key = some e := hkey
    rw [later, GoMap.lookup_insert_ite, GoMap.lookup_insert_ite] at hsome
    split_ifs at hsome with h h' <;> cases hsome
    · exact ⟨by rw [h]; decide, by decide⟩
    · exact ⟨by rw [h']; decide, by decide⟩
  · have hsome : later.services.lookup name = some e := hname
    rw [later, GoMap.lookup_insert_ite] at hsome
    split_ifs at hsome with h <;> cases hsome
    exact ⟨by rw [h]; decide, by decide⟩

/-- Two full syncs with changes between them. -/
theorem full_syncs_exact_one_key :
    machine.Along TextAt (start small [] [str "app/"]) twoSyncs ∧
    machine.Along FreshAt (start small [] [str "app/"]) twoSyncs ∧
    ∀ a ∈ (machine.run (start small [] [str "app/"]) twoSyncs).2,
      ∀ l now, a = some (l, now) → l.Exact now := by
  have hdone : ((start small [] [str "app/"]).performSync true Rfc3339.utc sortedRanges true).2 = true := by
    decide +kernel
  have hafter := performSync_of_text text_small true Rfc3339.utc sortedRanges true hdone
  have htext : machine.Along TextAt (start small [] [str "app/"]) twoSyncs := by
    refine ⟨fun _ => text_small, trivial, fun _ => text_later _ ?_, trivial⟩
    exact congrArg watchedPrefixes hafter
  have hfirst : (start small [] [str "app/"]).Fresh 0 := by
    refine fresh_start (fun name e he => ?_) [] [str "app/"]
    rw [small, GoMap.lookup_insert_ite] at he
    split_ifs at he <;> cases he
    decide
  have hexact := (exact_iff_fresh text_small 0 hdone).mpr hfirst
  have hprefixes := congrArg watchedPrefixes hafter
  have hkvs := congrArg (fun l : Linked => l.server.kv) hafter
  have hservices := congrArg (fun l : Linked => l.server.services) hafter
  simp only at hprefixes hkvs hservices
  have hfresh : machine.Along FreshAt (start small [] [str "app/"]) twoSyncs := by
    refine ⟨fun _ => hfirst, trivial, fun _ => hexact.fresh_change (fun key hkey hnone => ?_)
      (fun name old hold _ hnone => ?_) (fun name e he => ?_), trivial⟩
    · rw [hprefixes] at hkey
      rw [hkvs]
      show small.kv.lookup key = none
      rw [later, GoMap.lookup_insert_ite, GoMap.lookup_insert_ite] at hnone
      rw [small, GoMap.lookup_insert_ite, GoMap.lookup_insert_ite]
      split_ifs at hnone with hb ha
      rw [if_neg ha, if_neg fun hx => ?_]
      · rfl
      · -- not a watched key
        rw [hx] at hkey
        exact absurd hkey (by decide)
    · rw [hservices] at hold
      have hsmall : small.services.lookup name = some old := hold
      rw [small, GoMap.lookup_insert_ite] at hsmall
      rw [later, GoMap.lookup_insert_ite] at hnone
      split_ifs at hsmall hnone
      cases hsmall
    · have hlater := he
      rw [later, GoMap.lookup_insert_ite] at hlater
      split_ifs at hlater with hweb <;> cases hlater
      refine ⟨by decide, fun old hold => ?_⟩
      rw [hservices] at hold
      have hsmall : small.services.lookup name = some old := hold
      rw [small, GoMap.lookup_insert_ite, if_pos hweb] at hsmall
      cases hsmall
      rw [hweb]
      decide
  exact ⟨htext, hfresh, (full_syncs_exact_iff small [] [str "app/"] _ htext).mpr hfresh⟩

/-- A key deleted on the server between two full syncs stays in the cache. -/
theorem deleted_key_cached :
    ¬ ∀ (server : Server) (agentID : GoString) (watchedPrefixes : List GoString)
      (rounds : List Round),
      ∀ a ∈ (machine.run (start server agentID watchedPrefixes) rounds).2,
        ∀ l now, a = some (l, now) → l.Exact now := by
  intro h
  have hlast := h oneKey [] [] [.sync true 0 Rfc3339.utc sortedRanges true, .change ∅ ∅,
    .sync true 1 Rfc3339.utc sortedRanges true] _
    (List.mem_cons_of_mem _ (List.mem_cons_of_mem _ (List.mem_cons_self ..))) _ 1 rfl
  have hsame := hlast.kv (str "k") rfl
  revert hsame
  decide +kernel

end Linked

end Konsul.Agent
