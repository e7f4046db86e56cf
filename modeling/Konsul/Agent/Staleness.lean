import Konsul.Agent.KV
import Konsul.Lib.ExpirableLRU
import Konsul.Store.KVSpec

/-!
# How old a cached key may be (internal/agent/cache.go, agent.go, sync.go)

`Aging` is an agent with the clock its cache reads. Keys come into the cache by the answer
to a `GetKV`, by a `SetKV` the server has served, and by a sync; each is on its way for some
time. The value `GetKV` returns the server has shown under the key the request asks for, or
one the agent reads as it, at most the time to live of the cache and the time on the way
ago, whatever the server's state has become since. The cache is any that is `Documented`.
-/

namespace Konsul.Agent

open GoLib

/-- A call that the server has served, and when. -/
inductive AgingCall where
  | asking (key : GoString)
  | filling (key : GoString) (entry : KVEntry) (origin : Time)
  | wrote (key : GoString) (entry : KVEntry) (origin : Time)
  | deleted (key : GoString)

structure Aging (C : Type) where
  now : Time
  server : KVTable
  /-- The server's data at each moment so far. -/
  history : List (Time × GoMap GoString KVEntry)
  cache : C
  calls : GoMap ℕ AgingCall
  /-- Updates a sync has brought that are still to be applied, and when the server made them. -/
  syncing : List (KVUpdate × Time)
  hits : ℕ
  misses : ℕ

inductive AgingStep where
  | tick (elapsed : ℕ)
  /-- Others write to the server. -/
  | change (server : KVTable)
  | getKV (call : ℕ) (key : GoString)
  | answerGet (call : ℕ)
  | fill (call : ℕ)
  | serveSet (call : ℕ) (key : GoString) (entry : KVEntry) (replied : Bool)
  | store (call : ℕ)
  | serveDelete (call : ℕ) (key : GoString) (replied : Bool)
  | remove (call : ℕ)
  | fail (call : ℕ)
  /-- The server answers a sync with the keys it ranges over. -/
  | answerSync (watchedPrefixes : List GoString)
      (range : (m : GoMap GoString KVEntry) → m.Order)
  /-- The first update of the sync is applied. -/
  | applyUpdate
  /-- The cache deletes entries that have expired. -/
  | sweep
  | clear

namespace Aging

variable {C : Type} (lru : ExpirableLRU C GoString KVEntry) (target : GoString → GoString)

def serve (s : Aging C) (server : KVTable) : Aging C :=
  { s with server := server, history := (s.now, server.data) :: s.history }

def begin (s : Aging C) (call : ℕ) (c : AgingCall) : Aging C :=
  { s with calls := s.calls.insert call c }

def close (s : Aging C) (call : ℕ) : Aging C := { s with calls := s.calls.erase call }

/-- `Cache.SetKV`. -/
def caching (s : Aging C) (key : GoString) (entry : KVEntry) : Aging C :=
  { s with cache := lru.add s.cache key entry s.now }

/-- `Cache.ApplyKVUpdate`. -/
def applyKVUpdate (s : Aging C) (update : KVUpdate) : Aging C :=
  if update.type = updateTypeAdd ∨ update.type = updateTypeUpdate then
    match update.entry with
    | some entry => s.caching lru update.key entry
    | none => s
  else if update.type = updateTypeDelete then { s with cache := lru.remove s.cache update.key }
  else s

/-- Answers a `GetKV` that returns an entry with the entry and its key. -/
def step (s : Aging C) : AgingStep → Aging C × Option (GoString × KVEntry)
  | .tick elapsed =>
    let now := s.now + elapsed
    ({ s with now := now, history := (now, s.server.data) :: s.history }, none)
  | .change server => (s.serve server, none)
  | .getKV call key =>
    let found := lru.get s.cache key s.now
    match found.2 with
    | some entry => ({ s with cache := found.1, hits := s.hits + 1 }.close call, some (key, entry))
    | none => ({ s with cache := found.1, misses := s.misses + 1 }.begin call (.asking key), none)
  | .answerGet call =>
    match s.calls.lookup call with
    | some (.asking key) =>
      match s.server.data.lookup (target key) with
      | some e => (s.begin call (.filling key (KVLink.decoded e) s.now), none)
      | none => (s.close call, none)
    | _ => (s, none)
  | .fill call =>
    match s.calls.lookup call with
    | some (.filling key entry _) => ((s.caching lru key entry).close call, some (key, entry))
    | _ => (s, none)
  | .serveSet call key entry replied =>
    let s' := s.serve (KVLink.put s.server (target key) entry)
    (if replied then s'.begin call (.wrote key entry s.now) else s'.close call, none)
  | .store call =>
    match s.calls.lookup call with
    | some (.wrote key entry _) => ((s.caching lru key entry).close call, none)
    | _ => (s, none)
  | .serveDelete call key replied =>
    let s' := s.serve (s.server.remove (target key))
    (if replied then s'.begin call (.deleted key) else s'.close call, none)
  | .remove call =>
    match s.calls.lookup call with
    | some (.deleted key) => ({ s with cache := lru.remove s.cache key }.close call, none)
    | _ => (s, none)
  | .fail call => (s.close call, none)
  | .answerSync watchedPrefixes range =>
    let server : Server := ⟨s.server.data, ∅, 0⟩
    let updates := (server.getAllKVUpdates watchedPrefixes (range _)).map KVUpdate.json
    ({ s with syncing := s.syncing ++ updates.map fun u => (u, s.now) }, none)
  | .applyUpdate =>
    match s.syncing with
    | [] => (s, none)
    | (update, _) :: syncing => 
      (({ s with syncing := syncing } : Aging C).applyKVUpdate lru update, none)
  | .sweep => ({ s with cache := lru.deleteExpired s.cache s.now }, none)
  | .clear => ({ s with cache := lru.purge s.cache, hits := 0, misses := 0 }, none)

def machine : Machine (Aging C) AgingStep (Option (GoString × KVEntry)) := ⟨step lru target⟩

/-- An agent that has just started, with the cache of its configuration. -/
def start (server : KVTable) (maxEntries : ℤ) (kvTTL : Duration) (now : Time) : Aging C where
  now := now
  server := server
  history := [(now, server.data)]
  cache := lru.new maxEntries kvTTL
  calls := ∅
  syncing := []
  hits := 0
  misses := 0

/-! ### Age -/

/-- The server's data have the value under the key. A sync sends the server's own key, which
the agent reads as valid UTF-8. -/
def Shows (data : GoMap GoString KVEntry) (key : GoString) (entry : KVEntry) : Prop :=
  ∃ name e, (name = target key ∨ Utf8.toValid name = key) ∧ data.lookup name = some e ∧
    Utf8.toValid e.value = Utf8.toValid entry.value

/-- The server has shown the value at `since` or later. -/
def ShownSince (s : Aging C) (key : GoString) (entry : KVEntry) (since : Time) : Prop :=
  ∃ m ∈ s.history, since ≤ m.1 ∧ m.1 ≤ s.now ∧ Shows target m.2 key entry

/-- What is cached was no longer than `delay` on its way. -/
def Prompt (delay : Duration) (s : Aging C) : AgingStep → Prop
  | .fill call => ∀ key entry origin, s.calls.lookup call = some (.filling key entry origin) →
      s.now ≤ origin + delay
  | .store call => ∀ key entry origin, s.calls.lookup call = some (.wrote key entry origin) →
      s.now ≤ origin + delay
  | .applyUpdate => ∀ update origin, s.syncing.head? = some (update, origin) →
      s.now ≤ origin + delay
  | _ => True

/-- What a call has been answered the server has shown since. -/
def AgingCall.Shown (s : Aging C) : AgingCall → Prop
  | .filling key entry origin => s.ShownSince target key entry origin
  | .wrote key entry origin => s.ShownSince target key entry origin
  | _ => True

/-- Entries leave the cache `ttl` after they came in, when they were at most `delay` old. -/
structure Inv (ttl delay : Duration) (s : Aging C) : Prop where
  current : (s.now, s.server.data) ∈ s.history
  past : ∀ m ∈ s.history, m.1 ≤ s.now
  lives : lru.ttl s.cache = ttl
  cached : ∀ e ∈ lru.entries s.cache,
    s.ShownSince target e.key e.value (e.expiresAt - ttl - delay)
  calls : ∀ call c, s.calls.lookup call = some c → AgingCall.Shown target s c
  syncing : ∀ u ∈ s.syncing, ∀ entry, u.1.entry = some entry →
    s.ShownSince target u.1.key entry u.2

variable {lru target} {ttl delay : Duration} {s s' : Aging C}

theorem ShownSince.mono {key : GoString} {entry : KVEntry} {since since' : Time}
    (h : s.ShownSince target key entry since) (hsince : since' ≤ since)
    (hhistory : ∀ m ∈ s.history, m ∈ s'.history) (hnow : s.now ≤ s'.now) :
    s'.ShownSince target key entry since' := by
  obtain ⟨m, hm, hle, hpast, hshows⟩ := h
  exact ⟨m, hhistory m hm, hsince.trans hle, hpast.trans hnow, hshows⟩

theorem AgingCall.Shown.mono {c : AgingCall} (h : AgingCall.Shown target s c)
    (hhistory : ∀ m ∈ s.history, m ∈ s'.history) (hnow : s.now ≤ s'.now) :
    AgingCall.Shown target s' c := by
  cases c with
  | filling key entry origin => exact ShownSince.mono h le_rfl hhistory hnow
  | wrote key entry origin => exact ShownSince.mono h le_rfl hhistory hnow
  | asking key => trivial
  | deleted key => trivial

/-- What the server holds now. -/
theorem Inv.shownNow (h : s.Inv lru target ttl delay) {key : GoString} {entry : KVEntry}
    (hshows : Shows target s.server.data key entry) : s.ShownSince target key entry s.now :=
  ⟨_, h.current, le_rfl, le_rfl, hshows⟩

/-! ### The parts of a step -/

/-- Rule for a step after which the agent has what it had, and time or the server went on. -/
theorem Inv.later (h : s.Inv lru target ttl delay) (hnow : s.now ≤ s'.now)
    (hhistory : s'.history = (s'.now, s'.server.data) :: s.history) (hcache : s'.cache = s.cache)
    (hcalls : s'.calls = s.calls) (hsyncing : s'.syncing = s.syncing) :
    s'.Inv lru target ttl delay := by
  have hsub : ∀ m ∈ s.history, m ∈ s'.history := by
    intro m hm
    rw [hhistory]
    exact List.mem_cons_of_mem _ hm
  constructor
  · rw [hhistory]
    exact List.mem_cons_self ..
  · intro m hm
    rw [hhistory] at hm
    rcases List.mem_cons.mp hm with rfl | hm
    · exact le_rfl
    · exact (h.past m hm).trans hnow
  · rw [hcache]
    exact h.lives
  · intro e he
    rw [hcache] at he
    exact (h.cached e he).mono le_rfl hsub hnow
  · intro call c hc
    rw [hcalls] at hc
    exact (h.calls call c hc).mono hsub hnow
  · intro u hu entry hentry
    rw [hsyncing] at hu
    exact (h.syncing u hu entry hentry).mono le_rfl hsub hnow

theorem Inv.serve (h : s.Inv lru target ttl delay) (server : KVTable) :
    (s.serve server).Inv lru target ttl delay := h.later le_rfl rfl rfl rfl rfl

/-- Rule for a step at the agent. -/
theorem Inv.agent (h : s.Inv lru target ttl delay) (hnow : s'.now = s.now)
    (hserver : s'.server = s.server) (hhistory : s'.history = s.history)
    (hlives : lru.ttl s'.cache = ttl)
    (hcached : ∀ e ∈ lru.entries s'.cache, e ∈ lru.entries s.cache ∨
      s.ShownSince target e.key e.value (e.expiresAt - ttl - delay))
    (hcalls : ∀ call c, s'.calls.lookup call = some c →
      s.calls.lookup call = some c ∨ AgingCall.Shown target s c)
    (hsyncing : ∀ u ∈ s'.syncing, u ∈ s.syncing ∨ ∀ entry, u.1.entry = some entry →
      s.ShownSince target u.1.key entry u.2) : s'.Inv lru target ttl delay := by
  have hsub : ∀ m ∈ s.history, m ∈ s'.history := fun m hm => hhistory ▸ hm
  have hle : s.now ≤ s'.now := hnow.ge
  constructor
  · rw [hnow, hserver, hhistory]
    exact h.current
  · intro m hm
    rw [hhistory] at hm
    exact (h.past m hm).trans hle
  · exact hlives
  · intro e he
    rcases hcached e he with hold | hnew
    · exact (h.cached e hold).mono le_rfl hsub hle
    · exact hnew.mono le_rfl hsub hle
  · intro call c hc
    rcases hcalls call c hc with hold | hnew
    · exact (h.calls call c hold).mono hsub hle
    · exact hnew.mono hsub hle
  · intro u hu entry hentry
    rcases hsyncing u hu with hold | hnew
    · exact (h.syncing u hold entry hentry).mono le_rfl hsub hle
    · exact (hnew entry hentry).mono le_rfl hsub hle

theorem Inv.close (h : s.Inv lru target ttl delay) (call : ℕ) :
    (s.close call).Inv lru target ttl delay := by
  refine h.agent rfl rfl rfl h.lives (fun e he => .inl he) (fun call' c hc => ?_) fun u hu => .inl hu
  simp only [Aging.close, GoMap.lookup_erase_ite] at hc
  split_ifs at hc
  exact .inl hc

theorem Inv.begin (h : s.Inv lru target ttl delay) (call : ℕ) {c : AgingCall}
    (hc : AgingCall.Shown target s c) : (s.begin call c).Inv lru target ttl delay := by
  refine h.agent rfl rfl rfl h.lives (fun e he => .inl he) (fun call' c' hc' => ?_)
    fun u hu => .inl hu
  simp only [Aging.begin, GoMap.lookup_insert_ite] at hc'
  split_ifs at hc'
  · cases hc'
    exact .inr hc
  · exact .inl hc'

/-- Rule for a step that only takes entries out of the cache, or counts. -/
theorem Inv.shrink (h : s.Inv lru target ttl delay) (hnow : s'.now = s.now)
    (hserver : s'.server = s.server) (hhistory : s'.history = s.history)
    (hlives : lru.ttl s'.cache = lru.ttl s.cache)
    (hcached : lru.entries s'.cache ⊆ lru.entries s.cache)
    (hcalls : s'.calls = s.calls) (hsyncing : ∀ u ∈ s'.syncing, u ∈ s.syncing) :
    s'.Inv lru target ttl delay :=
  h.agent hnow hserver hhistory (hlives.trans h.lives) (fun _ he => .inl (hcached he))
    (fun _ _ hc => .inl (hcalls ▸ hc)) fun u hu => .inl (hsyncing u hu)

theorem Inv.caching (hlru : lru.Documented) (h : s.Inv lru target ttl delay)
    {key : GoString} {entry : KVEntry} {origin : Time}
    (hshown : s.ShownSince target key entry origin) (hprompt : s.now ≤ origin + delay) :
    (s.caching lru key entry).Inv lru target ttl delay := by
  have hlives := (hlru.ttl_add s.cache key entry s.now).trans h.lives
  refine h.agent rfl rfl rfl hlives (fun e he => ?_) (fun call c hc => .inl hc) fun u hu => .inl hu
  rcases hlru.entries_add _ _ _ _ he with rfl | hold
  · have hage : s.now + lru.ttl s.cache - ttl - delay ≤ origin := by
      rw [h.lives]
      linarith
    exact .inr (hshown.mono hage (fun m hm => hm) le_rfl)
  · exact .inl hold

/-! ### One step -/

theorem toValid_toValid (t : GoString) : Utf8.toValid (Utf8.toValid t) = Utf8.toValid t :=
  Utf8.toValid_of_valid (Utf8.valid_toValid t)

theorem shows_put (t : KVTable) (key : GoString) (entry : KVEntry) :
    Shows target (KVLink.put t (target key) entry).data key entry := by
  have hlookup := t.lookup_put (target key) (Utf8.toValid entry.value)
    (if 0 < entry.flags then some entry.flags else none) (target key)
  rw [if_pos rfl] at hlookup
  refine ⟨target key, _, .inl rfl, hlookup, ?_⟩
  rw [KVTable.newEntry_value, toValid_toValid]

theorem Inv.applyKVUpdate (hlru : lru.Documented) (h : s.Inv lru target ttl delay)
    {update : KVUpdate} {origin : Time}
    (hshown : ∀ entry, update.entry = some entry → s.ShownSince target update.key entry origin)
    (hprompt : s.now ≤ origin + delay) :
    (s.applyKVUpdate lru update).Inv lru target ttl delay := by
  unfold Aging.applyKVUpdate
  split_ifs
  · cases hentry : update.entry with
    | none => exact h
    | some entry => exact h.caching hlru (hshown entry hentry) hprompt
  · exact h.shrink rfl rfl rfl (hlru.ttl_remove ..) (hlru.entries_remove ..) rfl fun u hu => hu
  · exact h

/-- The updates a sync brings are what the server holds. -/
theorem Inv.updates_shown (h : s.Inv lru target ttl delay) (watchedPrefixes : List GoString)
    (range : s.server.data.Order) {update : KVUpdate}
    (hupdate : update ∈ ((⟨s.server.data, ∅, 0⟩ : Server).getAllKVUpdates watchedPrefixes
      range).map KVUpdate.json) {entry : KVEntry} (hentry : update.entry = some entry) :
    s.ShownSince target update.key entry s.now := by
  obtain ⟨sent, hsent, rfl⟩ := List.mem_map.mp hupdate
  rw [Server.getAllKVUpdates_eq] at hsent
  obtain ⟨e, he, rfl⟩ := List.mem_map.mp hsent
  have hlookup := (range.mem_list_iff e.1 e.2).mp (List.mem_filter.mp he).1
  have hvalue : entry = e.2.clean := (Option.some.inj hentry).symm
  refine h.shownNow ⟨e.1, e.2, .inr rfl, hlookup, ?_⟩
  rw [hvalue]
  exact (toValid_toValid e.2.value).symm

theorem Inv.step (hlru : lru.Documented) (h : s.Inv lru target ttl delay) {i : AgingStep}
    (hi : Prompt delay s i) :
    (Aging.step lru target s i).1.Inv lru target ttl delay := by
  cases i with
  | tick elapsed =>
    have hnow : s.now ≤ s.now + (elapsed : ℤ) := by linarith [Int.natCast_nonneg elapsed]
    exact h.later hnow rfl rfl rfl rfl
  | change server => exact h.serve server
  | getKV call key =>
    have hfound := hlru.entries_get s.cache key s.now
    have hlives := hlru.ttl_get s.cache key s.now
    simp only [Aging.step]
    split
    · have hshrunk : Inv lru target ttl delay
          { s with cache := (lru.get s.cache key s.now).1, hits := s.hits + 1 } :=
        h.shrink rfl rfl rfl hlives hfound rfl fun u hu => hu
      exact hshrunk.close call
    · have hshrunk : Inv lru target ttl delay
          { s with cache := (lru.get s.cache key s.now).1, misses := s.misses + 1 } :=
        h.shrink rfl rfl rfl hlives hfound rfl fun u hu => hu
      exact hshrunk.begin call (c := .asking key) trivial
  | answerGet call =>
    simp only [Aging.step]
    split
    · next key hcall =>
      split
      · next e hlookup =>
        have hshown : s.ShownSince target key (KVLink.decoded e) s.now :=
          h.shownNow ⟨target key, e, .inl rfl, hlookup, (toValid_toValid e.value).symm⟩
        exact h.begin call (c := .filling key (KVLink.decoded e) s.now) hshown
      · exact h.close call
    · exact h
  | fill call =>
    simp only [Aging.step]
    split
    · next key entry origin hcall =>
      have hcached := h.caching hlru (h.calls call _ hcall) (hi key entry origin hcall)
      exact hcached.close call
    · exact h
  | serveSet call key entry replied =>
    have hserved := h.serve (KVLink.put s.server (target key) entry)
    cases replied with
    | true =>
      have hshown : AgingCall.Shown target (s.serve (KVLink.put s.server (target key) entry))
          (.wrote key entry s.now) := hserved.shownNow (shows_put s.server key entry)
      exact hserved.begin call hshown
    | false => exact hserved.close call
  | store call =>
    simp only [Aging.step]
    split
    · next key entry origin hcall =>
      have hcached := h.caching hlru (h.calls call _ hcall) (hi key entry origin hcall)
      exact hcached.close call
    · exact h
  | serveDelete call key replied =>
    have hserved := h.serve (s.server.remove (target key))
    cases replied with
    | true => exact hserved.begin call (c := .deleted key) trivial
    | false => exact hserved.close call
  | remove call =>
    simp only [Aging.step]
    split
    · next key hcall =>
      have hshrunk : Inv lru target ttl delay { s with cache := lru.remove s.cache key } :=
        h.shrink rfl rfl rfl (hlru.ttl_remove ..) (hlru.entries_remove ..) rfl fun u hu => hu
      exact hshrunk.close call
    · exact h
  | fail call => exact h.close call
  | answerSync watchedPrefixes range =>
    refine h.agent rfl rfl rfl h.lives (fun e he => .inl he) (fun _ _ hc => .inl hc) fun u hu => ?_
    rcases List.mem_append.mp hu with hold | hnew
    · exact .inl hold
    · obtain ⟨update, hupdate, rfl⟩ := List.mem_map.mp hnew
      exact .inr fun entry hentry => h.updates_shown watchedPrefixes _ hupdate hentry
  | applyUpdate =>
    cases hsyncing : s.syncing with
    | nil =>
      simp only [Aging.step, hsyncing]
      exact h
    | cons u syncing =>
      have hmem : u ∈ s.syncing := hsyncing ▸ List.mem_cons_self ..
      have hprompt : s.now ≤ u.2 + delay := hi u.1 u.2 (by rw [hsyncing]; rfl)
      have hrest : ({ s with syncing := syncing } : Aging C).Inv lru target ttl delay := by
        refine h.shrink rfl rfl rfl rfl subset_rfl rfl fun u' hu' => ?_
        rw [hsyncing]
        exact List.mem_cons_of_mem _ hu'
      simp only [Aging.step, hsyncing]
      exact hrest.applyKVUpdate hlru (fun entry hentry => h.syncing u hmem entry hentry) hprompt
  | sweep =>
    exact h.shrink rfl rfl rfl (hlru.ttl_deleteExpired ..) (hlru.entries_deleteExpired ..) rfl
      fun u hu => hu
  | clear =>
    exact h.shrink rfl rfl rfl (hlru.ttl_purge ..) (hlru.entries_purge ..) rfl fun u hu => hu

/-- What a step answers is no older than the cache lets an entry grow. -/
theorem Inv.answered (hlru : lru.Documented) (h : s.Inv lru target ttl delay) (httl : 0 < ttl)
    {i : AgingStep}
    (hi : Prompt delay s i) {key : GoString} {entry : KVEntry}
    (hanswer : (Aging.step lru target s i).2 = some (key, entry)) :
    s.ShownSince target key entry (s.now - (ttl + delay)) := by
  cases i with
  | getKV call k =>
    simp only [Aging.step] at hanswer
    cases hget : (lru.get s.cache k s.now).2 with
    | none =>
      rw [hget] at hanswer
      cases hanswer
    | some value =>
      rw [hget] at hanswer
      cases hanswer
      obtain ⟨e, he, hkey, hvalue, hlive⟩ := hlru.get_entry _ _ _ _ hget
      have hage : s.now - (ttl + delay) ≤ e.expiresAt - ttl - delay := by linarith
      rw [← hkey, ← hvalue]
      exact (h.cached e he).mono hage (fun m hm => hm) le_rfl
  | fill call =>
    simp only [Aging.step] at hanswer
    split at hanswer
    · next k e origin hcall =>
      cases hanswer
      have hprompt := hi key entry origin hcall
      have hage : s.now - (ttl + delay) ≤ origin := by linarith
      have hshown : s.ShownSince target key entry origin := h.calls call _ hcall
      exact hshown.mono hage (fun m hm => hm) le_rfl
    · cases hanswer
  | answerGet call =>
    simp only [Aging.step] at hanswer
    split at hanswer
    · split at hanswer <;> cases hanswer
    · cases hanswer
  | store call =>
    simp only [Aging.step] at hanswer
    split at hanswer <;> cases hanswer
  | remove call =>
    simp only [Aging.step] at hanswer
    split at hanswer <;> cases hanswer
  | applyUpdate =>
    simp only [Aging.step] at hanswer
    split at hanswer <;> cases hanswer
  | tick elapsed => cases hanswer
  | change server => cases hanswer
  | serveSet call k e replied => cases hanswer
  | serveDelete call k replied => cases hanswer
  | fail call => cases hanswer
  | answerSync watchedPrefixes range => cases hanswer
  | sweep => cases hanswer
  | clear => cases hanswer

variable (target)

theorem inv_start (hlru : lru.Documented) (server : KVTable) (maxEntries : ℤ) {ttl : Duration}
    (httl : 0 < ttl) (delay : Duration) (now : Time) :
    (start lru server maxEntries ttl now).Inv lru target ttl delay where
  current := List.mem_singleton_self _
  past m hm := by
    rw [List.mem_singleton.mp hm]
    exact le_rfl
  lives := hlru.ttl_new _ _ httl
  cached e he := by
    have hnone : e ∈ (∅ : Set (LRUEntry GoString KVEntry)) :=
      hlru.entries_new maxEntries ttl ▸ he
    exact absurd hnone (Set.notMem_empty e)
  calls _ _ hc := nomatch hc
  syncing _ hu := absurd hu List.not_mem_nil

/-- The value `GetKV` returns the server has shown under the key, at most the time to live of
the cache and the longest time an entry was on its way before. -/
theorem kv_staleness_bounded (hlru : lru.Documented) (server : KVTable) (maxEntries : ℤ)
    {kvTTL : Duration} (httl : 0 < kvTTL) (now : Time) (delay : Duration)
    (before : List AgingStep) (i : AgingStep)
    (hprompt : (machine lru target).Along (Prompt delay) (start lru server maxEntries kvTTL now)
      (before ++ [i])) :
    let s := ((machine lru target).run (start lru server maxEntries kvTTL now) before).1
    ∀ key entry, (step lru target s i).2 = some (key, entry) →
      s.ShownSince target key entry (s.now - (kvTTL + delay)) := by
  intro s key entry hanswer
  obtain ⟨hbefore, hlast, -⟩ := ((machine lru target).along_append _ _ before [i]).mp hprompt
  have hinv : s.Inv lru target kvTTL delay :=
    (machine lru target).invariant (fun s i h hi => h.step hlru hi)
      (inv_start target hlru server maxEntries httl delay now) hbefore
  exact hinv.answered hlru httl hlast hanswer

/-- A key is cached, and deleted on the server. -/
def cachedThenGone : List AgingStep :=
  [.getKV 0 (str "k"), .answerGet 0, .tick 1, .fill 0, .change ⟨∅, 1⟩, .tick 5, .sweep]

theorem kv_staleness_bounded_gone :
    let lru := ListLRU.lru GoString KVEntry
    let s := ((machine lru id).run (start lru KVLink.oneEntry 8 10 0) cachedThenGone).1
    s.server.data.lookup (str "k") = none ∧
      (step lru id s (.getKV 1 (str "k"))).2 = some (str "k", ⟨str "v", 0, 0, 0⟩) ∧
      s.ShownSince id (str "k") ⟨str "v", 0, 0, 0⟩ (s.now - (10 + 2)) := by
  have hfilling : ((machine (ListLRU.lru GoString KVEntry) id).run
      (start (ListLRU.lru GoString KVEntry) KVLink.oneEntry 8 10 0)
      [.getKV 0 (str "k"), .answerGet 0, .tick 1]).1.calls.lookup 0 =
        some (.filling (str "k") ⟨str "v", 0, 0, 0⟩ 0) := rfl
  refine ⟨rfl, rfl, kv_staleness_bounded id ListLRU.documented KVLink.oneEntry 8 (by decide) 0 2
    cachedThenGone (.getKV 1 (str "k")) ?_ (str "k") ⟨str "v", 0, 0, 0⟩ rfl⟩
  refine ⟨trivial, trivial, trivial, fun key entry origin hcall => ?_, trivial, trivial, trivial,
    trivial, trivial⟩
  cases hfilling.symm.trans hcall
  decide

end Aging

end Konsul.Agent
