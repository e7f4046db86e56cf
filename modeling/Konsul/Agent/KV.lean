import Konsul.Agent.Cache
import Konsul.Store.KV

/-!
# Keys read and written through an agent

`GetKV`, `SetKV` and `DeleteKV` are a request to the server and then a step on the
cache, and the steps of different calls interleave. `clock` counts what happens at the
server, and a call remembers when its request was served.
`target` is the key the server makes of the path of a request.
-/

namespace Konsul.Agent

open GoLib

/-- A call between its steps, with the key it is about. -/
inductive KVCall where
  /-- `GetKV` has missed the cache; `since` is what had returned by then. -/
  | asking (key : GoString) (since : ℕ)
  /-- `GetKV` has the server's entry, as it was at `origin`. -/
  | filling (key : GoString) (entry : KVEntry) (since origin : ℕ)
  /-- `SetKV` has been served at `origin`. -/
  | wrote (key : GoString) (entry : KVEntry) (origin : ℕ)
  /-- `DeleteKV` has been served at `origin`. -/
  | deleted (key : GoString) (origin : ℕ)

structure KVLink where
  server : KVTable
  clock : ℕ
  /-- The server's data at each moment, as it is now first. -/
  history : List (ℕ × GoMap GoString KVEntry)
  cache : GoMap GoString KVEntry
  calls : GoMap ℕ KVCall
  /-- When the latest write of a key was served, of those whose call is over. -/
  returned : GoMap GoString ℕ

inductive KVStep where
  | getKV (call : ℕ) (key : GoString)
  /-- The server answers a call of `GetKV`. -/
  | answerGet (call : ℕ)
  /-- `GetKV` caches what it was answered and returns it. -/
  | fill (call : ℕ)
  /-- The server serves a call of `SetKV`; without a reply the call is over. -/
  | serveSet (call : ℕ) (key : GoString) (entry : KVEntry) (replied : Bool)
  | store (call : ℕ)
  | serveDelete (call : ℕ) (key : GoString) (replied : Bool)
  | remove (call : ℕ)
  /-- A call fails. -/
  | fail (call : ℕ)
  /-- Others write to the server. -/
  | change (server : KVTable)
  /-- The cache drops an entry, for its age or for want of room. -/
  | evict (key : GoString)

/-- A call is not ahead of the clock. -/
def KVCall.Timed (clock : ℕ) : KVCall → Prop
  | .asking _ since => since ≤ clock
  | .filling _ _ since origin => since ≤ origin ∧ origin ≤ clock
  | .wrote _ _ origin => origin ≤ clock
  | .deleted _ origin => origin ≤ clock

namespace KVLink

variable (target : GoString → GoString)

/-- An entry decoded from the reply to `GET /kv/:key`, which shows the value only. -/
def decoded (e : KVEntry) : KVEntry := ⟨Utf8.toValid e.value, 0, 0, 0⟩

/-- `PUT /kv/:key` with the entry as its body, of which the value and the flags are read. -/
def put (t : KVTable) (key : GoString) (entry : KVEntry) : KVTable :=
  t.put key (Utf8.toValid entry.value) (if 0 < entry.flags then some entry.flags else none)

/-- The server changes. -/
def serve (s : KVLink) (server : KVTable) : KVLink :=
  { s with
    server := server
    clock := s.clock + 1
    history := (s.clock + 1, server.data) :: s.history }

def returnedAt (s : KVLink) (key : GoString) : ℕ := (s.returned.lookup key).getD 0

/-- A write is over. -/
def finish (s : KVLink) (key : GoString) (origin : ℕ) : KVLink :=
  { s with returned := s.returned.insert key (max (s.returnedAt key) origin) }

def close (s : KVLink) (call : ℕ) : KVLink := { s with calls := s.calls.erase call }

def begin (s : KVLink) (call : ℕ) (c : KVCall) : KVLink :=
  { s with calls := s.calls.insert call c }

def caching (s : KVLink) (key : GoString) (entry : KVEntry) : KVLink :=
  { s with cache := s.cache.insert key entry }

def uncaching (s : KVLink) (key : GoString) : KVLink := { s with cache := s.cache.erase key }

def step (s : KVLink) : KVStep → KVLink
  | .getKV call key =>
    match s.cache.lookup key with
    | some _ => s.close call
    | none => s.begin call (.asking key (s.returnedAt key))
  | .answerGet call =>
    match s.calls.lookup call with
    | some (.asking key since) =>
      match s.server.data.lookup (target key) with
      | some e => s.begin call (.filling key (decoded e) since s.clock)
      | none => s.close call
    | _ => s
  | .fill call =>
    match s.calls.lookup call with
    | some (.filling key entry _ _) => (s.caching key entry).close call
    | _ => s
  | .serveSet call key entry replied =>
    let s' := s.serve (put s.server (target key) entry)
    if replied then s'.begin call (.wrote key entry s'.clock) else s'.close call
  | .store call =>
    match s.calls.lookup call with
    | some (.wrote key entry origin) => ((s.caching key entry).finish key origin).close call
    | _ => s
  | .serveDelete call key replied =>
    let s' := s.serve (s.server.remove (target key))
    if replied then s'.begin call (.deleted key s'.clock) else s'.close call
  | .remove call =>
    match s.calls.lookup call with
    | some (.deleted key origin) => ((s.uncaching key).finish key origin).close call
    | _ => s
  | .fail call => s.close call
  | .change server => s.serve server
  | .evict key => s.uncaching key

def machine : Machine KVLink KVStep Unit := ⟨fun s e => (s.step target e, ())⟩

/-- An agent with an empty cache. -/
def start (server : KVTable) : KVLink :=
  { server := server
    clock := 0
    history := [(0, server.data)]
    cache := ∅
    calls := ∅
    returned := ∅ }

/-- The server has held this very entry under the key, at `since` or later. -/
def HeldSince (s : KVLink) (key : GoString) (entry : KVEntry) (since : ℕ) : Prop :=
  ∃ m ∈ s.history, since ≤ m.1 ∧ m.2.lookup key = some entry

/-- What `GetKV` returns is no older than the writes of the key that had returned when
it was called: the cache has an entry that the server has held since, and the server's
answer is from after them. -/
structure Coherent (s : KVLink) : Prop where
  cached : ∀ key entry, s.cache.lookup key = some entry →
    s.HeldSince key entry (s.returnedAt key)
  answered : ∀ call key entry since origin,
    s.calls.lookup call = some (.filling key entry since origin) → since ≤ origin

/-- What a call caches, the server has held since the latest write of the key that is
over, the call itself included. -/
def Keeps (s : KVLink) : KVStep → Prop
  | .fill call => ∀ key entry since origin,
      s.calls.lookup call = some (.filling key entry since origin) →
        s.HeldSince key entry (s.returnedAt key)
  | .store call => ∀ key entry origin, s.calls.lookup call = some (.wrote key entry origin) →
      s.HeldSince key entry (max (s.returnedAt key) origin)
  | _ => True

/-- No call is ahead of the server. -/
structure Timed (s : KVLink) : Prop where
  returned : ∀ key, s.returnedAt key ≤ s.clock
  calls : ∀ call c, s.calls.lookup call = some c → c.Timed s.clock

/-! ### The clock -/

section

variable {s : KVLink}

theorem returnedAt_finish (key : GoString) (origin : ℕ) (k : GoString) :
    (s.finish key origin).returnedAt k =
      if k = key then max (s.returnedAt key) origin else s.returnedAt k := by
  unfold finish returnedAt
  rw [GoMap.lookup_insert_ite]
  split_ifs <;> rfl

theorem of_lookup_begin {call call' : ℕ} {c c' : KVCall}
    (h : (s.begin call c).calls.lookup call' = some c') :
    s.calls.lookup call' = some c' ∨ c' = c := by
  simp only [KVLink.begin, GoMap.lookup_insert_ite] at h
  split_ifs at h
  · exact Or.inr (Option.some.inj h).symm
  · exact Or.inl h

theorem of_lookup_close {call call' : ℕ} {c' : KVCall}
    (h : (s.close call).calls.lookup call' = some c') : s.calls.lookup call' = some c' := by
  simp only [KVLink.close, GoMap.lookup_erase_ite] at h
  split_ifs at h
  exact h

theorem Timed.begin (h : s.Timed) (call : ℕ) {c : KVCall} (hc : c.Timed s.clock) :
    (s.begin call c).Timed where
  returned := h.returned
  calls := by
    intro call' c' hc'
    rcases of_lookup_begin hc' with hold | rfl
    · exact h.calls call' c' hold
    · exact hc

theorem Timed.close (h : s.Timed) (call : ℕ) : (s.close call).Timed where
  returned := h.returned
  calls := fun call' c' hc' => h.calls call' c' (of_lookup_close hc')

theorem timed_mono {c : KVCall} {t t' : ℕ} (h : c.Timed t) (ht : t ≤ t') : c.Timed t' := by
  cases c with
  | asking key since => exact Nat.le_trans h ht
  | filling key entry since origin => exact ⟨h.1, Nat.le_trans h.2 ht⟩
  | wrote key entry origin => exact Nat.le_trans h ht
  | deleted key origin => exact Nat.le_trans h ht

theorem Timed.serve (h : s.Timed) (server : KVTable) : (s.serve server).Timed where
  returned := fun key => Nat.le_succ_of_le (h.returned key)
  calls := fun call c hc => timed_mono (h.calls call c hc) (Nat.le_succ _)

theorem Timed.finish (h : s.Timed) (key : GoString) {origin : ℕ} (ho : origin ≤ s.clock) :
    (s.finish key origin).Timed where
  returned := by
    intro k
    have hk := h.returned k
    have hkey := h.returned key
    rw [returnedAt_finish]
    change _ ≤ s.clock
    split_ifs <;> omega
  calls := h.calls

theorem Timed.congr (h : s.Timed) {s' : KVLink} (hclock : s'.clock = s.clock)
    (hcalls : s'.calls = s.calls) (hreturned : s'.returned = s.returned) : s'.Timed where
  returned := by
    intro key
    have hkey := h.returned key
    unfold returnedAt at hkey ⊢
    rw [hreturned, hclock]
    exact hkey
  calls := by
    rw [hcalls, hclock]
    exact h.calls

/-! ### What a step does -/

/-- The steps, by what they do: nothing to the cache, or one entry in or out of it. -/
inductive Effect (s : KVLink) : KVStep → KVLink → Prop where
  /-- The cache stays, and the server may have changed. -/
  | quiet {e : KVStep} {s' : KVLink} (keeps : s.Keeps e) (cache : s'.cache = s.cache)
      (returned : s'.returned = s.returned) (history : ∀ m ∈ s.history, m ∈ s'.history) :
      Effect s e s'
  | filled {call : ℕ} {key : GoString} {entry : KVEntry} {since origin : ℕ}
      (found : s.calls.lookup call = some (.filling key entry since origin)) :
      Effect s (.fill call) ((s.caching key entry).close call)
  | stored {call : ℕ} {key : GoString} {entry : KVEntry} {origin : ℕ}
      (found : s.calls.lookup call = some (.wrote key entry origin)) :
      Effect s (.store call) (((s.caching key entry).finish key origin).close call)
  | removed {call : ℕ} {key : GoString} {origin : ℕ}
      (found : s.calls.lookup call = some (.deleted key origin)) :
      Effect s (.remove call) (((s.uncaching key).finish key origin).close call)
  | evicted {key : GoString} : Effect s (.evict key) (s.uncaching key)

theorem Effect.still {e : KVStep} (keeps : s.Keeps e) : s.Effect e s :=
  .quiet keeps rfl rfl fun _ hm => hm

theorem step_effect (e : KVStep) : s.Effect e (s.step target e) := by
  cases e with
  | getKV call key =>
    cases hcache : s.cache.lookup key with
    | some entry =>
      simp only [step, hcache]
      exact .quiet trivial rfl rfl fun _ hm => hm
    | none =>
      simp only [step, hcache]
      exact .quiet trivial rfl rfl fun _ hm => hm
  | answerGet call =>
    cases hcall : s.calls.lookup call with
    | none =>
      simp only [step, hcall]
      exact .still trivial
    | some c =>
      cases c with
      | asking key since =>
        cases hlookup : s.server.data.lookup (target key) with
        | none =>
          simp only [step, hcall, hlookup]
          exact .quiet trivial rfl rfl fun _ hm => hm
        | some e =>
          simp only [step, hcall, hlookup]
          exact .quiet trivial rfl rfl fun _ hm => hm
      | _ =>
        simp only [step, hcall]
        exact .still trivial
  | fill call =>
    cases hcall : s.calls.lookup call with
    | none =>
      simp only [step, hcall]
      exact .still (fun _ _ _ _ h => nomatch hcall.symm.trans h)
    | some c =>
      cases c with
      | filling key entry since origin =>
        simp only [step, hcall]
        exact .filled hcall
      | _ =>
        simp only [step, hcall]
        exact .still (fun _ _ _ _ h => nomatch hcall.symm.trans h)
  | serveSet call key entry replied =>
    cases replied <;> exact .quiet trivial rfl rfl fun _ hm => List.mem_cons_of_mem _ hm
  | store call =>
    cases hcall : s.calls.lookup call with
    | none =>
      simp only [step, hcall]
      exact .still (fun _ _ _ h => nomatch hcall.symm.trans h)
    | some c =>
      cases c with
      | wrote key entry origin =>
        simp only [step, hcall]
        exact .stored hcall
      | _ =>
        simp only [step, hcall]
        exact .still (fun _ _ _ h => nomatch hcall.symm.trans h)
  | serveDelete call key replied =>
    cases replied <;> exact .quiet trivial rfl rfl fun _ hm => List.mem_cons_of_mem _ hm
  | remove call =>
    cases hcall : s.calls.lookup call with
    | none =>
      simp only [step, hcall]
      exact .still trivial
    | some c =>
      cases c with
      | deleted key origin =>
        simp only [step, hcall]
        exact .removed hcall
      | _ =>
        simp only [step, hcall]
        exact .still trivial
  | fail call => exact .quiet trivial rfl rfl fun _ hm => hm
  | change server => exact .quiet trivial rfl rfl fun _ hm => List.mem_cons_of_mem _ hm
  | evict key => exact .evicted

theorem Timed.step (h : s.Timed) (e : KVStep) : (s.step target e).Timed := by
  cases e with
  | getKV call key =>
    cases hcache : s.cache.lookup key with
    | some entry =>
      simp only [KVLink.step, hcache]
      exact h.close call
    | none =>
      have hsince : (KVCall.asking key (s.returnedAt key)).Timed s.clock := h.returned key
      simp only [KVLink.step, hcache]
      exact h.begin call hsince
  | answerGet call =>
    cases hcall : s.calls.lookup call with
    | none =>
      simp only [KVLink.step, hcall]
      exact h
    | some c =>
      cases c with
      | asking key since =>
        have hsince : since ≤ s.clock := h.calls call _ hcall
        cases hlookup : s.server.data.lookup (target key) with
        | none =>
          simp only [KVLink.step, hcall, hlookup]
          exact h.close call
        | some e =>
          have hfilling : (KVCall.filling key (decoded e) since s.clock).Timed s.clock :=
            ⟨hsince, Nat.le_refl _⟩
          simp only [KVLink.step, hcall, hlookup]
          exact h.begin call hfilling
      | _ =>
        simp only [KVLink.step, hcall]
        exact h
  | fill call =>
    cases hcall : s.calls.lookup call with
    | none =>
      simp only [KVLink.step, hcall]
      exact h
    | some c =>
      cases c with
      | filling key entry since origin =>
        have hcached : (s.caching key entry).Timed := h.congr rfl rfl rfl
        simp only [KVLink.step, hcall]
        exact hcached.close call
      | _ =>
        simp only [KVLink.step, hcall]
        exact h
  | serveSet call key entry replied =>
    have hserved := h.serve (put s.server (target key) entry)
    cases replied with
    | true => exact hserved.begin call (c := .wrote key entry _) (Nat.le_refl _)
    | false => exact hserved.close call
  | store call =>
    cases hcall : s.calls.lookup call with
    | none =>
      simp only [KVLink.step, hcall]
      exact h
    | some c =>
      cases c with
      | wrote key entry origin =>
        have horigin : origin ≤ s.clock := h.calls call _ hcall
        have hcached : (s.caching key entry).Timed := h.congr rfl rfl rfl
        simp only [KVLink.step, hcall]
        exact (hcached.finish key horigin).close call
      | _ =>
        simp only [KVLink.step, hcall]
        exact h
  | serveDelete call key replied =>
    have hserved := h.serve (s.server.remove (target key))
    cases replied with
    | true => exact hserved.begin call (c := .deleted key _) (Nat.le_refl _)
    | false => exact hserved.close call
  | remove call =>
    cases hcall : s.calls.lookup call with
    | none =>
      simp only [KVLink.step, hcall]
      exact h
    | some c =>
      cases c with
      | deleted key origin =>
        have horigin : origin ≤ s.clock := h.calls call _ hcall
        have huncached : (s.uncaching key).Timed := h.congr rfl rfl rfl
        simp only [KVLink.step, hcall]
        exact (huncached.finish key horigin).close call
      | _ =>
        simp only [KVLink.step, hcall]
        exact h
  | fail call => exact h.close call
  | change server => exact h.serve server
  | evict key => exact h.congr rfl rfl rfl

theorem Timed.answered (h : s.Timed) (call : ℕ) (key : GoString) (entry : KVEntry)
    (since origin : ℕ) (hcall : s.calls.lookup call = some (.filling key entry since origin)) :
    since ≤ origin := (h.calls call _ hcall).1

/-! ### Coherence -/

theorem Coherent.weaken (h : s.Coherent) {s' : KVLink} (ht : s'.Timed)
    (hcache : ∀ k entry, s'.cache.lookup k = some entry → s.cache.lookup k = some entry ∧
      s'.returnedAt k = s.returnedAt k)
    (hhistory : ∀ m ∈ s.history, m ∈ s'.history) : s'.Coherent where
  cached := by
    intro k entry hentry
    obtain ⟨hold, hreturned⟩ := hcache k entry hentry
    obtain ⟨m, hm, hsince, hlookup⟩ := h.cached k entry hold
    rw [hreturned]
    exact ⟨m, hhistory m hm, hsince, hlookup⟩
  answered := ht.answered

theorem Coherent.caching_iff (h : s.Coherent) {s' : KVLink} (ht : s'.Timed) (key : GoString)
    (entry : KVEntry) (hcache : s'.cache = s.cache.insert key entry)
    (hreturned : ∀ k, k ≠ key → s'.returnedAt k = s.returnedAt k)
    (hhistory : s'.history = s.history) :
    s'.Coherent ↔ s.HeldSince key entry (s'.returnedAt key) := by
  have hheld : ∀ k e since, s'.HeldSince k e since ↔ s.HeldSince k e since := by
    intro k e since
    unfold HeldSince
    rw [hhistory]
  constructor
  · intro h'
    have hself : s'.cache.lookup key = some entry := by rw [hcache, Finmap.lookup_insert]
    exact (hheld key entry _).mp (h'.cached key entry hself)
  · intro hentry
    refine ⟨fun k e he => ?_, ht.answered⟩
    rw [hcache, GoMap.lookup_insert_ite] at he
    split_ifs at he with hk
    · cases he
      rw [hk]
      exact (hheld key entry _).mpr hentry
    · rw [hreturned k hk]
      exact (hheld k e _).mpr (h.cached k e he)

theorem Coherent.uncaching (h : s.Coherent) {s' : KVLink} (ht : s'.Timed) (key : GoString)
    (hcache : s'.cache = s.cache.erase key)
    (hreturned : ∀ k, k ≠ key → s'.returnedAt k = s.returnedAt k)
    (hhistory : s'.history = s.history) : s'.Coherent := by
  refine h.weaken ht (fun k entry hentry => ?_) fun m hm => ?_
  · rw [hcache, GoMap.lookup_erase_ite] at hentry
    split_ifs at hentry with hk
    exact ⟨hentry, hreturned k hk⟩
  · rw [hhistory]
    exact hm

theorem coherent_step_iff (ht : s.Timed) (h : s.Coherent) (e : KVStep) :
    (s.step target e).Coherent ↔ s.Keeps e := by
  have hnext := ht.step target e
  have hat : ∀ (s : KVLink) (key : GoString) (origin : ℕ) (k : GoString), k ≠ key →
      (s.finish key origin).returnedAt k = s.returnedAt k := by
    intro s key origin k hk
    rw [returnedAt_finish, if_neg hk]
  generalize hs' : s.step target e = s' at hnext ⊢
  have heffect := step_effect target (s := s) e
  rw [hs'] at heffect
  cases heffect with
  | quiet keeps cache returned history =>
    refine iff_of_true (h.weaken hnext (fun k entry hentry => ?_) history) keeps
    rw [cache] at hentry
    exact ⟨hentry, by rw [returnedAt, returnedAt, returned]⟩
  | @filled call key entry since origin found =>
    rw [h.caching_iff hnext key entry rfl (fun _ _ => rfl) rfl]
    constructor
    · intro hheld key' entry' since' origin' heq
      cases found.symm.trans heq
      exact hheld
    · exact fun hall => hall key entry since origin found
  | @stored call key entry origin found =>
    have hself : (((s.caching key entry).finish key origin).close call).returnedAt key =
        max (s.returnedAt key) origin :=
      (returnedAt_finish (s := s.caching key entry) key origin key).trans (if_pos rfl)
    rw [h.caching_iff hnext key entry rfl
      (hat (s.caching key entry) key origin) rfl, hself]
    constructor
    · intro hheld key' entry' origin' heq
      cases found.symm.trans heq
      exact hheld
    · exact fun hall => hall key entry origin found
  | @removed call key origin found =>
    exact iff_of_true (h.uncaching hnext key rfl
      (hat (s.uncaching key) key origin) rfl) trivial
  | @evicted key =>
    exact iff_of_true (h.uncaching hnext key rfl (fun _ _ => rfl) rfl) trivial

end

/-! ### Calls that keep an agent coherent -/

/-- The entry that is sent is the one that is stored, the entry received the one that is held, under
the key itself, and a call caches its entry before a later write of the key is over. -/
def Direct (s : KVLink) : KVStep → Prop
  | .answerGet call => ∀ key since, s.calls.lookup call = some (.asking key since) →
      target key = key ∧ ∀ e, s.server.data.lookup key = some e → decoded e = e
  | .serveSet _ key entry _ =>
    target key = key ∧ (put s.server key entry).data.lookup key = some entry
  | .fill call => ∀ key entry since origin,
      s.calls.lookup call = some (.filling key entry since origin) → s.returnedAt key ≤ origin
  | .store call => ∀ key entry origin, s.calls.lookup call = some (.wrote key entry origin) →
      s.returnedAt key ≤ origin
  | _ => True

/-- What a call is to cache, the server held when it served the call. -/
def Served (history : List (ℕ × GoMap GoString KVEntry)) : KVCall → Prop
  | .filling key entry _ origin => ∃ data, (origin, data) ∈ history ∧ data.lookup key = some entry
  | .wrote key entry origin => ∃ data, (origin, data) ∈ history ∧ data.lookup key = some entry
  | _ => True

structure AllServed (s : KVLink) : Prop where
  now : (s.clock, s.server.data) ∈ s.history
  calls : ∀ call c, s.calls.lookup call = some c → Served s.history c

section

variable {s : KVLink}

theorem Served.mono {history history' : List (ℕ × GoMap GoString KVEntry)}
    (hsub : ∀ m ∈ history, m ∈ history') {c : KVCall} (h : Served history c) : Served history' c := by
  cases c with
  | asking key since => trivial
  | filling key entry since origin =>
    obtain ⟨data, hmem, hentry⟩ := h
    exact ⟨data, hsub _ hmem, hentry⟩
  | wrote key entry origin =>
    obtain ⟨data, hmem, hentry⟩ := h
    exact ⟨data, hsub _ hmem, hentry⟩
  | deleted key origin => trivial

/-- What a call is after a step that it did not end in. -/
def Begun (s : KVLink) : KVStep → KVCall → Prop
  | .getKV _ key, c => c = .asking key (s.returnedAt key)
  | .answerGet call, c => ∃ key since e, s.calls.lookup call = some (.asking key since) ∧
      s.server.data.lookup (target key) = some e ∧ c = .filling key (decoded e) since s.clock
  | .serveSet _ key entry _, c => c = .wrote key entry (s.clock + 1)
  | .serveDelete _ key _, c => c = .deleted key (s.clock + 1)
  | _, _ => False

/-- The calls after a step are those before it, but for the one that the step begins. -/
theorem calls_step {e : KVStep} {call : ℕ} {c : KVCall}
    (h : (s.step target e).calls.lookup call = some c) :
    s.calls.lookup call = some c ∨ s.Begun target e c := by
  cases e with
  | getKV call' key =>
    cases hcache : s.cache.lookup key with
    | some entry =>
      simp only [step, hcache] at h
      exact Or.inl (of_lookup_close h)
    | none =>
      simp only [step, hcache] at h
      exact of_lookup_begin h
  | answerGet call' =>
    simp only [step] at h
    split at h
    · next key since hcall =>
      split at h
      · next e hlookup =>
        exact (of_lookup_begin h).imp_right fun heq => ⟨key, since, e, hcall, hlookup, heq⟩
      · exact Or.inl (of_lookup_close h)
    · exact Or.inl h
  | serveSet call' key entry replied =>
    cases replied with
    | true => exact of_lookup_begin h
    | false => exact Or.inl (of_lookup_close h)
  | serveDelete call' key replied =>
    cases replied with
    | true => exact of_lookup_begin h
    | false => exact Or.inl (of_lookup_close h)
  | fill call' | store call' | remove call' =>
    simp only [step] at h
    split at h
    · exact Or.inl (of_lookup_close h)
    · exact Or.inl h
  | fail call' => exact Or.inl (of_lookup_close h)
  | change server => exact Or.inl h
  | evict key => exact Or.inl h

/-- The history has the server's data now, and what it had. -/
theorem history_step (e : KVStep) (h : (s.clock, s.server.data) ∈ s.history) :
    ((s.step target e).clock, (s.step target e).server.data) ∈ (s.step target e).history ∧
      ∀ m ∈ s.history, m ∈ (s.step target e).history := by
  have hserve (server : KVTable) : ((s.serve server).clock, (s.serve server).server.data) ∈
      (s.serve server).history ∧ ∀ m ∈ s.history, m ∈ (s.serve server).history :=
    ⟨List.mem_cons_self .., fun _ hm => List.mem_cons_of_mem _ hm⟩
  have hsame : (s.clock, s.server.data) ∈ s.history ∧ ∀ m ∈ s.history, m ∈ s.history :=
    ⟨h, fun _ hm => hm⟩
  cases e with
  | getKV call key =>
    simp only [step]
    split <;> exact hsame
  | answerGet call =>
    simp only [step]
    split
    · split <;> exact hsame
    · exact hsame
  | serveSet call key entry replied => cases replied <;> exact hserve _
  | serveDelete call key replied => cases replied <;> exact hserve _
  | fill call | store call | remove call =>
    simp only [step]
    split <;> exact hsame
  | fail call => exact hsame
  | change server => exact hserve server
  | evict key => exact hsame

theorem AllServed.step (h : s.AllServed) {e : KVStep} (he : s.Direct target e) :
    (s.step target e).AllServed := by
  obtain ⟨hnow, hkept⟩ := history_step target e h.now
  refine ⟨hnow, fun call c hc => ?_⟩
  rcases calls_step target hc with hold | hbegun
  · exact (h.calls call c hold).mono hkept
  · cases e with
    | getKV call' key =>
      rw [hbegun]
      trivial
    | answerGet call' =>
      obtain ⟨key, since, e, hcall, hlookup, rfl⟩ := hbegun
      obtain ⟨htarget, hdecoded⟩ := he key since hcall
      have hheld : s.server.data.lookup key = some e := htarget ▸ hlookup
      exact ⟨s.server.data, hkept _ h.now, (hdecoded e hheld).symm ▸ hheld⟩
    | serveSet call' key entry replied =>
      obtain ⟨htarget, hstored⟩ := he
      have hdata : (s.clock + 1, (put s.server (target key) entry).data) ∈
          (s.step target (.serveSet call' key entry replied)).history := by
        cases replied <;> exact hnow
      rw [htarget] at hdata
      rw [hbegun]
      exact ⟨_, hdata, hstored⟩
    | serveDelete call' key replied =>
      rw [hbegun]
      trivial
    | _ => exact hbegun.elim

theorem AllServed.keeps (h : s.AllServed) {e : KVStep} (he : s.Direct target e) : s.Keeps e := by
  cases e with
  | fill call =>
    intro key entry since origin hcall
    obtain ⟨data, hmem, hentry⟩ := h.calls call _ hcall
    exact ⟨_, hmem, he key entry since origin hcall, hentry⟩
  | store call =>
    intro key entry origin hcall
    obtain ⟨data, hmem, hentry⟩ := h.calls call _ hcall
    exact ⟨_, hmem, max_le (he key entry origin hcall) le_rfl, hentry⟩
  | _ => trivial

end

/-- Along a run of such calls the agent caches what the server has held since. -/
theorem keeps_of_direct {server : KVTable} {es : List KVStep}
    (h : (machine target).Along (Direct target) (start server) es) :
    (machine target).Along Keeps (start server) es := by
  have hstart : (start server).AllServed := ⟨List.mem_singleton.mpr rfl, fun _ _ hc => nomatch hc⟩
  have hstep (s : KVLink) (e : KVStep) (hs : s.AllServed) (he : s.Direct target e) :
      ((machine target).step s e).1.AllServed := hs.step target he
  exact (machine target).along_of_invariant hstep (fun _ _ hs he => hs.keeps target he) hstart h

/-- The agent is coherent in every state of a run iff every entry cached is one the
server has held, since the writes of the key that are over. -/
theorem coherent_iff (server : KVTable) (es : List KVStep) :
    (∀ n, ((machine target).run (start server) (es.take n)).1.Coherent) ↔
      (machine target).Along Keeps (start server) es := by
  have htimed : (start server).Timed := ⟨fun _ => Nat.zero_le _, fun _ _ hc => nomatch hc⟩
  have hcoherent : (start server).Coherent :=
    ⟨(fun _ _ hc => nomatch hc), htimed.answered⟩
  exact @Machine.forall_take_iff_along _ _ _ (machine target) Keeps Timed Coherent
    (fun _ e h => h.step target e) (fun _ e h hc => coherent_step_iff target h hc e) _ htimed
    hcoherent es

/-- A server with one key. -/
def oneEntry : KVTable :=
  ⟨(∅ : GoMap GoString KVEntry).insert (str "k") ⟨str "v", 1, 1, 0⟩, 1⟩

/-- One `GetKV` leaves an entry with zero indices in the cache. -/
theorem cached_without_indices :
    ¬ ∀ (target : GoString → GoString) (server : KVTable) (es : List KVStep) (n : ℕ),
      ((machine target).run (start server) (es.take n)).1.Coherent := by
  intro h
  have hlast := h id oneEntry [.getKV 0 (str "k"), .answerGet 0, .fill 0] 3
  obtain ⟨m, hm, -, hlookup⟩ := hlast.cached (str "k") ⟨str "v", 0, 0, 0⟩ (by decide +kernel)
  have honly : ∀ m ∈ ((machine id).run (start oneEntry)
      ([.getKV 0 (str "k"), .answerGet 0, .fill 0].take 3)).1.history,
      m.2.lookup (str "k") ≠ some ⟨str "v", 0, 0, 0⟩ := by decide +kernel
  exact honly m hm hlookup

end KVLink

end Konsul.Agent
