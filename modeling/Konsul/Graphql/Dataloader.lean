import Mathlib
import Konsul.Lib.GoMap
import Konsul.Lib.Machine

/-!
# The dataloader (internal/graphql/dataloader/dataloader.go)

Loads choose a batch, add their key to it and wait for it; dispatches read the keys of a
batch, call the batch function and store what it returned. Each section under a mutex is
one step, and a second `close` of the same channel takes the process down. `taken` marks
a batch whose keys some dispatch has read; the code keeps no such mark.
-/

namespace Konsul.Dataloader

open GoLib

variable {K V E : Type} [DecidableEq K]

/-- `result`. -/
structure Result (V E : Type) where
  data : V
  err : Option E
  deriving DecidableEq

structure Batch (K V E : Type) [DecidableEq K] where
  keys : List K
  data : GoMap K (Result V E)
  done : Bool
  closing : Bool
  taken : Bool

def Batch.empty : Batch K V E := ⟨[], ∅, false, false, false⟩

/-- A call of the batch function and what it returned; a nil error is `none`. -/
structure Call (K V E : Type) where
  keys : List K
  results : List V
  errors : List (Option E)
  deriving DecidableEq

/-- What the call produced for its `i`th key: an error takes the place of the data. -/
def Call.outcome (zero : V) (call : Call K V E) (i : ℕ) : Result V E :=
  match call.errors[i]? with
  | some (some err) => ⟨zero, some err⟩
  | _ => ⟨call.results[i]?.getD zero, none⟩

/-- A call of `LoadThunk` and of the function it returns. -/
inductive Load (K V E : Type) where
  | ready
  | missed (key : K)
  | chose (key : K) (b : ℕ)
  | waiting (key : K) (b : ℕ)
  | returned (key : K) (r : Result V E)

/-- A call of `scheduleBatch` or `dispatchBatch`. -/
inductive Dispatch (K V E : Type) where
  | idle
  | scheduled (b : ℕ)
  | sleeping (b : ℕ)
  | started (b : ℕ)
  | fetching (b : ℕ) (keys : List K)
  | storing (b : ℕ) (call : Call K V E) (n : ℕ)
  | clearing (b : ℕ)
  | finished

/-- A `Loader` with the goroutines that use it. Batch `made` is the next to be made. -/
structure Loader (K V E : Type) [DecidableEq K] where
  maxBatch : ℤ
  cache : GoMap K (Result V E)
  current : Option ℕ
  batches : ℕ → Batch K V E
  made : ℕ
  loads : ℕ → Load K V E
  dispatches : ℕ → Dispatch K V E
  calls : List (Call K V E)
  crashed : Bool

inductive Step (K V E : Type) where
  | lookup (l : ℕ) (key : K)
  | choose (l : ℕ)
  | add (l d : ℕ)
  | schedule (d : ℕ)
  | wake (d : ℕ)
  | read (d : ℕ)
  | fetch (d : ℕ) (results : List V) (errors : List (Option E))
  | store (d : ℕ)
  | close (d : ℕ)
  | clear (d : ℕ)
  | receive (l : ℕ)
  | clearKey (key : K)
  | clearAll

namespace Loader

def start (maxBatch : ℤ) : Loader K V E :=
  ⟨maxBatch, ∅, none, fun _ => .empty, 0, fun _ => .ready, fun _ => .idle, [], false⟩

/-- `NewLoader`. -/
def newLoader : Loader K V E := start 100

def setLoad (m : Loader K V E) (l : ℕ) (load : Load K V E) : Loader K V E :=
  { m with loads := Function.update m.loads l load }

def setDispatch (m : Loader K V E) (d : ℕ) (dispatch : Dispatch K V E) : Loader K V E :=
  { m with dispatches := Function.update m.dispatches d dispatch }

def setBatch (m : Loader K V E) (b : ℕ) (batch : Batch K V E) : Loader K V E :=
  { m with batches := Function.update m.batches b batch }

/-- `l.batch`, made if there is none. -/
def choose (m : Loader K V E) (l : ℕ) (key : K) : Loader K V E :=
  match m.current with
  | some b => m.setLoad l (.chose key b)
  | none => { m with current := some m.made, made := m.made + 1 }.setLoad l (.chose key m.made)

/-- A key added to a batch; a full batch is dispatched at once, by dispatch `d`. -/
def add (zero : V) (m : Loader K V E) (l d : ℕ) (key : K) (b : ℕ) : Loader K V E :=
  let batch := m.batches b
  if (batch.data.lookup key).isSome then m.setLoad l (.waiting key b)
  else
    let batch := { batch with keys := batch.keys ++ [key], data := batch.data.insert key ⟨zero, none⟩ }
    let shouldDispatch : Bool := (batch.keys.length : ℤ) ≥ m.maxBatch ∧ m.maxBatch > 0
    ((m.setBatch b batch).setLoad l (.waiting key b)).setDispatch d
      (if shouldDispatch then .started b else .scheduled b)

/-- One round of the loop over the keys. -/
def store (zero : V) (m : Loader K V E) (d b : ℕ) (call : Call K V E) (n : ℕ) (key : K) :
    Loader K V E :=
  let res := call.outcome zero n
  let batch := m.batches b
  ({ m with cache := m.cache.insert key res }.setBatch b
    { batch with data := batch.data.insert key res }).setDispatch d (.storing b call (n + 1))

/-- A step that the process takes while it is up; one that cannot be taken changes nothing. -/
def move (zero : V) (m : Loader K V E) : Step K V E → Loader K V E
  | .lookup l key =>
    match m.loads l with
    | .ready =>
      match m.cache.lookup key with
      | some cached => m.setLoad l (.returned key cached)
      | none => m.setLoad l (.missed key)
    | _ => m
  | .choose l =>
    match m.loads l with
    | .missed key => m.choose l key
    | _ => m
  | .add l d =>
    match m.loads l, m.dispatches d with
    | .chose key b, .idle => m.add zero l d key b
    | _, _ => m
  | .schedule d =>
    match m.dispatches d with
    | .scheduled b =>
      if (m.batches b).closing then m.setDispatch d .finished
      else (m.setBatch b { m.batches b with closing := true }).setDispatch d (.sleeping b)
    | _ => m
  | .wake d =>
    match m.dispatches d with
    | .sleeping b => m.setDispatch d (.started b)
    | _ => m
  | .read d =>
    match m.dispatches d with
    | .started b =>
      (m.setBatch b { m.batches b with taken := true }).setDispatch d
        (.fetching b (m.batches b).keys)
    | _ => m
  | .fetch d results errors =>
    match m.dispatches d with
    | .fetching b keys =>
      { m with calls := m.calls ++ [Call.mk keys results errors] }.setDispatch d
        (.storing b ⟨keys, results, errors⟩ 0)
    | _ => m
  | .store d =>
    match m.dispatches d with
    | .storing b call n =>
      match call.keys[n]? with
      | some key => m.store zero d b call n key
      | none => m
    | _ => m
  | .close d =>
    match m.dispatches d with
    | .storing b call n =>
      match call.keys[n]? with
      | some _ => m
      | none =>
        if (m.batches b).done then { m with crashed := true }
        else (m.setBatch b { m.batches b with done := true }).setDispatch d (.clearing b)
    | _ => m
  | .clear d =>
    match m.dispatches d with
    | .clearing b =>
      { m with current := if m.current = some b then none else m.current }.setDispatch d .finished
    | _ => m
  | .receive l =>
    match m.loads l with
    | .waiting key b =>
      if (m.batches b).done then
        m.setLoad l (.returned key (((m.batches b).data.lookup key).getD (Result.mk zero none)))
      else m
    | _ => m
  | .clearKey key => { m with cache := m.cache.erase key }
  | .clearAll => { m with cache := ∅ }

def machine (zero : V) : Machine (Loader K V E) (Step K V E) Unit :=
  ⟨fun m i => (if m.crashed then m else m.move zero i, ())⟩

/-- A call of the batch function had the key among its keys and this outcome for it. -/
def Produced (zero : V) (m : Loader K V E) (key : K) (r : Result V E) : Prop :=
  ∃ call ∈ m.calls, ∃ i, call.keys[i]? = some key ∧ r = call.outcome zero i

/-! ### What is kept when keys enter in time -/

/-- A key enters a batch only while no dispatch has read the keys of the batch. -/
def AddsInTime (m : Loader K V E) (i : Step K V E) : Prop :=
  ∀ l d key b, i = .add l d → m.loads l = .chose key b →
    (m.batches b).data.lookup key = none → (m.batches b).taken = false

/-- The batch holds what some call produced for the key. -/
def Stored (zero : V) (m : Loader K V E) (b : ℕ) (key : K) : Prop :=
  ∃ r, (m.batches b).data.lookup key = some r ∧ m.Produced zero key r

structure Kept (zero : V) (m : Loader K V E) : Prop where
  keys : ∀ b key r, (m.batches b).data.lookup key = some r → key ∈ (m.batches b).keys
  waiting : ∀ l key b, m.loads l = .waiting key b → key ∈ (m.batches b).keys
  fetching : ∀ d b keys, m.dispatches d = .fetching b keys →
    keys = (m.batches b).keys ∧ (m.batches b).taken = true
  storing : ∀ d b call n, m.dispatches d = .storing b call n →
    call ∈ m.calls ∧ call.keys = (m.batches b).keys ∧ (m.batches b).taken = true ∧
      ∀ i < n, ∀ key, call.keys[i]? = some key → m.Stored zero b key
  done : ∀ b, (m.batches b).done = true → (m.batches b).taken = true ∧
    ∀ key ∈ (m.batches b).keys, m.Stored zero b key
  cache : ∀ key r, m.cache.lookup key = some r → m.Produced zero key r
  returned : ∀ l key r, m.loads l = .returned key r → m.Produced zero key r

variable {zero : V} {m : Loader K V E}

theorem kept_start (maxBatch : ℤ) : (start maxBatch : Loader K V E).Kept zero where
  keys _ _ _ h := nomatch h
  waiting _ _ _ h := nomatch h
  fetching _ _ _ h := nomatch h
  storing _ _ _ _ h := nomatch h
  done _ h := nomatch h
  cache _ _ h := nomatch h
  returned _ _ _ h := nomatch h

theorem Kept.setLoad (h : m.Kept zero) {l : ℕ} {load : Load K V E}
    (hwaiting : ∀ key b, load = .waiting key b → key ∈ (m.batches b).keys)
    (hreturned : ∀ key r, load = .returned key r → m.Produced zero key r) :
    (m.setLoad l load).Kept zero :=
  { h with
    waiting := fun l' key b hl' => by
      by_cases hl : l' = l
      · subst hl
        exact hwaiting key b (by simpa [Loader.setLoad] using hl')
      · exact h.waiting l' key b (by simpa [Loader.setLoad, hl] using hl')
    returned := fun l' key r hl' => by
      by_cases hl : l' = l
      · subst hl
        exact hreturned key r (by simpa [Loader.setLoad] using hl')
      · exact h.returned l' key r (by simpa [Loader.setLoad, hl] using hl') }

theorem Kept.setDispatch (h : m.Kept zero) {d : ℕ} {dispatch : Dispatch K V E}
    (hfetching : ∀ b keys, dispatch = .fetching b keys →
      keys = (m.batches b).keys ∧ (m.batches b).taken = true)
    (hstoring : ∀ b call n, dispatch = .storing b call n →
      call ∈ m.calls ∧ call.keys = (m.batches b).keys ∧ (m.batches b).taken = true ∧
        ∀ i < n, ∀ key, call.keys[i]? = some key → m.Stored zero b key) :
    (m.setDispatch d dispatch).Kept zero :=
  { h with
    fetching := fun d' b keys hd' => by
      by_cases hd : d' = d
      · subst hd
        exact hfetching b keys (by simpa [Loader.setDispatch] using hd')
      · exact h.fetching d' b keys (by simpa [Loader.setDispatch, hd] using hd')
    storing := fun d' b call n hd' => by
      by_cases hd : d' = d
      · subst hd
        exact hstoring b call n (by simpa [Loader.setDispatch] using hd')
      · exact h.storing d' b call n (by simpa [Loader.setDispatch, hd] using hd') }

theorem Kept.setIdle (h : m.Kept zero) {d : ℕ} {dispatch : Dispatch K V E}
    (hfetching : ∀ b keys, dispatch ≠ .fetching b keys)
    (hstoring : ∀ b call n, dispatch ≠ .storing b call n) : (m.setDispatch d dispatch).Kept zero :=
  h.setDispatch (fun b keys heq => absurd heq (hfetching b keys))
    fun b call n heq => absurd heq (hstoring b call n)

theorem Kept.setBatch (h : m.Kept zero) (b : ℕ) (batch : Batch K V E)
    (hkeys : batch.keys = (m.batches b).keys) (hdata : batch.data = (m.batches b).data)
    (htaken : (m.batches b).taken = true → batch.taken = true)
    (hdone : batch.done = true → batch.taken = true ∧ ∀ key ∈ batch.keys, m.Stored zero b key) :
    (m.setBatch b batch).Kept zero := by
  have hbatch (b' : ℕ) : ((m.setBatch b batch).batches b').keys = (m.batches b').keys ∧
      ((m.setBatch b batch).batches b').data = (m.batches b').data ∧
      ((m.batches b').taken = true → ((m.setBatch b batch).batches b').taken = true) := by
    by_cases hb : b' = b
    · subst hb
      simpa [Loader.setBatch] using ⟨hkeys, hdata, htaken⟩
    · simp [Loader.setBatch, hb]
  have hstored (b' : ℕ) (key : K) (hs : m.Stored zero b' key) :
      (m.setBatch b batch).Stored zero b' key := by
    obtain ⟨r, hr, hproduced⟩ := hs
    exact ⟨r, by rw [(hbatch b').2.1]; exact hr, hproduced⟩
  refine { h with
    keys := fun b' key r hr => ?_
    waiting := fun l key b' hl => ?_
    fetching := fun d b' keys hd => ?_
    storing := fun d b' call n hd => ?_
    done := fun b' hb' => ?_ }
  · rw [(hbatch b').2.1] at hr
    rw [(hbatch b').1]
    exact h.keys b' key r hr
  · rw [(hbatch b').1]
    exact h.waiting l key b' hl
  · obtain ⟨hsame, ht⟩ := h.fetching d b' keys hd
    exact ⟨hsame.trans (hbatch b').1.symm, (hbatch b').2.2 ht⟩
  · obtain ⟨hmem, hsame, ht, hbefore⟩ := h.storing d b' call n hd
    exact ⟨hmem, hsame.trans (hbatch b').1.symm, (hbatch b').2.2 ht,
      fun i hi key hkey => hstored b' key (hbefore i hi key hkey)⟩
  · by_cases hb : b' = b
    · subst hb
      have hnew : batch.done = true := by simpa [Loader.setBatch] using hb'
      obtain ⟨ht, hall⟩ := hdone hnew
      refine ⟨by simpa [Loader.setBatch] using ht, fun key hkey => hstored b' key (hall key ?_)⟩
      simpa [Loader.setBatch] using hkey
    · have hold : (m.batches b').done = true := by simpa [Loader.setBatch, hb] using hb'
      obtain ⟨ht, hall⟩ := h.done b' hold
      refine ⟨(hbatch b').2.2 ht, fun key hkey => hstored b' key (hall key ?_)⟩
      rwa [(hbatch b').1] at hkey

theorem Kept.choose (h : m.Kept zero) (l : ℕ) (key : K) : (m.choose l key).Kept zero := by
  unfold Loader.choose
  split
  · exact h.setLoad (fun _ _ hno => nomatch hno) fun _ _ hno => nomatch hno
  · have hmade (current : Option ℕ) (made : ℕ) :
        ({ m with current, made } : Loader K V E).Kept zero := { h with }
    exact (hmade _ _).setLoad (fun _ _ hno => nomatch hno) fun _ _ hno => nomatch hno

theorem Kept.addKey (h : m.Kept zero) {b : ℕ} (htaken : (m.batches b).taken = false) (key : K)
    (r : Result V E) : (m.setBatch b { m.batches b with
      keys := (m.batches b).keys ++ [key]
      data := (m.batches b).data.insert key r }).Kept zero := by
  have hopen (b' : ℕ) (ht : (m.batches b').taken = true) : b' ≠ b := by
    rintro rfl
    rw [htaken] at ht
    cases ht
  have hother (b' : ℕ) (hb : b' ≠ b) : (m.setBatch b { m.batches b with
      keys := (m.batches b).keys ++ [key]
      data := (m.batches b).data.insert key r }).batches b' = m.batches b' := by
    simp [Loader.setBatch, hb]
  refine { h with
    keys := fun b' key' r' hr => ?_
    waiting := fun l key' b' hl => ?_
    fetching := fun d b' keys hd => ?_
    storing := fun d b' call n hd => ?_
    done := fun b' hb' => ?_ }
  · by_cases hb : b' = b
    · subst hb
      simp only [Loader.setBatch, Function.update_self, GoMap.lookup_insert_ite] at hr ⊢
      split_ifs at hr with hkey
      · rw [hkey]
        exact List.mem_append_right _ (List.mem_singleton_self _)
      · exact List.mem_append_left _ (h.keys b' key' r' hr)
    · rw [hother b' hb] at hr ⊢
      exact h.keys b' key' r' hr
  · have hold := h.waiting l key' b' hl
    by_cases hb : b' = b
    · subst hb
      simp only [Loader.setBatch, Function.update_self]
      exact List.mem_append_left _ hold
    · rw [hother b' hb]
      exact hold
  · obtain ⟨hsame, ht⟩ := h.fetching d b' keys hd
    rw [hother b' (hopen b' ht)]
    exact ⟨hsame, ht⟩
  · obtain ⟨hmem, hsame, ht, hbefore⟩ := h.storing d b' call n hd
    unfold Stored
    rw [hother b' (hopen b' ht)]
    exact ⟨hmem, hsame, ht, hbefore⟩
  · have hne : b' ≠ b := by
      rintro rfl
      have hold : (m.batches b').done = true := by simpa [Loader.setBatch] using hb'
      exact hopen b' (h.done b' hold).1 rfl
    unfold Stored
    rw [hother b' hne] at hb' ⊢
    exact h.done b' hb'

theorem Kept.add (h : m.Kept zero) (l d : ℕ) {key : K} {b : ℕ}
    (htime : (m.batches b).data.lookup key = none → (m.batches b).taken = false) :
    (m.add zero l d key b).Kept zero := by
  unfold Loader.add
  cases hlookup : (m.batches b).data.lookup key with
  | some r =>
    have hmem := h.keys b key r hlookup
    simp only [hlookup, Option.isSome_some, ite_true]
    refine h.setLoad (fun key' b' heq => ?_) fun _ _ hno => nomatch hno
    cases heq
    exact hmem
  | none =>
    have hnew := htime hlookup
    have hadded := h.addKey hnew key ⟨zero, none⟩
    simp only [hlookup, Option.isSome_none, Bool.false_eq_true, ite_false]
    refine Kept.setIdle ?_ ?_ ?_
    · refine hadded.setLoad (fun key' b' heq => ?_) fun _ _ hno => nomatch hno
      cases heq
      simp [Loader.setBatch]
    · intro b' keys
      split_ifs <;> exact fun hno => nomatch hno
    · intro b' call n
      split_ifs <;> exact fun hno => nomatch hno

theorem Kept.store (h : m.Kept zero) {d b : ℕ} {call : Call K V E} {n : ℕ} {key : K}
    (hd : m.dispatches d = .storing b call n) (hkey : call.keys[n]? = some key) :
    (m.store zero d b call n key).Kept zero := by
  obtain ⟨hmem, hsame, htaken, hbefore⟩ := h.storing d b call n hd
  have hproduced : m.Produced zero key (call.outcome zero n) := ⟨call, hmem, n, hkey, rfl⟩
  let m' := ({ m with cache := m.cache.insert key (call.outcome zero n) } : Loader K V E).setBatch b
    { m.batches b with data := (m.batches b).data.insert key (call.outcome zero n) }
  have hkeys (b' : ℕ) : (m'.batches b').keys = (m.batches b').keys ∧
      (m'.batches b').taken = (m.batches b').taken ∧ (m'.batches b').done = (m.batches b').done := by
    by_cases hb : b' = b
    · subst hb
      simp [m', Loader.setBatch]
    · simp [m', Loader.setBatch, hb]
  have hlookup (b' : ℕ) (key' : K) : (m'.batches b').data.lookup key' =
      if b' = b ∧ key' = key then some (call.outcome zero n) else (m.batches b').data.lookup key' := by
    by_cases hb : b' = b
    · subst hb
      simp [m', Loader.setBatch, GoMap.lookup_insert_ite]
    · simp [m', Loader.setBatch, hb]
  have hstored (b' : ℕ) (key' : K) (hs : m.Stored zero b' key') : m'.Stored zero b' key' := by
    obtain ⟨r, hr, hproduced'⟩ := hs
    by_cases hsame : b' = b ∧ key' = key
    · obtain ⟨rfl, rfl⟩ := hsame
      exact ⟨_, (hlookup b' key').trans (if_pos ⟨rfl, rfl⟩), hproduced⟩
    · exact ⟨r, ((hlookup b' key').trans (if_neg hsame)).trans hr, hproduced'⟩
  have hnow : m'.Stored zero b key :=
    ⟨_, (hlookup b key).trans (if_pos ⟨rfl, rfl⟩), hproduced⟩
  have hkept : m'.Kept zero := { h with
    keys := fun b' key' r hr => by
      rw [(hkeys b').1]
      rw [hlookup] at hr
      split_ifs at hr with hsame'
      · rw [hsame'.1, hsame'.2, ← hsame]
        exact List.mem_of_getElem? hkey
      · exact h.keys b' key' r hr
    waiting := fun l key' b' hl => by
      rw [(hkeys b').1]
      exact h.waiting l key' b' hl
    fetching := fun d' b' keys hd' => by
      rw [(hkeys b').1, (hkeys b').2.1]
      exact h.fetching d' b' keys hd'
    storing := fun d' b' call' n' hd' => by
      obtain ⟨hmem', hsame', htaken', hbefore'⟩ := h.storing d' b' call' n' hd'
      rw [(hkeys b').1, (hkeys b').2.1]
      exact ⟨hmem', hsame', htaken', fun i hi key' hkey' => hstored b' key' (hbefore' i hi key' hkey')⟩
    done := fun b' hb' => by
      rw [(hkeys b').2.2] at hb'
      rw [(hkeys b').1, (hkeys b').2.1]
      exact ⟨(h.done b' hb').1, fun key' hkey' => hstored b' key' ((h.done b' hb').2 key' hkey')⟩
    cache := fun key' r hr => by
      change (m.cache.insert key (call.outcome zero n)).lookup key' = some r at hr
      rw [GoMap.lookup_insert_ite] at hr
      split_ifs at hr with hkey'
      · cases hr
        rw [hkey']
        exact hproduced
      · exact h.cache key' r hr }
  refine hkept.setDispatch (fun _ _ hno => nomatch hno) fun b' call' n' heq => ?_
  cases heq
  rw [(hkeys b).1, (hkeys b).2.1]
  refine ⟨hmem, hsame, htaken, fun i hi key' hkey' => ?_⟩
  by_cases hlast : i = n
  · rw [hlast, hkey] at hkey'
    cases hkey'
    exact hnow
  · exact hstored b key' (hbefore i (by omega) key' hkey')

theorem Kept.fetch (h : m.Kept zero) {d b : ℕ} {keys : List K}
    (hd : m.dispatches d = .fetching b keys) (results : List V) (errors : List (Option E)) :
    ({ m with calls := m.calls ++ [Call.mk keys results errors] }.setDispatch d
      (.storing b ⟨keys, results, errors⟩ 0)).Kept zero := by
  obtain ⟨hkeys, htaken⟩ := h.fetching d b keys hd
  let m' : Loader K V E := { m with calls := m.calls ++ [⟨keys, results, errors⟩] }
  have hproduced {key : K} {r : Result V E} (hp : m.Produced zero key r) : m'.Produced zero key r := by
    obtain ⟨call, hmem, hcall⟩ := hp
    exact ⟨call, List.mem_append_left _ hmem, hcall⟩
  have hstored {b' : ℕ} {key : K} (hs : m.Stored zero b' key) : m'.Stored zero b' key := by
    obtain ⟨r, hr, hp⟩ := hs
    exact ⟨r, hr, hproduced hp⟩
  have hkept : m'.Kept zero := { h with
    storing := fun d' b' call n hd' => by
      obtain ⟨hmem, hsame, htaken', hbefore⟩ := h.storing d' b' call n hd'
      exact ⟨List.mem_append_left _ hmem, hsame, htaken',
        fun i hi key hkey => hstored (hbefore i hi key hkey)⟩
    done := fun b' hb' => ⟨(h.done b' hb').1, fun key hkey => hstored ((h.done b' hb').2 key hkey)⟩
    cache := fun key r hr => hproduced (h.cache key r hr)
    returned := fun l key r hl => hproduced (h.returned l key r hl) }
  refine hkept.setDispatch (fun _ _ hno => nomatch hno) fun b' call n heq => ?_
  cases heq
  exact ⟨List.mem_append_right _ (List.mem_singleton_self _), hkeys, htaken,
    fun i hi => absurd hi (Nat.not_lt_zero i)⟩

theorem Kept.close (h : m.Kept zero) {d b : ℕ} {call : Call K V E} {n : ℕ}
    (hd : m.dispatches d = .storing b call n) (hall : call.keys[n]? = none) :
    ((m.setBatch b { m.batches b with done := true }).setDispatch d (.clearing b)).Kept zero := by
  obtain ⟨-, hsame, htaken, hbefore⟩ := h.storing d b call n hd
  have hlength : call.keys.length ≤ n := List.getElem?_eq_none_iff.mp hall
  refine Kept.setIdle ?_ (fun _ _ hno => nomatch hno) fun _ _ _ hno => nomatch hno
  refine h.setBatch b _ rfl rfl (fun ht => ht) fun _ => ⟨htaken, fun key hkey => ?_⟩
  change key ∈ (m.batches b).keys at hkey
  rw [← hsame] at hkey
  obtain ⟨i, hi, hget⟩ := List.getElem_of_mem hkey
  have hget' : call.keys[i]? = some key := by rw [List.getElem?_eq_getElem hi, hget]
  exact hbefore i (by omega) key hget'

theorem Kept.move (h : m.Kept zero) {i : Step K V E} (htime : m.AddsInTime i) :
    (m.move zero i).Kept zero := by
  cases i with
  | lookup l key =>
    simp only [Loader.move]
    split
    · split
      · next cached hcached =>
        refine h.setLoad (fun _ _ hno => nomatch hno) fun key' r heq => ?_
        cases heq
        exact h.cache key cached hcached
      · exact h.setLoad (fun _ _ hno => nomatch hno) fun _ _ hno => nomatch hno
    · exact h
  | choose l =>
    simp only [Loader.move]
    split
    · exact h.choose l _
    · exact h
  | add l d =>
    simp only [Loader.move]
    split
    · next key b hl _ => exact h.add l d (htime l d key b rfl hl)
    · exact h
  | schedule d =>
    simp only [Loader.move]
    split
    · next b hd =>
      split_ifs
      · exact h.setIdle (fun _ _ hno => nomatch hno) fun _ _ _ hno => nomatch hno
      · refine Kept.setIdle ?_ (fun _ _ hno => nomatch hno) fun _ _ _ hno => nomatch hno
        exact h.setBatch b _ rfl rfl (fun ht => ht) fun hdone => h.done b hdone
    · exact h
  | wake d =>
    simp only [Loader.move]
    split
    · exact h.setIdle (fun _ _ hno => nomatch hno) fun _ _ _ hno => nomatch hno
    · exact h
  | read d =>
    simp only [Loader.move]
    split
    · next b hd =>
      have hread := h.setBatch b { m.batches b with taken := true } rfl rfl (fun _ => rfl)
        fun hdone => ⟨rfl, (h.done b hdone).2⟩
      refine hread.setDispatch (fun b' keys heq => ?_) fun _ _ _ hno => nomatch hno
      cases heq
      simp [Loader.setBatch]
    · exact h
  | fetch d results errors =>
    simp only [Loader.move]
    split
    · next b keys hd => exact h.fetch hd results errors
    · exact h
  | store d =>
    simp only [Loader.move]
    split
    · next b call n hd =>
      split
      · next key hkey => exact h.store hd hkey
      · exact h
    · exact h
  | close d =>
    simp only [Loader.move]
    split
    · next b call n hd =>
      split
      · exact h
      · next hall =>
        split_ifs
        · exact { h with }
        · exact h.close hd hall
    · exact h
  | clear d =>
    simp only [Loader.move]
    split
    · next b hd =>
      have hcurrent (current : Option ℕ) : ({ m with current } : Loader K V E).Kept zero := { h with }
      exact (hcurrent _).setIdle (fun _ _ hno => nomatch hno) fun _ _ _ hno => nomatch hno
    · exact h
  | receive l =>
    simp only [Loader.move]
    split
    · next key b hl =>
      split_ifs with hdone
      · obtain ⟨r, hr, hproduced⟩ := (h.done b hdone).2 key (h.waiting l key b hl)
        refine h.setLoad (fun _ _ hno => nomatch hno) fun key' r' heq => ?_
        rw [hr, Option.getD_some] at heq
        cases heq
        exact hproduced
      · exact h
    · exact h
  | clearKey key =>
    exact { h with
      cache := fun key' r hr => by
        change (m.cache.erase key).lookup key' = some r at hr
        rw [GoMap.lookup_erase_ite] at hr
        split_ifs at hr
        exact h.cache key' r hr }
  | clearAll => exact { h with cache := fun key' r hr => nomatch hr }

/-- In a run whose keys enter their batches in time, a load of a key returns what some call of the
batch function with the key among its keys produced for it. -/
theorem loads_produced (zero : V) (maxBatch : ℤ) (run : List (Step K V E))
    (h : (machine zero).Along AddsInTime (start maxBatch) run) (l : ℕ) (key : K) (r : Result V E)
    (hl : ((machine zero).run (start maxBatch) run).1.loads l = .returned key r) :
    ((machine zero).run (start maxBatch) run).1.Produced zero key r := by
  have hstep (m : Loader K V E) (i : Step K V E) (hm : m.Kept zero) (htime : m.AddsInTime i) :
      ((machine zero).step m i).1.Kept zero := by
    change (if m.crashed then m else m.move zero i).Kept zero
    split_ifs
    · exact hm
    · exact hm.move htime
  have hkept := @Machine.invariant _ _ _ (machine zero) _ (Kept zero) hstep _ _
    (kept_start maxBatch) h
  exact hkept.returned l key r hl

/-- One key, loaded once. -/
def loadOne : List (Step ℕ ℕ ℕ) :=
  [.lookup 0 1, .choose 0, .add 0 0, .schedule 0, .wake 0, .read 0, .fetch 0 [10] [], .store 0,
    .close 0, .receive 0]

theorem loads_produced_one : (machine 0).Along AddsInTime newLoader loadOne ∧
    ((machine 0).run newLoader loadOne).1.Produced 0 1 ⟨10, none⟩ := by
  have htime : (machine 0).Along AddsInTime newLoader loadOne := by
    refine ⟨?_, ?_, fun _ _ _ b heq hl _ => ?_, ?_, ?_, ?_, ?_, ?_, ?_, ?_, trivial⟩
    case refine_3 => rfl
    all_goals exact fun _ _ _ _ hno => nomatch hno
  exact ⟨htime, loads_produced 0 100 loadOne htime 0 1 ⟨10, none⟩ rfl⟩

/-- The key 2 enters the batch after the dispatch has read its keys. -/
def loadLate : List (Step ℕ ℕ ℕ) :=
  [.lookup 0 1, .choose 0, .add 0 0, .schedule 0, .wake 0, .read 0, .lookup 1 2, .choose 1, .add 1 1,
    .fetch 0 [10] [], .store 0, .close 0, .receive 1]

theorem late_key_not_produced : ¬ ∀ l key r,
    ((machine 0).run newLoader loadLate).1.loads l = .returned key r →
      ((machine 0).run newLoader loadLate).1.Produced 0 key r := by
  intro h
  obtain ⟨call, hcall, i, hkey, -⟩ := h 1 2 ⟨0, none⟩ rfl
  have hcalls : ((machine 0).run newLoader loadLate).1.calls = [⟨[1], [10], []⟩] := rfl
  rw [hcalls, List.mem_singleton] at hcall
  subst hcall
  have hmem := List.mem_of_getElem? hkey
  simp at hmem

end Loader

end Konsul.Dataloader
