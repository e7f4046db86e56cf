import Konsul.Lib.Machine
import Konsul.Watch.Manager

/-!
# The registry stays consistent

The three maps of the manager say the same thing: an id is listed once under the
pattern of its watcher and nowhere else, and the count of a user is the number of
its watchers. Every registered watcher also has an open channel, so neither a
removal nor a shutdown closes a channel twice.
-/

namespace Konsul.Watch

open GoLib

namespace Manager

variable (wm : Manager)

/-! ### What an update of one map leaves -/

theorem watcherIDs_addPattern (p id q : GoString) :
    (wm.addPattern p id).watcherIDs q =
      if q = p then wm.watcherIDs p ++ [id] else wm.watcherIDs q := by
  simp only [addPattern, watcherIDs, GoMap.lookup_insert_ite]
  split_ifs <;> rfl

theorem patterns_addPattern_ne_nil {p id : GoString} (h : ∀ q, wm.patterns.lookup q ≠ some [])
    (q : GoString) : (wm.addPattern p id).patterns.lookup q ≠ some [] := by
  simp only [addPattern, GoMap.lookup_insert_ite]
  split_ifs
  · simp
  · exact h q

theorem watcherIDs_removePattern (p id q : GoString) :
    (wm.removePattern p id).watcherIDs q =
      if q = p then (wm.watcherIDs p).erase id else wm.watcherIDs q := by
  by_cases hmem : id ∈ wm.watcherIDs p
  · simp only [removePattern, hmem, ite_true]
    by_cases hlen : ((wm.watcherIDs p).erase id).length = 0
    · have hnil : (wm.watcherIDs p).erase id = [] := List.eq_nil_of_length_eq_zero hlen
      simp only [watcherIDs] at hnil ⊢
      simp only [Finmap.lookup_insert, Option.getD_some, hnil, List.length_nil, ite_true,
        GoMap.lookup_erase_ite, GoMap.lookup_insert_ite]
      split_ifs <;> rfl
    · simp only [watcherIDs] at hlen ⊢
      simp only [Finmap.lookup_insert, Option.getD_some, hlen, ite_false, GoMap.lookup_insert_ite]
      split_ifs <;> rfl
  · have hsame : (wm.watcherIDs p).erase id = wm.watcherIDs p := List.erase_of_not_mem hmem
    simp only [removePattern, hmem, ite_false, hsame]
    by_cases hlen : (wm.watcherIDs p).length = 0
    · have hnil : wm.watcherIDs p = [] := List.eq_nil_of_length_eq_zero hlen
      rw [if_pos hlen, hnil]
      simp only [watcherIDs, GoMap.lookup_erase_ite]
      split_ifs <;> rfl
    · rw [if_neg hlen]
      split_ifs with hq
      · rw [hq]
      · rfl

theorem patterns_removePattern_ne_nil {p id : GoString} (h : ∀ q, wm.patterns.lookup q ≠ some [])
    (q : GoString) : (wm.removePattern p id).patterns.lookup q ≠ some [] := by
  by_cases hmem : id ∈ wm.watcherIDs p
  · simp only [removePattern, hmem, ite_true]
    by_cases hlen : ((wm.watcherIDs p).erase id).length = 0
    · simp only [watcherIDs] at hlen ⊢
      simp only [Finmap.lookup_insert, Option.getD_some, hlen, ite_true, GoMap.lookup_erase_ite,
        GoMap.lookup_insert_ite]
      split_ifs
      · simp
      · exact h q
    · simp only [watcherIDs] at hlen ⊢
      simp only [Finmap.lookup_insert, Option.getD_some, hlen, ite_false, GoMap.lookup_insert_ite]
      split_ifs
      · intro heq
        have hnil := Option.some.inj heq
        rw [hnil] at hlen
        exact hlen rfl
      · exact h q
  · simp only [removePattern, hmem, ite_false]
    split_ifs
    · rw [GoMap.lookup_erase_ite]
      split_ifs
      · simp
      · exact h q
    · exact h q

theorem clientCount_addClient {v u : GoString} (hu : u ≠ []) :
    (wm.addClient v).clientCount u = wm.clientCount u + if v = u then 1 else 0 := by
  rw [addClient]
  by_cases hv : v = []
  · have hne : v ≠ u := fun h => hu (h ▸ hv)
    simp [hv, Ne.symm hu]
  · simp only [ne_eq, hv, not_false_eq_true, ite_true, clientCount, GoMap.lookup_insert_ite]
    by_cases h : u = v
    · subst h
      simp
    · simp [h, Ne.symm h]

theorem clientCount_removeClient {v u : GoString} (hu : u ≠ []) :
    (wm.removeClient v).clientCount u = wm.clientCount u - if v = u then 1 else 0 := by
  rw [removeClient]
  by_cases hv : v = []
  · simp [hv, Ne.symm hu]
  · simp only [ne_eq, hv, not_false_eq_true, ite_true]
    split_ifs with hzero h h
    · subst h
      simp only [clientCount, Finmap.lookup_insert, Option.getD_some, Finmap.lookup_erase,
        Option.getD_none] at hzero ⊢
      omega
    · simp only [clientCount, GoMap.lookup_erase_ite, GoMap.lookup_insert_ite, Ne.symm h, ite_false]
      omega
    · subst h
      simp only [clientCount, Finmap.lookup_insert, Option.getD_some]
    · simp only [clientCount, GoMap.lookup_insert_ite, Ne.symm h, ite_false]
      omega

/-! ### What an update of one map leaves alone -/

@[simp] theorem watchers_addPattern (p id : GoString) :
    (wm.addPattern p id).watchers = wm.watchers := rfl
@[simp] theorem channels_addPattern (p id : GoString) :
    (wm.addPattern p id).channels = wm.channels := rfl
@[simp] theorem clientCount_addPattern (p id u : GoString) :
    (wm.addPattern p id).clientCount u = wm.clientCount u := rfl
@[simp] theorem maxPerClient_addPattern (p id : GoString) :
    (wm.addPattern p id).maxPerClient = wm.maxPerClient := rfl
@[simp] theorem aclEval_addPattern (p id : GoString) :
    (wm.addPattern p id).aclEval = wm.aclEval := rfl

@[simp] theorem watchers_addClient (u : GoString) : (wm.addClient u).watchers = wm.watchers := by
  rw [addClient]; split_ifs <;> rfl
@[simp] theorem channels_addClient (u : GoString) : (wm.addClient u).channels = wm.channels := by
  rw [addClient]; split_ifs <;> rfl
@[simp] theorem patterns_addClient (u : GoString) : (wm.addClient u).patterns = wm.patterns := by
  rw [addClient]; split_ifs <;> rfl
@[simp] theorem watcherIDs_addClient (u p : GoString) :
    (wm.addClient u).watcherIDs p = wm.watcherIDs p := by
  rw [watcherIDs, patterns_addClient, watcherIDs]
@[simp] theorem maxPerClient_addClient (u : GoString) :
    (wm.addClient u).maxPerClient = wm.maxPerClient := by
  rw [addClient]; split_ifs <;> rfl
@[simp] theorem aclEval_addClient (u : GoString) : (wm.addClient u).aclEval = wm.aclEval := by
  rw [addClient]; split_ifs <;> rfl

@[simp] theorem watchers_removePattern (p id : GoString) :
    (wm.removePattern p id).watchers = wm.watchers := by
  simp only [removePattern]; split_ifs <;> rfl
@[simp] theorem channels_removePattern (p id : GoString) :
    (wm.removePattern p id).channels = wm.channels := by
  simp only [removePattern]; split_ifs <;> rfl
@[simp] theorem clientCount_removePattern (p id u : GoString) :
    (wm.removePattern p id).clientCount u = wm.clientCount u := by
  simp only [removePattern]; split_ifs <;> rfl
@[simp] theorem maxPerClient_removePattern (p id : GoString) :
    (wm.removePattern p id).maxPerClient = wm.maxPerClient := by
  simp only [removePattern]; split_ifs <;> rfl
@[simp] theorem aclEval_removePattern (p id : GoString) :
    (wm.removePattern p id).aclEval = wm.aclEval := by
  simp only [removePattern]; split_ifs <;> rfl

@[simp] theorem watchers_removeClient (u : GoString) :
    (wm.removeClient u).watchers = wm.watchers := by
  simp only [removeClient]; split_ifs <;> rfl
@[simp] theorem channels_removeClient (u : GoString) :
    (wm.removeClient u).channels = wm.channels := by
  simp only [removeClient]; split_ifs <;> rfl
@[simp] theorem patterns_removeClient (u : GoString) :
    (wm.removeClient u).patterns = wm.patterns := by
  simp only [removeClient]; split_ifs <;> rfl
@[simp] theorem watcherIDs_removeClient (u p : GoString) :
    (wm.removeClient u).watcherIDs p = wm.watcherIDs p := by
  rw [watcherIDs, patterns_removeClient, watcherIDs]
@[simp] theorem maxPerClient_removeClient (u : GoString) :
    (wm.removeClient u).maxPerClient = wm.maxPerClient := by
  simp only [removeClient]; split_ifs <;> rfl
@[simp] theorem aclEval_removeClient (u : GoString) :
    (wm.removeClient u).aclEval = wm.aclEval := by
  simp only [removeClient]; split_ifs <;> rfl

/-! ### The invariant -/

/-- How often an id is listed under a pattern when the maps agree. -/
def occurrences (id p : GoString) : ℕ :=
  match wm.watchers.lookup id with
  | some watcher => if watcher.pattern = p then 1 else 0
  | none => 0

/-- The maps agree, and every registered watcher has an open channel. -/
structure Consistent : Prop where
  listed : ∀ id p, (wm.watcherIDs p).count id = wm.occurrences id p
  nonempty : ∀ p, wm.patterns.lookup p ≠ some []
  counted : ∀ u, u ≠ [] → wm.clientCount u = wm.watchers.countVal fun w => w.userID = u
  bounded : 0 < wm.maxPerClient → ∀ u, u ≠ [] → wm.clientCount u ≤ wm.maxPerClient
  opened : ∀ id w, wm.watchers.lookup id = some w →
    ∃ events, wm.channels.lookup id = some events ∧ events.closed = false

theorem consistent_new (aclEval : Option Evaluator) (bufferSize maxPerClient : ℤ) :
    (new aclEval bufferSize maxPerClient).Consistent where
  listed _ _ := rfl
  nonempty _ := by simp [new]
  counted _ _ := rfl
  bounded h _ _ := le_of_lt h
  opened _ _ h := by simp [new] at h

variable {wm}

/-- What `AddWatcher` does: it refuses and changes nothing, or registers. -/
theorem addWatcher_cases (wm : Manager) (id pattern : GoString) (policies : List GoString)
    (transport : TransportType) (userID : GoString) :
    (∃ e, (e = .inl ErrTooManyWatchers ∨ e = .inr .makeSize) ∧
        wm.addWatcher id pattern policies transport userID = (wm, .error e)) ∨
      ∃ events, Chan.make wm.bufferSize = some events ∧
        (0 < wm.maxPerClient → userID ≠ [] → wm.clientCount userID < wm.maxPerClient) ∧
        wm.addWatcher id pattern policies transport userID =
          ((({ wm with
              channels := wm.channels.insert id events
              watchers := wm.watchers.insert id ⟨id, pattern, policies, transport, userID⟩ } :
            Manager).addPattern pattern id).addClient userID,
            .ok ⟨id, pattern, policies, transport, userID⟩) := by
  rw [addWatcher]
  split_ifs with hlimit
  · exact .inl ⟨_, .inl rfl, rfl⟩
  · cases hmake : Chan.make (A := Event) wm.bufferSize with
    | none => exact .inl ⟨_, .inr rfl, rfl⟩
    | some events =>
      refine .inr ⟨events, rfl, fun hmax hu => ?_, rfl⟩
      by_contra hle
      exact hlimit ⟨hmax, hu, by omega⟩

theorem Consistent.addWatcher (h : wm.Consistent) {id : GoString} (hfresh : id ∉ wm.watchers)
    (pattern : GoString) (policies : List GoString) (transport : TransportType)
    (userID : GoString) : (wm.addWatcher id pattern policies transport userID).1.Consistent := by
  rcases addWatcher_cases wm id pattern policies transport userID with
    ⟨e, -, heq⟩ | ⟨events, hmake, hlimit, heq⟩
  · rw [heq]
    exact h
  rw [heq]
  have hnone : wm.watchers.lookup id = none := Finmap.lookup_eq_none.mpr hfresh
  constructor
  · intro id' p
    have hold := h.listed id' p
    have hids : ∀ q, ({ wm with
        channels := wm.channels.insert id events
        watchers := wm.watchers.insert id ⟨id, pattern, policies, transport, userID⟩ } :
        Manager).watcherIDs q = wm.watcherIDs q := fun q => rfl
    simp only [watcherIDs_addClient, watcherIDs_addPattern, hids, occurrences, watchers_addClient,
      watchers_addPattern, GoMap.lookup_insert_ite] at hold ⊢
    by_cases hid : id' = id
    · subst hid
      simp only [hnone] at hold
      by_cases hp : p = pattern
      · subst hp
        simp [hold]
      · simp [hp, Ne.symm hp, hold]
    · by_cases hp : p = pattern
      · subst hp
        simp [hid, Ne.symm hid, hold]
      · simp [hp, hid, hold]
  · intro p
    rw [patterns_addClient]
    exact patterns_addPattern_ne_nil _ h.nonempty p
  · intro u hu
    have hold := h.counted u hu
    rw [clientCount_addClient _ hu, clientCount_addPattern, watchers_addClient,
      watchers_addPattern, GoMap.countVal_insert_of_notMem hfresh]
    simp only [clientCount] at hold ⊢
    rw [hold]
    push_cast
    simp
  · intro hmax u hu
    rw [maxPerClient_addClient, maxPerClient_addPattern] at hmax ⊢
    rw [clientCount_addClient _ hu, clientCount_addPattern]
    have hold := h.bounded hmax u hu
    have hlt := hlimit hmax
    simp only [clientCount] at hold hlt ⊢
    split_ifs with heq
    · subst heq
      have := hlt hu
      omega
    · omega
  · intro id' w
    simp only [watchers_addClient, watchers_addPattern, channels_addClient, channels_addPattern,
      GoMap.lookup_insert_ite]
    split_ifs with hid
    · intro _
      exact ⟨events, rfl, (Chan.make_sent hmake).2⟩
    · exact h.opened id' w

/-! ### Closing channels -/

/-- The channel of an id is there and open. -/
def Open (wm : Manager) (id : GoString) : Prop :=
  ∃ events, wm.channels.lookup id = some events ∧ events.closed = false

/-- Everything the channel of an id accepted. -/
def sentTo (wm : Manager) (id : GoString) : Option (List Event) :=
  (wm.channels.lookup id).map Chan.sent

theorem closeWatcher_spec {id : GoString} (h : wm.Open id) :
    ∃ events, wm.closeWatcher id =
        ({ wm with channels := wm.channels.insert id events, watchers := wm.watchers.erase id },
          none) ∧
      ∀ id', ({ wm with channels := wm.channels.insert id events } : Manager).sentTo id' =
        wm.sentTo id' := by
  obtain ⟨events, hlookup, hopen⟩ := h
  obtain ⟨events', hclose, -, hsent⟩ := Chan.close_spec hopen
  refine ⟨events', ?_, fun id' => ?_⟩
  · rw [closeWatcher, hlookup, Option.bind_some, hclose]
  · simp only [sentTo, GoMap.lookup_insert_ite]
    split_ifs with hid
    · rw [hid, hlookup, Option.map_some, Option.map_some, hsent]
    · rfl

/-- What `RemoveWatcher` does: nothing, or the watcher leaves the three maps. -/
theorem Consistent.removeWatcher_cases (h : wm.Consistent) (id : GoString) :
    (wm.watchers.lookup id = none ∧ wm.removeWatcher id = (wm, none)) ∨
      ∃ watcher events, wm.watchers.lookup id = some watcher ∧
        wm.removeWatcher id =
          ({ (wm.removePattern watcher.pattern id).removeClient watcher.userID with
            channels := wm.channels.insert id events, watchers := wm.watchers.erase id }, none) ∧
        ∀ id', ({ wm with channels := wm.channels.insert id events } : Manager).sentTo id' =
          wm.sentTo id' := by
  rw [removeWatcher]
  cases hw : wm.watchers.lookup id with
  | none => exact .inl ⟨rfl, rfl⟩
  | some watcher =>
    have hopen : ((wm.removePattern watcher.pattern id).removeClient watcher.userID).Open id := by
      simp only [Open, channels_removeClient, channels_removePattern]
      exact h.opened id watcher hw
    obtain ⟨events, hclose, hsent⟩ := closeWatcher_spec hopen
    refine .inr ⟨watcher, events, rfl, ?_, ?_⟩
    · simp only [hclose, channels_removeClient, channels_removePattern, watchers_removeClient,
        watchers_removePattern]
    · intro id'
      have := hsent id'
      simp only [sentTo, channels_removeClient, channels_removePattern] at this ⊢
      exact this

theorem Consistent.removeWatcher (h : wm.Consistent) (id : GoString) :
    (wm.removeWatcher id).1.Consistent := by
  rcases h.removeWatcher_cases id with ⟨-, heq⟩ | ⟨watcher, events, hw, heq, -⟩
  · rw [heq]
    exact h
  rw [heq]
  constructor
  · intro id' p
    have hold := h.listed id' p
    have hids : ({ (wm.removePattern watcher.pattern id).removeClient watcher.userID with
        channels := wm.channels.insert id events, watchers := wm.watchers.erase id } :
        Manager).watcherIDs p =
        ((wm.removePattern watcher.pattern id).removeClient watcher.userID).watcherIDs p := rfl
    rw [hids, watcherIDs_removeClient, watcherIDs_removePattern]
    simp only [occurrences, GoMap.lookup_erase_ite] at hold ⊢
    by_cases hid : id' = id
    · subst hid
      simp only [hw] at hold
      by_cases hp : p = watcher.pattern
      · subst hp
        simp [List.count_erase_self, hold]
      · simp [hp, Ne.symm hp, hold]
    · by_cases hp : p = watcher.pattern
      · subst hp
        simp only [hid, ite_true, ite_false]
        rw [List.count_erase_of_ne hid]
        exact hold
      · simp only [hid, hp, ite_false]
        exact hold
  · intro p
    rw [patterns_removeClient]
    exact patterns_removePattern_ne_nil _ h.nonempty p
  · intro u hu
    have hcount : ({ (wm.removePattern watcher.pattern id).removeClient watcher.userID with
        channels := wm.channels.insert id events, watchers := wm.watchers.erase id } :
        Manager).clientCount u =
        ((wm.removePattern watcher.pattern id).removeClient watcher.userID).clientCount u := rfl
    have hold := h.counted u hu
    rw [hcount, clientCount_removeClient _ hu, clientCount_removePattern, hold,
      GoMap.countVal_erase hw]
    push_cast
    simp
  · intro hmax u hu
    have hcount : ({ (wm.removePattern watcher.pattern id).removeClient watcher.userID with
        channels := wm.channels.insert id events, watchers := wm.watchers.erase id } :
        Manager).clientCount u =
        ((wm.removePattern watcher.pattern id).removeClient watcher.userID).clientCount u := rfl
    have hmax' : 0 < wm.maxPerClient := by simpa using hmax
    have hold := h.bounded hmax' u hu
    rw [hcount, clientCount_removeClient _ hu, clientCount_removePattern]
    simp only [maxPerClient_removeClient, maxPerClient_removePattern]
    split_ifs <;> omega
  · intro id' w hw'
    simp only [GoMap.lookup_erase_ite] at hw'
    split_ifs at hw' with hid
    simp only [GoMap.lookup_insert_ite, hid, ite_false]
    exact h.opened id' w hw'

theorem closeWatchers_spec {ids : List GoString} (hnodup : ids.Nodup) (h : ∀ id ∈ ids, wm.Open id) :
    ∃ channels, wm.closeWatchers ids =
        ({ wm with channels, watchers := wm.watchers.eraseAll ids }, none) ∧
      ∀ id, ({ wm with channels } : Manager).sentTo id = wm.sentTo id := by
  induction ids generalizing wm with
  | nil => exact ⟨wm.channels, rfl, fun _ => rfl⟩
  | cons id ids ih =>
    obtain ⟨hid, hnodup⟩ := List.nodup_cons.mp hnodup
    obtain ⟨events, hclose, hsent⟩ := closeWatcher_spec (h id (List.mem_cons_self ..))
    have hrest : ∀ id' ∈ ids, ({ wm with
        channels := wm.channels.insert id events, watchers := wm.watchers.erase id } :
        Manager).Open id' := by
      intro id' hmem
      have hne : id' ≠ id := fun heq => hid (heq ▸ hmem)
      simp only [Open, GoMap.lookup_insert_ite, hne, ite_false]
      exact h id' (List.mem_cons_of_mem _ hmem)
    obtain ⟨channels, hrun, hsent'⟩ := ih hnodup hrest
    refine ⟨channels, ?_, fun id' => ?_⟩
    · rw [closeWatchers, hclose]
      exact hrun
    · exact (hsent' id').trans (hsent id')

/-- `Close` leaves no watcher and closes each channel once. -/
theorem Consistent.close_eq (h : wm.Consistent) (range : wm.watchers.Order) :
    ∃ channels, wm.close range =
        ({ wm with channels, watchers := ∅, patterns := ∅, clientCounts := ∅ }, none) ∧
      ∀ id, ({ wm with channels } : Manager).sentTo id = wm.sentTo id := by
  have hopen : ∀ id ∈ range.list.map Sigma.fst, wm.Open id := by
    intro id hid
    obtain ⟨watcher, hw⟩ := Finmap.mem_iff.mp ((range.mem_keys_iff id).mp hid)
    exact h.opened id watcher hw
  obtain ⟨channels, hrun, hsent⟩ := closeWatchers_spec range.nodup_keys hopen
  have hempty : wm.watchers.eraseAll (range.list.map Sigma.fst) = ∅ := by
    refine Finmap.ext_lookup fun id => ?_
    rw [GoMap.lookup_eraseAll, Finmap.lookup_empty]
    split_ifs with hid
    · rfl
    · rw [range.mem_keys_iff] at hid
      exact Finmap.lookup_eq_none.mpr hid
  refine ⟨channels, ?_, hsent⟩
  rw [close, hrun, hempty]

theorem Consistent.close (h : wm.Consistent) (range : wm.watchers.Order) :
    (wm.close range).1.Consistent := by
  obtain ⟨channels, heq, -⟩ := h.close_eq range
  rw [heq]
  constructor
  · exact fun _ _ => rfl
  · simp
  · exact fun _ _ => rfl
  · exact fun hmax _ _ => le_of_lt hmax
  · exact fun _ _ hw => by simp at hw

end Manager

/-! ### Runs -/

/-- A call that takes the write lock. -/
inductive RegistryOp where
  | add (id pattern : GoString) (policies : List GoString) (transport : TransportType)
    (userID : GoString)
  | remove (id : GoString)
  | close (range : (m : GoMap GoString Watcher) → m.Order)

namespace Manager

/-- The manager after a call, and the panic of the call. -/
def apply (wm : Manager) : RegistryOp → Manager × Option Panic
  | .add id pattern policies transport userID =>
    match wm.addWatcher id pattern policies transport userID with
    | (wm, .ok _) => (wm, none)
    | (wm, .error (.inl _)) => (wm, none)
    | (wm, .error (.inr panic)) => (wm, some panic)
  | .remove id => wm.removeWatcher id
  | .close range => wm.close (range wm.watchers)

/-- A new watcher gets an id no watcher has had. -/
def Fresh (wm : Manager) : RegistryOp → Prop
  | .add id .. => id ∉ wm.channels
  | _ => True

instance (wm : Manager) (op : RegistryOp) : Decidable (wm.Fresh op) :=
  match op with
  | .add id .. => inferInstanceAs (Decidable (id ∉ wm.channels))
  | .remove _ => .isTrue trivial
  | .close _ => .isTrue trivial

/-- The machine whose steps are whole calls. -/
def machine : Machine Manager RegistryOp (Option Panic) := ⟨apply⟩

theorem apply_add (wm : Manager) (id pattern : GoString) (policies : List GoString)
    (transport : TransportType) (userID : GoString) :
    (wm.apply (.add id pattern policies transport userID)).1 =
      (wm.addWatcher id pattern policies transport userID).1 := by
  rw [apply]
  split <;> simp [*]

variable {wm : Manager}

theorem Consistent.apply (h : wm.Consistent) {op : RegistryOp} (hfresh : wm.Fresh op) :
    (wm.apply op).1.Consistent := by
  cases op with
  | add id pattern policies transport userID =>
    have hnot : id ∉ wm.watchers := by
      intro hmem
      obtain ⟨watcher, hw⟩ := Finmap.mem_iff.mp hmem
      obtain ⟨events, hevents, -⟩ := h.opened id watcher hw
      exact hfresh (Finmap.mem_iff.mpr ⟨events, hevents⟩)
    rw [apply_add]
    exact h.addWatcher hnot pattern policies transport userID
  | remove id => exact h.removeWatcher id
  | close range => exact h.close (range wm.watchers)

theorem Consistent.aclEval_apply (h : wm.Consistent) (op : RegistryOp) :
    (wm.apply op).1.aclEval = wm.aclEval := by
  cases op with
  | add id pattern policies transport userID =>
    rw [apply_add]
    rcases addWatcher_cases wm id pattern policies transport userID with
      ⟨e, -, heq⟩ | ⟨events, -, -, heq⟩
    · rw [heq]
    · rw [heq, aclEval_addClient, aclEval_addPattern]
  | remove id =>
    rcases h.removeWatcher_cases id with ⟨-, heq⟩ | ⟨watcher, events, -, heq, -⟩
    · rw [Manager.apply, heq]
    · rw [Manager.apply, heq, aclEval_removeClient, aclEval_removePattern]
  | close range =>
    obtain ⟨channels, heq, -⟩ := h.close_eq (range wm.watchers)
    rw [Manager.apply, heq]

/-- What the three maps promise each other. -/
structure Registry (wm : Manager) : Prop where
  listed : ∀ id watcher, wm.watchers.lookup id = some watcher →
    ∃ ids, wm.patterns.lookup watcher.pattern = some ids ∧ ids.count id = 1
  own : ∀ id watcher p ids, wm.watchers.lookup id = some watcher →
    wm.patterns.lookup p = some ids → id ∈ ids → p = watcher.pattern
  registered : ∀ p ids id, wm.patterns.lookup p = some ids → id ∈ ids → id ∈ wm.watchers
  nonempty : ∀ p ids, wm.patterns.lookup p = some ids → ids ≠ []
  counted : ∀ u, u ≠ [] →
    wm.getWatchersByUser u = wm.watchers.countVal fun watcher => watcher.userID = u
  bounded : 0 < wm.maxPerClient → ∀ u, u ≠ [] → wm.getWatchersByUser u ≤ wm.maxPerClient

theorem Consistent.pattern_of_mem (h : wm.Consistent) {p id : GoString} {ids : List GoString}
    (hp : wm.patterns.lookup p = some ids) (hid : id ∈ ids) :
    ∃ watcher, wm.watchers.lookup id = some watcher ∧ watcher.pattern = p := by
  have hlisted := h.listed id p
  have hpos : 0 < ids.count id := List.count_pos_iff.mpr hid
  simp only [watcherIDs, hp, Option.getD_some] at hlisted
  rw [occurrences] at hlisted
  cases hw : wm.watchers.lookup id with
  | none =>
    rw [hw] at hlisted
    simp only at hlisted
    omega
  | some watcher =>
    rw [hw] at hlisted
    refine ⟨watcher, rfl, ?_⟩
    by_contra hne
    simp only [hne, ite_false] at hlisted
    omega

theorem Consistent.registry (h : wm.Consistent) : wm.Registry where
  listed id watcher hw := by
    have hlisted := h.listed id watcher.pattern
    simp only [occurrences, hw, ite_true] at hlisted
    cases hp : wm.patterns.lookup watcher.pattern with
    | none => simp [watcherIDs, hp] at hlisted
    | some ids =>
      simp only [watcherIDs, hp, Option.getD_some] at hlisted
      exact ⟨ids, rfl, hlisted⟩
  own id watcher p ids hw hp hid := by
    obtain ⟨watcher', hw', hpattern⟩ := h.pattern_of_mem hp hid
    rw [hw] at hw'
    cases hw'
    exact hpattern.symm
  registered p ids id hp hid := by
    obtain ⟨watcher, hw, -⟩ := h.pattern_of_mem hp hid
    exact Finmap.mem_iff.mpr ⟨watcher, hw⟩
  nonempty p ids hp hnil := h.nonempty p (hnil ▸ hp)
  counted := h.counted
  bounded := h.bounded

/-- The registry is consistent after every run of additions, removals and
shutdowns. -/
theorem registry_invariant (aclEval : Option Evaluator) (bufferSize maxPerClient : ℤ)
    (ops : List RegistryOp)
    (hfresh : machine.Along Fresh (new aclEval bufferSize maxPerClient) ops) :
    (machine.run (new aclEval bufferSize maxPerClient) ops).1.Registry := by
  have hinv : (machine.run (new aclEval bufferSize maxPerClient) ops).1.Consistent := by
    refine machine.invariant (fun wm op h hf => ?_)
      (consistent_new aclEval bufferSize maxPerClient) hfresh
    exact h.apply hf
  exact hinv.registry

/-- A watcher is added, refused a second place, removed, and added again. -/
theorem registry_invariant_one_client :
    (machine.run (new none 8 1)
      [.add (str "w1") (str "app/*") [] .sse (str "ann"),
        .add (str "w2") (str "app/*") [] .sse (str "ann"), .remove (str "w1"),
        .remove (str "w9"), .add (str "w3") (str "db") [] .websocket (str "ann")]).1.Registry :=
  registry_invariant none 8 1 _
    ⟨by decide, by decide, trivial, trivial, by decide, trivial⟩

end Manager

end Konsul.Watch
