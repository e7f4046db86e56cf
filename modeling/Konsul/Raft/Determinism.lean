import Konsul.Raft.FSM

/-!
# Map orders that replicas can observe

The key-value part of the state machine is a `Chooser`: a step also consumes the
orders of the command's map loops. A batch write hands out indices in the order
of its loop, and a refused compare-and-swap batch names the first key its loop
meets; no other command has an order that shows.
-/

namespace Konsul

open GoLib

/-! ### Where the order of a batch shows -/

namespace KVTable

/-- The items of a compare-and-swap batch that fail their check. -/
def failingKeys (t : KVTable) (items : GoMap GoString GoString)
    (expectedIndices : GoMap GoString UInt64) : Finset GoString :=
  items.keys.filter fun key => t.checkSetCAS key (expected expectedIndices key) ≠ none

/-- The maps of the command leave no order, or none that shows: at most one item
to write, or one key to refuse. -/
def OrderFree (t : KVTable) : KVCommand → Prop
  | .batchSet items => items.keys.card ≤ 1
  | .batchSetCAS items expectedIndices =>
    (t.failingKeys items expectedIndices).card = 1 ∨
      t.failingKeys items expectedIndices = ∅ ∧ items.keys.card ≤ 1
  | _ => True

/-- The error of a check names its key. -/
theorem key_of_checkSetCAS {t : KVTable} {k k' : GoString} {n n' : UInt64} {err : GoError}
    (h : t.checkSetCAS k n = some err) (h' : t.checkSetCAS k' n' = some err) : k = k' := by
  have hkey (k : GoString) (n : UInt64) (h : t.checkSetCAS k n = some err) :
      (∃ i j s, err = .casConflict k i j s) ∨ ∃ s, err = .notFound s k := by
    unfold checkSetCAS at h
    split at h
    · split_ifs at h
      · exact Or.inl ⟨_, _, _, (Option.some.inj h).symm⟩
      · exact Or.inl ⟨_, _, _, (Option.some.inj h).symm⟩
    · split_ifs at h
      exact Or.inr ⟨_, (Option.some.inj h).symm⟩
  rcases hkey k n h with ⟨i, j, s, h1⟩ | ⟨s, h1⟩ <;>
    rcases hkey k' n' h' with ⟨i', j', s', h2⟩ | ⟨s', h2⟩ <;> rw [h1] at h2 <;> cases h2 <;> rfl

variable (t : KVTable) {items : GoMap GoString GoString} (expectedIndices : GoMap GoString UInt64)

theorem mem_failingKeys_iff (o : items.Order) (k : GoString) :
    k ∈ t.failingKeys items expectedIndices ↔
      k ∈ o.list.map Sigma.fst ∧ t.checkSetCAS k (expected expectedIndices k) ≠ none := by
  rw [failingKeys, Finset.mem_filter, Finmap.mem_keys, o.mem_keys_iff]

theorem checkSetAll_eq_none (o : items.Order) :
    t.checkSetAll o.list expectedIndices = none ↔ t.failingKeys items expectedIndices = ∅ := by
  rw [checkSetAll, List.findSome?_eq_none_iff, Finset.eq_empty_iff_forall_notMem]
  constructor
  · intro h k hk
    obtain ⟨hmem, hne⟩ := (t.mem_failingKeys_iff expectedIndices o k).mp hk
    obtain ⟨e, he, rfl⟩ := List.mem_map.mp hmem
    exact hne (h e he)
  · intro h e he
    by_contra hne
    exact h e.1 ((t.mem_failingKeys_iff expectedIndices o e.1).mpr ⟨List.mem_map_of_mem he, hne⟩)

theorem checkSetAll_eq_some {o : items.Order} {err : GoError}
    (h : t.checkSetAll o.list expectedIndices = some err) :
    ∃ k ∈ t.failingKeys items expectedIndices,
      t.checkSetCAS k (expected expectedIndices k) = some err := by
  obtain ⟨l, e, l', hl, he, -⟩ := List.findSome?_eq_some_iff.mp h
  have hmem : e ∈ o.list := by
    rw [hl]
    exact List.mem_append_right _ (List.mem_cons_self ..)
  refine ⟨e.1, (t.mem_failingKeys_iff expectedIndices o e.1).mpr ⟨List.mem_map_of_mem hmem, ?_⟩, he⟩
  rw [he]
  exact Option.some_ne_none err

theorem exists_checkSetAll_eq {k : GoString} (hk : k ∈ t.failingKeys items expectedIndices) :
    ∃ o : items.Order, t.checkSetAll o.list expectedIndices =
      t.checkSetCAS k (expected expectedIndices k) := by
  obtain ⟨hmem, hne⟩ := (t.mem_failingKeys_iff expectedIndices (GoMap.sorted items) k).mp hk
  obtain ⟨e, he, rfl⟩ := List.mem_map.mp hmem
  obtain ⟨o, rest, ho⟩ := (GoMap.sorted items).exists_first he
  obtain ⟨err, herr⟩ := Option.ne_none_iff_exists'.mp hne
  refine ⟨o, ?_⟩
  rw [checkSetAll, ho, List.findSome?_cons, herr]

/-- Two items in either order get different indices. -/
theorem putList_swap_ne {a b : Σ _ : GoString, GoString} {rest : List (Σ _ : GoString, GoString)}
    (hnodup : ((a :: b :: rest).map Sigma.fst).Nodup) :
    t.putList (a :: b :: rest) ≠ t.putList (b :: a :: rest) := by
  simp only [List.map_cons, List.nodup_cons, List.mem_cons, not_or] at hnodup
  obtain ⟨⟨hab, ha⟩, -, -⟩ := hnodup
  intro h
  have hl := congrArg (fun t : KVTable => (t.data.lookup a.1).map KVEntry.modifyIndex) h
  simp only [putList_cons, lookup_putList_of_notMem _ ha, lookup_put, if_neg hab, ite_true,
    Option.map_some, newEntry_modifyIndex, nextIndex, put_globalIndex, Option.some_inj] at hl
  exact add_one_ne_self _ hl.symm

theorem exists_putList_ne (h : ¬ items.keys.card ≤ 1) :
    ∃ o o' : items.Order, t.putList o.list ≠ t.putList o'.list := by
  obtain ⟨a, b, rest, o', ho, ho'⟩ := (GoMap.sorted items).exists_swap (by omega)
  refine ⟨GoMap.sorted items, o', ?_⟩
  rw [ho, ho']
  refine t.putList_swap_ne ?_
  rw [← ho]
  exact (GoMap.sorted items).nodup_keys

end KVTable

/-! ### The key-value part as a machine with a choice -/

/-- Commands on the table; a command of another store is answered by `none`. -/
def kvChooser : Chooser KVTable Command (Option FsmResponse) Command.Choice where
  step t
    | .kv c, ch =>
      let r := t.applyCommand c ch
      (r.1, some r.2)
    | .service _, _ => (t, none)
    | .undecodable _, _ => (t, none)

/-- The command's order does not show in the table it is applied to. -/
def Command.OrderFree (t : KVTable) : Command → Prop
  | .kv c => t.OrderFree c
  | _ => True

theorem free_batchSet_iff (t : KVTable) (items : GoMap GoString GoString) :
    kvChooser.Free t (.kv (.batchSet items)) ↔ items.keys.card ≤ 1 := by
  constructor
  · intro hfree
    by_contra hcard
    obtain ⟨o, o', hne⟩ := t.exists_putList_ne hcard
    exact hne (congrArg Prod.fst (hfree (o, o) (o', o)))
  · rintro hcard ⟨o, w⟩ ⟨o', w'⟩
    simp only [kvChooser, KVTable.applyCommand, o.list_eq_of_card_le_one o' hcard]

theorem free_batchSetCAS_iff (t : KVTable) (items : GoMap GoString GoString)
    (expectedIndices : GoMap GoString UInt64) :
    kvChooser.Free t (.kv (.batchSetCAS items expectedIndices)) ↔
      t.OrderFree (.batchSetCAS items expectedIndices) := by
  by_cases hempty : t.failingKeys items expectedIndices = ∅
  · have hpass (o : items.Order) : t.checkSetAll o.list expectedIndices = none :=
      (t.checkSetAll_eq_none expectedIndices o).mpr hempty
    simp only [KVTable.OrderFree, hempty, Finset.card_empty, true_and]
    constructor
    · intro hfree
      by_contra hcard
      obtain ⟨o, o', hne⟩ := t.exists_putList_ne fun h => hcard (Or.inr h)
      have := congrArg Prod.fst (hfree (o, o, o) (o, o', o))
      simp only [kvChooser, KVTable.applyCommand, hpass] at this
      exact hne this
    · rintro (h | hcard) ⟨o, p, w⟩ ⟨o', p', w'⟩
      · cases h
      · simp only [kvChooser, KVTable.applyCommand, hpass, p.list_eq_of_card_le_one p' hcard]
  · simp only [KVTable.OrderFree, hempty, false_and, or_false]
    -- the batch is refused, in every order
    have hfail (o : items.Order) : ∃ err, t.checkSetAll o.list expectedIndices = some err :=
      Option.ne_none_iff_exists'.mp fun h => hempty ((t.checkSetAll_eq_none expectedIndices o).mp h)
    constructor
    · intro hfree
      obtain ⟨k, hk⟩ := Finset.nonempty_iff_ne_empty.mpr hempty
      refine Finset.card_eq_one.mpr ⟨k, Finset.eq_singleton_iff_unique_mem.mpr
        ⟨hk, fun k' hk' => ?_⟩⟩
      obtain ⟨o, ho⟩ := t.exists_checkSetAll_eq expectedIndices hk
      obtain ⟨o', ho'⟩ := t.exists_checkSetAll_eq expectedIndices hk'
      obtain ⟨err, herr⟩ := hfail o
      obtain ⟨err', herr'⟩ := hfail o'
      have := congrArg Prod.snd (hfree (o, o, o) (o', o, o))
      simp only [kvChooser, KVTable.applyCommand, herr, herr', Option.some_inj, FsmResponse.cas.injEq,
        CASResult.mk.injEq, true_and] at this
      rw [ho] at herr
      rw [ho', ← this] at herr'
      exact KVTable.key_of_checkSetCAS herr' herr
    · rintro hcard ⟨o, p, w⟩ ⟨o', p', w'⟩
      obtain ⟨err, herr⟩ := hfail o
      obtain ⟨err', herr'⟩ := hfail o'
      obtain ⟨k, hk, hkerr⟩ := t.checkSetAll_eq_some expectedIndices herr
      obtain ⟨k', hk', hkerr'⟩ := t.checkSetAll_eq_some expectedIndices herr'
      obtain ⟨a, ha⟩ := Finset.card_eq_one.mp hcard
      rw [ha, Finset.mem_singleton] at hk hk'
      rw [hk] at hkerr
      rw [hk', hkerr] at hkerr'
      cases hkerr'
      simp only [kvChooser, KVTable.applyCommand, herr, herr']

/-- A step is free of its orders exactly when none of them shows. -/
theorem free_iff (t : KVTable) (c : Command) : kvChooser.Free t c ↔ c.OrderFree t := by
  match c with
  | .kv (.batchSet items) => exact free_batchSet_iff t items
  | .kv (.batchSetCAS items expectedIndices) => exact free_batchSetCAS_iff t items expectedIndices
  | .kv (.set _ _) => exact ⟨fun _ => trivial, fun _ _ _ => rfl⟩
  | .kv (.setWithFlags _ _ _) => exact ⟨fun _ => trivial, fun _ _ _ => rfl⟩
  | .kv (.delete _) => exact ⟨fun _ => trivial, fun _ _ _ => rfl⟩
  | .kv (.batchDelete _) => exact ⟨fun _ => trivial, fun _ _ _ => rfl⟩
  | .kv (.setCAS _ _ _) => exact ⟨fun _ => trivial, fun _ _ _ => rfl⟩
  | .kv (.deleteCAS _ _) => exact ⟨fun _ => trivial, fun _ _ _ => rfl⟩
  | .kv (.batchDeleteCAS _ _) => exact ⟨fun _ => trivial, fun _ _ _ => rfl⟩
  | .service _ => exact ⟨fun _ => trivial, fun _ _ _ => rfl⟩
  | .undecodable _ => exact ⟨fun _ => trivial, fun _ _ _ => rfl⟩

/-! ### Replicas -/

namespace FSM

/-- The answer of an entry of the key-value store. -/
def kvAnswer (e : Applied) (answer : FsmResponse) : Option FsmResponse :=
  match e.command with
  | .kv _ => some answer
  | _ => none

/-- What a run shows of the key-value store: the table and the answers. -/
def kvView (f : FSM) (r : List Applied) : KVTable × List (Option FsmResponse) :=
  ((machine.run f r).1.kvStore.toKVTable, List.zipWith kvAnswer r (machine.run f r).2)

/-- Two replicas with equal tables that apply the log, each with its own orders,
clock and services, end with equal tables and answer its commands alike. -/
def KVAgree (t : KVTable) (log : List Command) : Prop :=
  ∀ (f f' : FSM) (r r' : List Applied), f.kvStore.toKVTable = t → f'.kvStore.toKVTable = t →
    r.map Applied.command = log → r'.map Applied.command = log → kvView f r = kvView f' r'

def choiceOf (e : Applied) : Σ c : Command, c.Choice := ⟨e.command, e.choice⟩

theorem apply_kvStore (f : FSM) (e : Applied) :
    (f.apply e.now e.command e.choice).1.kvStore.toKVTable =
        (kvChooser.step f.kvStore.toKVTable e.command e.choice).1 ∧
      kvAnswer e (f.apply e.now e.command e.choice).2 =
        (kvChooser.step f.kvStore.toKVTable e.command e.choice).2 := by
  obtain ⟨c, ch, now⟩ := e
  cases c with
  | kv c =>
    obtain ⟨htable, hanswer⟩ := applyKV_eq f.kvStore c ch
    exact ⟨htable, congrArg some hanswer⟩
  | service c => exact ⟨rfl, rfl⟩
  | undecodable answer => exact ⟨rfl, rfl⟩

theorem kvView_eq (f : FSM) (r : List Applied) :
    kvView f r = kvChooser.machine.run f.kvStore.toKVTable (r.map choiceOf) := by
  induction r generalizing f with
  | nil => rfl
  | cons e r ih =>
    obtain ⟨htable, hanswer⟩ := apply_kvStore f e
    have hrest := ih (f.apply e.now e.command e.choice).1
    rw [htable] at hrest
    have hend := congrArg Prod.fst hrest
    have hanswers := congrArg Prod.snd hrest
    refine Prod.ext ?_ ?_
    · exact hend
    · exact congrArg₂ List.cons hanswer hanswers

theorem map_fst_choiceOf (r : List Applied) :
    (r.map choiceOf).map Sigma.fst = r.map Applied.command := by
  rw [List.map_map]
  rfl

/-- Entries of a log applied by a replica whose clock stands still. -/
def ofChoices (q : List (Σ c : Command, c.Choice)) : List Applied :=
  q.map fun x => ⟨x.1, x.2, 0⟩

theorem map_choiceOf_ofChoices (q : List (Σ c : Command, c.Choice)) :
    (ofChoices q).map choiceOf = q := by
  rw [ofChoices, List.map_map]
  exact List.map_id q

theorem map_command_ofChoices (q : List (Σ c : Command, c.Choice)) :
    (ofChoices q).map Applied.command = q.map Sigma.fst := by
  rw [← map_fst_choiceOf, map_choiceOf_ofChoices]

/-- A replica with a given table. -/
def withTable (t : KVTable) : FSM :=
  { kvStore := { KVStore.new with toKVTable := t }, serviceStore := .newWithTTL 0 }

theorem kvAgree_iff (t : KVTable) (log : List Command) : KVAgree t log ↔ kvChooser.Agree t log := by
  constructor
  · intro h q q' hq hq'
    have := h (withTable t) (withTable t) (ofChoices q) (ofChoices q') rfl rfl
      (by rw [map_command_ofChoices, hq]) (by rw [map_command_ofChoices, hq'])
    rwa [kvView_eq, kvView_eq, map_choiceOf_ofChoices, map_choiceOf_ofChoices] at this
  · intro h f f' r r' hf hf' hr hr'
    rw [kvView_eq, kvView_eq, hf, hf']
    exact h _ _ (by rw [map_fst_choiceOf, hr]) (by rw [map_fst_choiceOf, hr'])

/-- The steps of a run that are free of their orders, on the run of its table. -/
theorem along_orderFree_iff (f : FSM) (r : List Applied) :
    machine.Along (fun f e => e.command.OrderFree f.kvStore.toKVTable) f r ↔
      kvChooser.machine.Along (fun t x => kvChooser.Free t x.1) f.kvStore.toKVTable
        (r.map choiceOf) := by
  have hstep (f : FSM) (e : Applied) :
      (kvChooser.machine.step f.kvStore.toKVTable (choiceOf e)).1 =
        (machine.step f e).1.kvStore.toKVTable := (apply_kvStore f e).1.symm
  rw [machine.along_map kvChooser.machine (fun f => f.kvStore.toKVTable) choiceOf hstep]
  simp only [free_iff]
  rfl

/-- Replicas agree on every prefix of a log exactly when every step any of them
takes in the log has no order that shows. -/
theorem kv_deterministic_iff (t : KVTable) (log : List Command) :
    (∀ n, KVAgree t (log.take n)) ↔
      ∀ (f : FSM) (r : List Applied), f.kvStore.toKVTable = t → r.map Applied.command = log →
        machine.Along (fun f e => e.command.OrderFree f.kvStore.toKVTable) f r := by
  simp only [kvAgree_iff, kvChooser.agree_prefix_iff]
  constructor
  · intro h f r hf hr
    rw [along_orderFree_iff, hf]
    exact h _ (by rw [map_fst_choiceOf, hr])
  · intro h q hq
    have := h (withTable t) (ofChoices q) rfl (by rw [map_command_ofChoices, hq])
    rwa [along_orderFree_iff, map_choiceOf_ofChoices] at this

/-! ### A batch of two keys -/

def twoItems : GoMap GoString GoString :=
  Finmap.insert (str "b") (str "2") (Finmap.insert (str "a") (str "1") ∅)

/-- The batch `a`, `b` and a compare-and-swap of `a` against the index 1. -/
def batchThenCAS (range : GoMap.Order twoItems) : List Applied :=
  [⟨.kv (.batchSet _), (range, range), 0⟩, ⟨.kv (.setCAS (str "a") (str "x") 1), (), 0⟩]

/-- Visited in one order or the other, the batch leaves `a` at index 1 or 2, and
the compare-and-swap succeeds on one replica and is refused on the other. -/
theorem batch_order_observed :
    (kvView (withTable ⟨∅, 0⟩) (batchThenCAS
        ⟨[⟨str "a", str "1"⟩, ⟨str "b", str "2"⟩], by decide⟩)).2 =
      [some (.err none), some (.cas ⟨3, ∅, none⟩)] ∧
    (kvView (withTable ⟨∅, 0⟩) (batchThenCAS
        ⟨[⟨str "b", str "2"⟩, ⟨str "a", str "1"⟩], by decide⟩)).2 =
      [some (.err none), some (.cas ⟨0, ∅, some (.casConflict (str "a") 1 2 (str "key"))⟩)] := by
  constructor <;> decide

end FSM

end Konsul
