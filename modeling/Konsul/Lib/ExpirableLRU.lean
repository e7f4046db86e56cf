import Mathlib.Data.Int.Notation
import Mathlib.Data.List.Basic
import Mathlib.Data.List.Nodup
import Mathlib.Data.Set.Insert

/-!
# A cache of bounded size whose entries expire

`ExpirableLRU` names the operations of such a cache, over a type of caches that stays a
parameter, and `Documented` what its users rely on: of each operation, where the entries it
leaves come from. `ListLRU` is one such cache, a list with the newest entry first.
-/

namespace GoLib

structure LRUEntry (K V : Type*) where
  key : K
  value : V
  expiresAt : ℤ

/-- The operations of `expirable.LRU`, which read the clock. -/
structure ExpirableLRU (C K V : Type*) where
  new (size ttl : ℤ) : C
  add (c : C) (key : K) (value : V) (now : ℤ) : C
  get (c : C) (key : K) (now : ℤ) : C × Option V
  remove (c : C) (key : K) : C
  purge (c : C) : C
  /-- What the cache does of its own with entries that have expired. -/
  deleteExpired (c : C) (now : ℤ) : C
  ttl : C → ℤ
  entries : C → Set (LRUEntry K V)

namespace ExpirableLRU

variable {C K V : Type*}

/-- `Add` puts in one entry, with the time to live of the cache; `Get` answers with an entry
it has of the key that has not expired; nothing else puts entries in. -/
structure Documented (lru : ExpirableLRU C K V) : Prop where
  ttl_new : ∀ size ttl, 0 < ttl → lru.ttl (lru.new size ttl) = ttl
  ttl_add : ∀ c key value now, lru.ttl (lru.add c key value now) = lru.ttl c
  ttl_get : ∀ c key now, lru.ttl (lru.get c key now).1 = lru.ttl c
  ttl_remove : ∀ c key, lru.ttl (lru.remove c key) = lru.ttl c
  ttl_purge : ∀ c, lru.ttl (lru.purge c) = lru.ttl c
  ttl_deleteExpired : ∀ c now, lru.ttl (lru.deleteExpired c now) = lru.ttl c
  entries_new : ∀ size ttl, lru.entries (lru.new size ttl) = ∅
  entries_add : ∀ c key value now,
    lru.entries (lru.add c key value now) ⊆ insert ⟨key, value, now + lru.ttl c⟩ (lru.entries c)
  entries_get : ∀ c key now, lru.entries (lru.get c key now).1 ⊆ lru.entries c
  entries_remove : ∀ c key, lru.entries (lru.remove c key) ⊆ lru.entries c
  entries_purge : ∀ c, lru.entries (lru.purge c) ⊆ lru.entries c
  entries_deleteExpired : ∀ c now, lru.entries (lru.deleteExpired c now) ⊆ lru.entries c
  get_entry : ∀ c key now value, (lru.get c key now).2 = some value →
    ∃ e ∈ lru.entries c, e.key = key ∧ e.value = value ∧ now ≤ e.expiresAt

end ExpirableLRU

/-! ### A cache that is a list -/

/-- The entries, newest first. A size of zero stands for no bound. -/
structure ListLRU (K V : Type*) where
  size : ℕ
  ttl : ℤ
  entries : List (LRUEntry K V)
  nodup : (entries.map LRUEntry.key).Nodup
  bounded : 0 < size → entries.length ≤ size

namespace ListLRU

variable {K V : Type*} [DecidableEq K]

def new (size ttl : ℤ) : ListLRU K V :=
  ⟨size.toNat, ttl, [], List.nodup_nil, fun _ => Nat.zero_le _⟩

/-- The entries that are not of the key. -/
def others (c : ListLRU K V) (key : K) : List (LRUEntry K V) :=
  c.entries.filter fun e => e.key ≠ key

theorem nodup_others (c : ListLRU K V) (key : K) :
    ((c.others key).map LRUEntry.key).Nodup :=
  c.nodup.sublist (List.filter_sublist.map _)

theorem notMem_others (c : ListLRU K V) (key : K) : key ∉ (c.others key).map LRUEntry.key := by
  intro hmem
  obtain ⟨e, he, hkey⟩ := List.mem_map.mp hmem
  exact of_decide_eq_true (List.mem_filter.mp he).2 hkey

/-- An entry made the newest, if it fits. -/
def front (c : ListLRU K V) (e : LRUEntry K V) : List (LRUEntry K V) :=
  if 0 < c.size then (e :: c.others e.key).take c.size else e :: c.others e.key

theorem front_sublist (c : ListLRU K V) (e : LRUEntry K V) :
    (c.front e).Sublist (e :: c.others e.key) := by
  unfold front
  split_ifs
  · exact List.take_sublist _ _
  · exact List.Sublist.refl _

def pushFront (c : ListLRU K V) (e : LRUEntry K V) : ListLRU K V where
  size := c.size
  ttl := c.ttl
  entries := c.front e
  nodup := by
    have hall : ((e :: c.others e.key).map LRUEntry.key).Nodup :=
      List.nodup_cons.mpr ⟨c.notMem_others e.key, c.nodup_others e.key⟩
    exact hall.sublist ((c.front_sublist e).map _)
  bounded := by
    intro hsize
    rw [front, if_pos hsize, List.length_take]
    omega

def add (c : ListLRU K V) (key : K) (value : V) (now : ℤ) : ListLRU K V :=
  c.pushFront ⟨key, value, now + c.ttl⟩

def get (c : ListLRU K V) (key : K) (now : ℤ) : ListLRU K V × Option V :=
  match c.entries.find? fun e => e.key = key with
  | none => (c, none)
  | some e => if e.expiresAt < now then (c, none) else (c.pushFront e, some e.value)

/-- The entries that pass a test. -/
def keep (c : ListLRU K V) (p : LRUEntry K V → Bool) : ListLRU K V where
  size := c.size
  ttl := c.ttl
  entries := c.entries.filter p
  nodup := c.nodup.sublist (List.filter_sublist.map _)
  bounded := by
    intro hsize
    have hle := c.bounded hsize
    have hfilter := List.length_filter_le p c.entries
    omega

variable (K V) in
/-- The list as a cache. -/
def lru : ExpirableLRU (ListLRU K V) K V where
  new := new
  add := add
  get := get
  remove c key := c.keep fun e => e.key ≠ key
  purge c := c.keep fun _ => false
  deleteExpired c now := c.keep fun e => now ≤ e.expiresAt
  ttl := ttl
  entries c := {e | e ∈ c.entries}

variable {c : ListLRU K V}

theorem mem_pushFront {e e' : LRUEntry K V} (h : e' ∈ (c.pushFront e).entries) :
    e' = e ∨ e' ∈ c.entries := by
  have hall := (c.front_sublist e).subset h
  rcases List.mem_cons.mp hall with heq | hother
  · exact .inl heq
  · exact .inr (List.mem_filter.mp hother).1

omit [DecidableEq K] in
theorem mem_keep {p : LRUEntry K V → Bool} {e : LRUEntry K V} (h : e ∈ (c.keep p).entries) :
    e ∈ c.entries := (List.mem_filter.mp h).1

theorem get_cases (c : ListLRU K V) (key : K) (now : ℤ) :
    ((c.get key now).2 = none ∧ (c.get key now).1 = c) ∨
      ∃ e ∈ c.entries, e.key = key ∧ now ≤ e.expiresAt ∧ (c.get key now).2 = some e.value ∧
        (c.get key now).1 = c.pushFront e := by
  unfold get
  cases hfind : c.entries.find? fun e => e.key = key with
  | none => exact .inl ⟨rfl, rfl⟩
  | some e =>
    simp only
    split_ifs with hexpired
    · exact .inl ⟨rfl, rfl⟩
    · have hmem := List.mem_of_find?_eq_some hfind
      have hkey : e.key = key := by
        have hfound := List.find?_some hfind
        exact of_decide_eq_true hfound
      exact .inr ⟨e, hmem, hkey, by omega, rfl, rfl⟩

theorem mem_get {key : K} {now : ℤ} {e : LRUEntry K V} (h : e ∈ (c.get key now).1.entries) :
    e ∈ c.entries := by
  rcases c.get_cases key now with ⟨-, heq⟩ | ⟨e', hmem, -, -, -, heq⟩
  · exact heq ▸ h
  · rw [heq] at h
    rcases mem_pushFront h with rfl | hold
    · exact hmem
    · exact hold

theorem ttl_get (c : ListLRU K V) (key : K) (now : ℤ) : (c.get key now).1.ttl = c.ttl := by
  rcases c.get_cases key now with ⟨-, heq⟩ | ⟨e, -, -, -, -, heq⟩
  · rw [heq]
  · rw [heq]
    rfl

theorem documented : (lru K V).Documented where
  ttl_new _ _ _ := rfl
  ttl_add _ _ _ _ := rfl
  ttl_get c key now := c.ttl_get key now
  ttl_remove _ _ := rfl
  ttl_purge _ := rfl
  ttl_deleteExpired _ _ := rfl
  entries_new _ _ := Set.eq_empty_of_forall_notMem fun _ he => List.not_mem_nil he
  entries_add _ _ _ _ _ he := mem_pushFront he
  entries_get _ _ _ _ he := mem_get he
  entries_remove _ _ _ he := mem_keep he
  entries_purge _ _ he := mem_keep he
  entries_deleteExpired _ _ _ he := mem_keep he
  get_entry c key now value hget := by
    have hget : (c.get key now).2 = some value := hget
    rcases c.get_cases key now with ⟨hnone, -⟩ | ⟨e, he, hkey, hlive, hsome, -⟩
    · cases hnone.symm.trans hget
    · exact ⟨e, he, hkey, Option.some.inj (hsome.symm.trans hget), hlive⟩

end ListLRU

end GoLib
