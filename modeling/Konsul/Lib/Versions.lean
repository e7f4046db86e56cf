import Konsul.Lib.Machine
import Mathlib.Data.List.Induction
import Mathlib.Order.Nat

/-!
# Records under versions of a counter

A store keeps records under keys, and each record carries a version taken from a
counter. `Advance` is what a step may do: leave the keys it does not write
alone, and put a record on the others only under a version newer than the
counter. A record that was written is then the only one its version names
(`Identifies`), however the store goes on. Over a run of a machine whose steps
advance, a version that is gone stays gone, and what is stored was written by one
of the steps and left alone since.
-/

namespace GoLib

structure Versions (S K V : Type*) where
  stored : S → K → Option V
  version : V → ℕ
  /-- The newest version given to a record of the key. -/
  counter : S → K → ℕ

namespace Versions

variable {S K V : Type*} (M : Versions S K V)

structure Advance (s s' : S) (written : List K) : Prop where
  frame : ∀ k, k ∉ written → M.stored s' k = M.stored s k
  le : ∀ k, M.counter s k ≤ M.counter s' k
  fresh : ∀ k v, k ∈ written → M.stored s' k = some v →
    M.counter s k < M.version v ∧ M.version v ≤ M.counter s' k

/-- The version belongs to `v`: it has been given out, and no other record of
the key carries it. -/
structure Identifies (s : S) (k : K) (v : V) : Prop where
  given : M.version v ≤ M.counter s k
  pos : 0 < M.version v
  only : ∀ v', M.stored s k = some v' → M.version v' = M.version v → v' = v

variable {M} {s s' : S} {k : K} {v : V} {written : List K}

theorem Advance.refl : M.Advance s s [] :=
  ⟨fun _ _ => rfl, fun _ => le_rfl, fun _ _ hk => absurd hk List.not_mem_nil⟩

theorem Advance.identifies (h : M.Advance s s' written) (hk : k ∈ written)
    (hv : M.stored s' k = some v) : M.Identifies s' k v := by
  obtain ⟨hlt, hle⟩ := h.fresh k v hk hv
  refine ⟨hle, by omega, fun v' hv' _ => ?_⟩
  exact Option.some.inj (hv'.symm.trans hv)

theorem Identifies.advance (h : M.Identifies s k v) (hs : M.Advance s s' written) :
    M.Identifies s' k v := by
  refine ⟨h.given.trans (hs.le k), h.pos, fun v' hv' heq => ?_⟩
  by_cases hk : k ∈ written
  · -- a record written now has a version newer than all given before
    have hnew := (hs.fresh k v' hk hv').1
    have hold := h.given
    omega
  · exact h.only v' ((hs.frame k hk).symm.trans hv') heq

/-- The records of a larger store seen through a map, under renamed keys. -/
def comap {S' K' : Type*} (view : S' → S) (key : K' → K) : Versions S' K' V where
  stored s k := M.stored (view s) (key k)
  version := M.version
  counter s k := M.counter (view s) (key k)

theorem Advance.comap {S' K' : Type*} {view : S' → S} {key : K' → K}
    (hkey : Function.Injective key) {s s' : S'} {written : List K'}
    (h : M.Advance (view s) (view s') (written.map key)) :
    (M.comap view key).Advance s s' written :=
  ⟨fun k hk => h.frame (key k) fun hmem => hk ((List.mem_map_of_injective hkey).mp hmem),
    fun k => h.le (key k),
    fun k v hk hv => h.fresh (key k) v (List.mem_map_of_mem hk) hv⟩

/-! ### Runs of a machine whose steps advance -/

section

variable {I O : Type*} {T : Machine S I O} {P : S → I → Prop} {writes : S → I → List K}

theorem version_ne_run (hstep : ∀ s i, P s i → M.Advance s (T.step s i).1 (writes s i)) {s : S}
    {is : List I} (h : T.Along P s is) {k : K} {n : ℕ} (hgiven : n ≤ M.counter s k)
    (hgone : ∀ v, M.stored s k = some v → M.version v ≠ n) :
    ∀ v, M.stored (T.run s is).1 k = some v → M.version v ≠ n := by
  induction is generalizing s with
  | nil => exact hgone
  | cons i is ih =>
    have hi := hstep s i h.1
    refine ih h.2 (hgiven.trans (hi.le k)) fun v hv => ?_
    by_cases hk : k ∈ writes s i
    · have hnew := (hi.fresh k v hk hv).1
      omega
    · exact hgone v ((hi.frame k hk).symm.trans hv)

/-- What is stored after a run that began without it was written by a step of the
run, and no later step wrote its key. -/
theorem exists_write (hstep : ∀ s i, P s i → M.Advance s (T.step s i).1 (writes s i)) {s : S}
    (hs : ∀ k, M.stored s k = none) {is : List I} (h : T.Along P s is) {k : K} {v : V}
    (hv : M.stored (T.run s is).1 k = some v) :
    ∃ before i after, is = before ++ i :: after ∧ k ∈ writes (T.run s before).1 i ∧
      M.stored (T.run s (before ++ [i])).1 k = some v ∧
      T.Along (fun s i => k ∉ writes s i) (T.run s (before ++ [i])).1 after := by
  induction is using List.reverseRecOn with
  | nil =>
    rw [Machine.run_nil, hs k] at hv
    cases hv
  | append_singleton is i ih =>
    rw [Machine.along_append] at h
    by_cases hk : k ∈ writes (T.run s is).1 i
    · exact ⟨is, i, [], rfl, hk, hv, trivial⟩
    · have hi := hstep _ i h.2.1
      rw [Machine.run_snoc, hi.frame k hk] at hv
      obtain ⟨before, j, after, rfl, hj, hvj, halong⟩ := ih h.1 hv
      refine ⟨before, j, after ++ [i], by simp, hj, hvj, ?_⟩
      have hrun : (T.run (T.run s (before ++ [j])).1 after).1 =
          (T.run s (before ++ j :: after)).1 := by
        have hsplit : before ++ j :: after = (before ++ [j]) ++ after := by simp
        rw [hsplit, Machine.run_append T s (before ++ [j])]
      rw [Machine.along_append, hrun]
      exact ⟨halong, hk, trivial⟩

end

end Versions

end GoLib
