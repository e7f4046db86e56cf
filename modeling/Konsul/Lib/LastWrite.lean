import Mathlib.Data.List.Basic

/-!
# Last write wins

A sequence of writes, each to several keys at once, leaves under a key what its
last write put there. `settle_insert` is the rule for a write that arrives late:
it may be inserted where it belongs if nothing after it wrote one of its keys.
-/

namespace GoLib

variable {K V : Type} [DecidableEq K]

/-- A write to the keys of a list. -/
structure Write (K V : Type) where
  keys : List K
  value : K → V

namespace Write

def apply (w : Write K V) (k : K) (v : V) : V := if k ∈ w.keys then w.value k else v

/-- What the writes leave under `k`, from `base`. -/
def settle (base : V) (k : K) (ws : List (Write K V)) : V := ws.foldl (fun v w => w.apply k v) base

theorem settle_cons (base : V) (k : K) (w : Write K V) (ws : List (Write K V)) :
    settle base k (w :: ws) = settle (w.apply k base) k ws := rfl

theorem settle_append (base : V) (k : K) (ws ws' : List (Write K V)) :
    settle base k (ws ++ ws') = settle (settle base k ws) k ws' := List.foldl_append

theorem settle_snoc (base : V) (k : K) (ws : List (Write K V)) (w : Write K V) :
    settle base k (ws ++ [w]) = w.apply k (settle base k ws) := settle_append ..

theorem settle_of_notMem {k : K} {ws : List (Write K V)} (h : ∀ w ∈ ws, k ∉ w.keys) (base : V) :
    settle base k ws = base := by
  induction ws generalizing base with
  | nil => rfl
  | cons w ws ih =>
    rw [settle_cons, apply, if_neg (h w (List.mem_cons_self ..))]
    exact ih (fun w' hw' => h w' (List.mem_cons_of_mem _ hw')) base

theorem settle_insert (base : V) (k : K) (ws ws' : List (Write K V)) (w : Write K V)
    (h : ∀ w' ∈ ws', ∀ k ∈ w.keys, k ∉ w'.keys) :
    settle base k (ws ++ w :: ws') = w.apply k (settle base k (ws ++ ws')) := by
  rw [settle_append, settle_cons, settle_append]
  by_cases hk : k ∈ w.keys
  · rw [apply, apply, if_pos hk, if_pos hk]
    exact settle_of_notMem (fun w' hw' => h w' hw' k hk) _
  · rw [apply, apply, if_neg hk, if_neg hk]

end Write

end GoLib
