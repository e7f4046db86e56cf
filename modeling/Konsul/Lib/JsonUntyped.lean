import Konsul.Lib.Float64
import Konsul.Lib.JsonValues

/-!
# Untyped JSON values

What `json.Unmarshal` makes of a document for an `interface{}`: an object is a map, so
that the last of several members of one name is kept, and a number is a `float64`. A
value stays a tree of `Json` here, which `asMap` and `asString` look into as a type
assertion does, and `written` is how `json.Marshal` prints it.
-/

namespace GoLib.Json

/-- The map an object is read into. -/
def toMap (ms : List (Bytes × Json)) : GoMap Bytes Json :=
  ms.foldl (fun m p => m.insert p.1 p.2) ∅

mutual

/-- Every number is in the range of `float64`. -/
def inRange : Json → Bool
  | .num lit => (Float64.reread lit).isSome
  | .arr items => inRangeItems items
  | .obj ms => inRangeMembers ms
  | _ => true

def inRangeItems : List Json → Bool
  | [] => true
  | j :: js => inRange j && inRangeItems js

def inRangeMembers : List (Bytes × Json) → Bool
  | [] => true
  | (_, j) :: ms => inRange j && inRangeMembers ms

end

mutual

/-- The value as it is written again: one member of each name, in order, and the text of
the `float64` for a number. -/
def written : Json → Json
  | .num lit => .num ((Float64.reread lit).getD lit)
  | .arr items => .arr (writtenItems items)
  | .obj ms => .obj ((GoMap.sorted (toMap (writtenMembers ms))).list.map fun e => (e.1, e.2))
  | j => j

def writtenItems : List Json → List Json
  | [] => []
  | j :: js => written j :: writtenItems js

def writtenMembers : List (Bytes × Json) → List (Bytes × Json)
  | [] => []
  | (k, j) :: ms => (k, written j) :: writtenMembers ms

end

/-- `v.(map[string]interface{})`. -/
def asMap : Json → Option (GoMap Bytes Json)
  | .obj ms => some (toMap ms)
  | _ => none

/-- `v.(string)`. -/
def asString : Json → Option Bytes
  | .str s => some s
  | _ => none

/-- `json.Unmarshal` into a `map[string]interface{}`. -/
def unmarshalMap (data : Bytes) : Option (GoMap Bytes Json) := do
  match ← parse data with
  | .obj ms => if inRangeMembers ms then some (toMap ms) else none
  | .null => some ∅
  | _ => none

/-! ### Maps of texts -/

theorem toMap_cleanMembers {V : Type} (f : V → Bytes) (l : List (Σ _ : Bytes, V)) :
    toMap (cleanMembers (l.map fun e => (e.1, .str (f e.2)))) =
      l.foldl (fun m e => m.insert (jsonString e.1) (.str (jsonString (f e.2)))) ∅ := by
  have hfold (acc : GoMap Bytes Json) :
      (cleanMembers (l.map fun e => (e.1, .str (f e.2)))).foldl (fun m p => m.insert p.1 p.2) acc =
        l.foldl (fun m e => m.insert (jsonString e.1) (.str (jsonString (f e.2)))) acc := by
    induction l generalizing acc with
    | nil => rfl
    | cons e l ih =>
      rw [List.map_cons, cleanMembers, List.foldl_cons, List.foldl_cons]
      exact ih _
  exact hfold ∅

theorem inRange_strings {V : Type} (f : V → Bytes) (l : List (Σ _ : Bytes, V)) :
    inRangeMembers (cleanMembers (l.map fun e => (e.1, .str (f e.2)))) = true := by
  induction l with
  | nil => rfl
  | cons e l ih => exact ih

end GoLib.Json
