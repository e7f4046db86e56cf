import Konsul.Store.Errors
import Konsul.Lib.JsonValues
import Mathlib.Data.Set.Finite.List
import Mathlib.Logic.Relation
import Mathlib.Order.Bounds.Basic
import Mathlib.Order.WellFounded

/-!
# The limit on the depth of queries (internal/graphql/middleware/depth_limit.go)

`calculateDepth` follows fragments by name and would not return from one that spreads
itself; `fuel` bounds how far it follows them. What it computes is the length of the
longest chain of fields, introspection left out.
-/

namespace Konsul

open GoLib

namespace Graphql

/-- `ast.Selection`. -/
inductive Selection where
  | field (name : GoString) (selectionSet : List Selection)
  | fragmentSpread (name : GoString)
  | inlineFragment (selectionSet : List Selection)

/-- The fragments of a document. -/
abbrev Fragments := List (GoString × List Selection)

/-- `FragmentDefinitionList.ForName`, which the validator sets `Definition` to. -/
def Fragments.forName (doc : Fragments) (name : GoString) : Option (List Selection) :=
  (doc.find? fun f => f.1 = name).map Prod.snd

/-- The fields whose selections are skipped. -/
def skipped (name : GoString) : Prop :=
  name = str "__typename" ∨ name = str "__type" ∨ name = str "__schema"

instance (name : GoString) : Decidable (skipped name) := inferInstanceAs (Decidable (_ ∨ _ ∨ _))

mutual

/-- The body of the loop, for one selection: the depth that is compared with `maxDepth`.
`spread` is the call for the definition of a fragment. -/
def Selection.depth (spread : GoString → ℕ → Option ℕ) : Selection → ℕ → Option ℕ
  | .field name selectionSet, currentDepth =>
    if skipped name then some currentDepth
    else selectionsDepth spread selectionSet (currentDepth + 1) (currentDepth + 1)
  | .fragmentSpread name, currentDepth => spread name currentDepth
  | .inlineFragment selectionSet, currentDepth =>
    selectionsDepth spread selectionSet currentDepth currentDepth

/-- The loop over a selection set. -/
def selectionsDepth (spread : GoString → ℕ → Option ℕ) : List Selection → ℕ → ℕ → Option ℕ
  | [], _, maxDepth => some maxDepth
  | selection :: selectionSet, currentDepth, maxDepth =>
    match selection.depth spread currentDepth with
    | none => none
    | some depth =>
      selectionsDepth spread selectionSet currentDepth (if maxDepth < depth then depth else maxDepth)

end

def calculateDepth (doc : Fragments) : ℕ → List Selection → ℕ → Option ℕ
  | 0, _, _ => none
  | fuel + 1, selectionSet, currentDepth =>
    selectionsDepth (fun name currentDepth =>
      match doc.forName name with
      | none => some currentDepth
      | some definition => calculateDepth doc fuel definition currentDepth)
      selectionSet currentDepth currentDepth

def depthError (depth : ℕ) (maxDepth : ℤ) : GoString :=
  str "query depth " ++ Json.Codec.intText depth ++ str " exceeds maximum allowed depth of " ++
    Json.Codec.intText maxDepth

/-- `DepthLimit`: the message the operation is answered with, or nothing where it goes on. -/
def depthLimit (maxDepth : ℤ) (doc : Fragments) (fuel : ℕ) (selectionSet : List Selection) :
    Option (Option GoString) :=
  match calculateDepth doc fuel selectionSet 0 with
  | none => none
  | some depth =>
    if maxDepth < depth then some (some (depthError depth maxDepth)) else some none

/-! ### Chains of fields and spreads of fragments -/

/-- A chain of `n` fields, each in the selections of the one before. -/
inductive Chain (doc : Fragments) : List Selection → ℕ → Prop where
  | nil (ss : List Selection) : Chain doc ss 0
  | field {ss sub : List Selection} {name : GoString} {n : ℕ} (hmem : .field name sub ∈ ss)
    (hname : ¬ skipped name) (h : Chain doc sub n) : Chain doc ss (n + 1)
  | inlineFragment {ss sub : List Selection} {n : ℕ} (hmem : .inlineFragment sub ∈ ss)
    (h : Chain doc sub n) : Chain doc ss n
  | fragmentSpread {ss sub : List Selection} {name : GoString} {n : ℕ}
    (hmem : .fragmentSpread name ∈ ss) (hname : doc.forName name = some sub) (h : Chain doc sub n) :
    Chain doc ss n

/-- The selections spread the fragment of this name. -/
inductive Spreads : List Selection → GoString → Prop where
  | fragmentSpread {ss : List Selection} {name : GoString} (hmem : .fragmentSpread name ∈ ss) :
    Spreads ss name
  | field {ss sub : List Selection} {name frag : GoString} (hmem : .field name sub ∈ ss)
    (hname : ¬ skipped name) (h : Spreads sub frag) : Spreads ss frag
  | inlineFragment {ss sub : List Selection} {frag : GoString} (hmem : .inlineFragment sub ∈ ss)
    (h : Spreads sub frag) : Spreads ss frag

/-- `sub` is the definition of a fragment that `ss` spreads. -/
def Uses (doc : Fragments) (ss sub : List Selection) : Prop :=
  ∃ name, Spreads ss name ∧ doc.forName name = some sub

/-- No fragment that is used, directly or not, uses itself. -/
def Acyclic (doc : Fragments) (ss : List Selection) : Prop :=
  ∀ sub, Relation.TransGen (Uses doc) ss sub → ¬ Relation.TransGen (Uses doc) sub sub

theorem chain_cons_iff {doc : Fragments} {s : Selection} {ss : List Selection} {n : ℕ} :
    Chain doc (s :: ss) n ↔ Chain doc [s] n ∨ Chain doc ss n := by
  constructor
  · intro h
    cases h with
    | nil => exact Or.inl (.nil _)
    | field hmem hname h =>
      rcases List.mem_cons.mp hmem with hs | hss
      · exact Or.inl (.field (List.mem_singleton.mpr hs) hname h)
      · exact Or.inr (.field hss hname h)
    | inlineFragment hmem h =>
      rcases List.mem_cons.mp hmem with hs | hss
      · exact Or.inl (.inlineFragment (List.mem_singleton.mpr hs) h)
      · exact Or.inr (.inlineFragment hss h)
    | fragmentSpread hmem hname h =>
      rcases List.mem_cons.mp hmem with hs | hss
      · exact Or.inl (.fragmentSpread (List.mem_singleton.mpr hs) hname h)
      · exact Or.inr (.fragmentSpread hss hname h)
  · have hgrow {xs ys : List Selection} (hsub : xs ⊆ ys) (h : Chain doc xs n) : Chain doc ys n := by
      cases h with
      | nil => exact .nil _
      | field hmem hname h => exact .field (hsub hmem) hname h
      | inlineFragment hmem h => exact .inlineFragment (hsub hmem) h
      | fragmentSpread hmem hname h => exact .fragmentSpread (hsub hmem) hname h
    intro h
    rcases h with h | h
    · exact hgrow (by simp) h
    · exact hgrow (List.subset_cons_self s ss) h

/-! ### What a call returns -/

/-- `d` is how deep the chains of `ss` go, counted from `cur`. -/
def Deepest (doc : Fragments) (ss : List Selection) (cur d : ℕ) : Prop :=
  (∃ n, Chain doc ss n ∧ d = cur + n) ∧ ∀ n, Chain doc ss n → cur + n ≤ d

section Returned

variable {doc : Fragments} {spread : GoString → ℕ → Option ℕ}

theorem deepest_field {name : GoString} {sub : List Selection} {cur d : ℕ} (hname : ¬ skipped name)
    (h : Deepest doc sub (cur + 1) d) : Deepest doc [.field name sub] cur d := by
  obtain ⟨⟨n, hn, hd⟩, hmax⟩ := h
  constructor
  · exact ⟨n + 1, .field (List.mem_singleton.mpr rfl) hname hn, by omega⟩
  · intro k hk
    cases hk with
    | nil => omega
    | field hmem _ hk =>
      cases List.mem_singleton.mp hmem
      have hle := hmax _ hk
      omega
    | inlineFragment hmem _ => cases List.mem_singleton.mp hmem
    | fragmentSpread hmem _ _ => cases List.mem_singleton.mp hmem

theorem deepest_skipped {name : GoString} {sub : List Selection} {cur : ℕ} (hname : skipped name) :
    Deepest doc [.field name sub] cur cur := by
  constructor
  · exact ⟨0, .nil _, rfl⟩
  · intro k hk
    cases hk with
    | nil => omega
    | field hmem hnot _ =>
      cases List.mem_singleton.mp hmem
      exact absurd hname hnot
    | inlineFragment hmem _ => cases List.mem_singleton.mp hmem
    | fragmentSpread hmem _ _ => cases List.mem_singleton.mp hmem

theorem deepest_inlineFragment {sub : List Selection} {cur d : ℕ} (h : Deepest doc sub cur d) :
    Deepest doc [.inlineFragment sub] cur d := by
  obtain ⟨⟨n, hn, hd⟩, hmax⟩ := h
  constructor
  · exact ⟨n, .inlineFragment (List.mem_singleton.mpr rfl) hn, hd⟩
  · intro k hk
    cases hk with
    | nil => exact hmax 0 (.nil _)
    | field hmem _ _ => cases List.mem_singleton.mp hmem
    | inlineFragment hmem hk =>
      cases List.mem_singleton.mp hmem
      exact hmax k hk
    | fragmentSpread hmem _ _ => cases List.mem_singleton.mp hmem

theorem deepest_fragmentSpread {name : GoString} {sub : List Selection} {cur d : ℕ}
    (hname : doc.forName name = some sub) (h : Deepest doc sub cur d) :
    Deepest doc [.fragmentSpread name] cur d := by
  obtain ⟨⟨n, hn, hd⟩, hmax⟩ := h
  constructor
  · exact ⟨n, .fragmentSpread (List.mem_singleton.mpr rfl) hname hn, hd⟩
  · intro k hk
    cases hk with
    | nil => exact hmax 0 (.nil _)
    | field hmem _ _ => cases List.mem_singleton.mp hmem
    | inlineFragment hmem _ => cases List.mem_singleton.mp hmem
    | fragmentSpread hmem hname' hk =>
      cases List.mem_singleton.mp hmem
      rw [hname] at hname'
      cases hname'
      exact hmax k hk

/-- A spread that is not defined is passed over. -/
theorem deepest_undefined {name : GoString} {cur : ℕ} (hname : doc.forName name = none) :
    Deepest doc [.fragmentSpread name] cur cur := by
  constructor
  · exact ⟨0, .nil _, rfl⟩
  · intro k hk
    cases hk with
    | nil => omega
    | field hmem _ _ => cases List.mem_singleton.mp hmem
    | inlineFragment hmem _ => cases List.mem_singleton.mp hmem
    | fragmentSpread hmem hname' _ =>
      cases List.mem_singleton.mp hmem
      rw [hname] at hname'
      cases hname'

/-- The depth so far after one more selection. -/
theorem deepest_cons {s : Selection} {ss : List Selection} {cur m d e : ℕ} (hs : Deepest doc [s] cur d)
    (h : (if m < d then d else m) ≤ e ∧ (e = (if m < d then d else m) ∨ ∃ n, Chain doc ss n ∧ e = cur + n) ∧
      ∀ n, Chain doc ss n → cur + n ≤ e) :
    m ≤ e ∧ (e = m ∨ ∃ n, Chain doc (s :: ss) n ∧ e = cur + n) ∧
      ∀ n, Chain doc (s :: ss) n → cur + n ≤ e := by
  obtain ⟨hle, hval, hmax⟩ := h
  obtain ⟨⟨k, hk, hd⟩, hbound⟩ := hs
  have hm : m ≤ e ∧ d ≤ e := by
    split_ifs at hle <;> omega
  refine ⟨hm.1, ?_, fun n hn => ?_⟩
  · rcases hval with he | ⟨n, hn, he⟩
    · by_cases hlt : m < d
      · rw [if_pos hlt] at he
        exact Or.inr ⟨k, chain_cons_iff.mpr (Or.inl hk), by omega⟩
      · rw [if_neg hlt] at he
        exact Or.inl he
    · exact Or.inr ⟨n, chain_cons_iff.mpr (Or.inr hn), he⟩
  · rcases chain_cons_iff.mp hn with h1 | h2
    · exact (hbound n h1).trans hm.2
    · exact hmax n h2

mutual

theorem depth_deepest (hspread : ∀ name cur d, spread name cur = some d →
    Deepest doc [.fragmentSpread name] cur d) :
    (s : Selection) → (cur d : ℕ) → s.depth spread cur = some d → Deepest doc [s] cur d
  | .field name sub, cur, d, h => by
    rw [Selection.depth] at h
    split_ifs at h with hname
    · cases h
      exact deepest_skipped hname
    · obtain ⟨hle, hval, hmax⟩ := selectionsDepth_spec hspread sub (cur + 1) (cur + 1) d le_rfl h
      refine deepest_field hname ⟨?_, hmax⟩
      exact hval.elim (fun hd => ⟨0, .nil _, hd⟩) id
  | .fragmentSpread name, cur, d, h => by
    rw [Selection.depth] at h
    exact hspread name cur d h
  | .inlineFragment sub, cur, d, h => by
    rw [Selection.depth] at h
    obtain ⟨hle, hval, hmax⟩ := selectionsDepth_spec hspread sub cur cur d le_rfl h
    refine deepest_inlineFragment ⟨?_, hmax⟩
    exact hval.elim (fun hd => ⟨0, .nil _, hd⟩) id

theorem selectionsDepth_spec (hspread : ∀ name cur d, spread name cur = some d →
    Deepest doc [.fragmentSpread name] cur d) :
    (ss : List Selection) → (cur m d : ℕ) → cur ≤ m → selectionsDepth spread ss cur m = some d →
      m ≤ d ∧ (d = m ∨ ∃ n, Chain doc ss n ∧ d = cur + n) ∧ ∀ n, Chain doc ss n → cur + n ≤ d
  | [], cur, m, d, hle, h => by
    rw [selectionsDepth] at h
    cases h
    refine ⟨le_rfl, Or.inl rfl, fun n hn => ?_⟩
    cases hn with
    | nil => omega
    | field hmem _ _ => exact absurd hmem List.not_mem_nil
    | inlineFragment hmem _ => exact absurd hmem List.not_mem_nil
    | fragmentSpread hmem _ _ => exact absurd hmem List.not_mem_nil
  | s :: ss, cur, m, d, hle, h => by
    rw [selectionsDepth] at h
    cases hs : s.depth spread cur with
    | none => rw [hs] at h; cases h
    | some e =>
      rw [hs] at h
      exact deepest_cons (depth_deepest hspread s cur e hs)
        (selectionsDepth_spec hspread ss cur _ d (by split_ifs <;> omega) h)

end

end Returned

/-! ### When a call returns -/

theorem Spreads.of_subset {ss ts : List Selection} (hsub : ss ⊆ ts) {name : GoString}
    (h : Spreads ss name) : Spreads ts name := by
  cases h with
  | fragmentSpread hmem => exact .fragmentSpread (hsub hmem)
  | field hmem hname h => exact .field (hsub hmem) hname h
  | inlineFragment hmem h => exact .inlineFragment (hsub hmem) h

section Returns

variable {spread : GoString → ℕ → Option ℕ}

theorem depth_of_mem {ss : List Selection} {cur m : ℕ} (h : (selectionsDepth spread ss cur m).isSome)
    {s : Selection} (hs : s ∈ ss) : (s.depth spread cur).isSome := by
  induction ss generalizing m with
  | nil => exact absurd hs List.not_mem_nil
  | cons t ss ih =>
    rw [selectionsDepth] at h
    cases ht : t.depth spread cur with
    | none =>
      rw [ht] at h
      cases h
    | some d =>
      rw [ht] at h
      rcases List.mem_cons.mp hs with rfl | hmem
      · rw [ht]
        rfl
      · exact ih h hmem

/-- A loop that returned had a result for every fragment it met. -/
theorem spread_returned {ss : List Selection} {name : GoString} (hspreads : Spreads ss name) {cur m : ℕ}
    (h : (selectionsDepth spread ss cur m).isSome) : ∃ c, (spread name c).isSome := by
  induction hspreads generalizing cur m with
  | fragmentSpread hmem =>
    have hdepth := depth_of_mem h hmem
    rw [Selection.depth] at hdepth
    exact ⟨cur, hdepth⟩
  | field hmem hname _ ih =>
    have hdepth := depth_of_mem h hmem
    rw [Selection.depth, if_neg hname] at hdepth
    exact ih hdepth
  | inlineFragment hmem _ ih =>
    have hdepth := depth_of_mem h hmem
    rw [Selection.depth] at hdepth
    exact ih hdepth

mutual

theorem depth_returns : (s : Selection) → (cur : ℕ) →
    (∀ name, Spreads [s] name → ∀ c, (spread name c).isSome) → (s.depth spread cur).isSome
  | .field name sub, cur, h => by
    rw [Selection.depth]
    split_ifs with hname
    · rfl
    · exact selectionsDepth_returns sub _ _ fun frag hfrag =>
        h frag (.field (List.mem_singleton.mpr rfl) hname hfrag)
  | .fragmentSpread name, cur, h => by
    rw [Selection.depth]
    exact h name (.fragmentSpread (List.mem_singleton.mpr rfl)) cur
  | .inlineFragment sub, cur, h => by
    rw [Selection.depth]
    exact selectionsDepth_returns sub _ _ fun frag hfrag =>
      h frag (.inlineFragment (List.mem_singleton.mpr rfl) hfrag)

theorem selectionsDepth_returns : (ss : List Selection) → (cur m : ℕ) →
    (∀ name, Spreads ss name → ∀ c, (spread name c).isSome) → (selectionsDepth spread ss cur m).isSome
  | [], cur, m, _ => by
    rw [selectionsDepth]
    rfl
  | s :: ss, cur, m, h => by
    have hs := depth_returns s cur fun name hname => h name (hname.of_subset (by simp))
    obtain ⟨d, hd⟩ := Option.isSome_iff_exists.mp hs
    rw [selectionsDepth, hd]
    exact selectionsDepth_returns ss _ _ fun name hname =>
      h name (hname.of_subset (List.subset_cons_self s ss))

end

end Returns

section Fuel

variable {doc : Fragments}

theorem used_returned {fuel : ℕ} {ss : List Selection} {cur : ℕ}
    (h : (calculateDepth doc (fuel + 1) ss cur).isSome) {sub : List Selection} (huses : Uses doc ss sub) :
    ∃ c, (calculateDepth doc fuel sub c).isSome := by
  obtain ⟨name, hspreads, hname⟩ := huses
  obtain ⟨c, hc⟩ := spread_returned hspreads h
  rw [hname] at hc
  exact ⟨c, hc⟩

theorem returns_of_used {fuel : ℕ} {ss : List Selection}
    (h : ∀ sub, Uses doc ss sub → ∀ c, (calculateDepth doc fuel sub c).isSome) (cur : ℕ) :
    (calculateDepth doc (fuel + 1) ss cur).isSome := by
  rw [calculateDepth]
  refine selectionsDepth_returns ss cur cur fun name hspreads c => ?_
  cases hname : doc.forName name with
  | none => rfl
  | some sub => exact h sub ⟨name, hspreads, hname⟩ c

/-- More fuel never takes a result away, and where one call returns all of them do. -/
theorem returns_mono {fuel fuel' : ℕ} (hfuel : fuel ≤ fuel') {ss : List Selection} {c : ℕ}
    (h : (calculateDepth doc fuel ss c).isSome) (cur : ℕ) : (calculateDepth doc fuel' ss cur).isSome := by
  induction fuel generalizing fuel' ss c cur with
  | zero =>
    rw [calculateDepth] at h
    cases h
  | succ fuel ih =>
    obtain ⟨k, rfl⟩ : ∃ k, fuel' = k + 1 := ⟨fuel' - 1, by omega⟩
    refine returns_of_used (fun sub huses c' => ?_) cur
    obtain ⟨c'', hc⟩ := used_returned h huses
    exact ih (by omega) hc c'

theorem finite_used (ss : List Selection) : {sub | Uses doc ss sub}.Finite := by
  refine (List.finite_toSet (doc.map Prod.snd)).subset fun sub huses => ?_
  obtain ⟨name, -, hname⟩ := huses
  obtain ⟨f, hf, rfl⟩ := Option.map_eq_some_iff.mp hname
  exact List.mem_map_of_mem (List.mem_of_find?_eq_some hf)

theorem acc_of_returned {fuel : ℕ} {ss : List Selection} {cur : ℕ}
    (h : (calculateDepth doc fuel ss cur).isSome) : Acc (fun sub ss => Uses doc ss sub) ss := by
  induction fuel generalizing ss cur with
  | zero =>
    rw [calculateDepth] at h
    cases h
  | succ fuel ih =>
    constructor
    intro sub huses
    obtain ⟨c, hc⟩ := used_returned h huses
    exact ih hc

theorem returns_of_acc {ss : List Selection} (h : Acc (fun sub ss => Uses doc ss sub) ss) :
    ∃ fuel, ∀ cur, (calculateDepth doc fuel ss cur).isSome := by
  induction h with
  | intro ss _ ih =>
    choose! fuel hfuel using ih
    -- only finitely many definitions are used, so one bound is enough for all of them
    obtain ⟨bound, hbound⟩ := ((finite_used ss).image fuel).bddAbove
    refine ⟨bound + 1, returns_of_used fun sub huses c => ?_⟩
    exact returns_mono (hbound (Set.mem_image_of_mem fuel huses)) (hfuel sub huses 0) c

end Fuel

/-- Where finitely much is reachable and nothing reachable reaches itself, every path ends. -/
theorem acc_of_acyclic {α : Type*} {r : α → α → Prop} {a : α}
    (hfinite : {b | Relation.TransGen r a b}.Finite)
    (h : ∀ b, Relation.TransGen r a b → ¬ Relation.TransGen r b b) : Acc (fun y x => r x y) a := by
  let reached := {b // Relation.TransGen r a b}
  let later (y x : reached) : Prop := Relation.TransGen r x.1 y.1
  have : Finite reached := hfinite
  have : IsTrans reached later := ⟨fun x y z hxy hyz => hyz.trans hxy⟩
  have : Std.Irrefl later := ⟨fun x => h x.1 x.2⟩
  have hwf : WellFounded later := Finite.wellFounded_of_trans_of_irrefl later
  have hreached (b : reached) : Acc (fun y x => r x y) b.1 := by
    induction b using hwf.induction with
    | _ b ih =>
      constructor
      intro c hc
      exact ih ⟨c, b.2.tail hc⟩ (.single hc)
  constructor
  intro b hb
  exact hreached ⟨b, .single hb⟩

theorem acyclic_iff_acc {doc : Fragments} {ss : List Selection} :
    Acyclic doc ss ↔ Acc (fun sub ss => Uses doc ss sub) ss := by
  constructor
  · refine acc_of_acyclic ((List.finite_toSet (doc.map Prod.snd)).subset fun sub hreach => ?_)
    obtain ⟨_, -, name, -, hname⟩ := Relation.TransGen.tail'_iff.mp hreach
    obtain ⟨f, hf, rfl⟩ := Option.map_eq_some_iff.mp hname
    exact List.mem_map_of_mem (List.mem_of_find?_eq_some hf)
  · intro h sub hreach hcycle
    have hacc : Acc (Relation.TransGen fun sub ss => Uses doc ss sub) sub :=
      (Acc.inv h.transGen (Relation.transGen_swap.mpr hreach))
    have hcycle' := Relation.transGen_swap.mpr hcycle
    induction hacc with
    | intro x _ ih => exact ih x hcycle' (hreach.trans hcycle) hcycle hcycle'

theorem calculateDepth_deepest {doc : Fragments} {fuel : ℕ} {ss : List Selection} {cur d : ℕ}
    (h : calculateDepth doc fuel ss cur = some d) : Deepest doc ss cur d := by
  induction fuel generalizing ss cur d with
  | zero =>
    rw [calculateDepth] at h
    cases h
  | succ fuel ih =>
    rw [calculateDepth] at h
    have hspread : ∀ name cur d, (match doc.forName name with
        | none => some cur
        | some definition => calculateDepth doc fuel definition cur) = some d →
        Deepest doc [.fragmentSpread name] cur d := by
      intro name cur d hd
      cases hname : doc.forName name with
      | none =>
        simp only [hname, Option.some.injEq] at hd
        exact hd ▸ deepest_undefined hname
      | some sub =>
        simp only [hname] at hd
        exact deepest_fragmentSpread hname (ih hd)
    obtain ⟨hle, hval, hmax⟩ := selectionsDepth_spec hspread ss cur cur d le_rfl h
    exact ⟨hval.elim (fun hd => ⟨0, .nil _, hd⟩) id, hmax⟩

theorem Deepest.isGreatest {doc : Fragments} {ss : List Selection} {d : ℕ} (h : Deepest doc ss 0 d) :
    IsGreatest {n | Chain doc ss n} d := by
  obtain ⟨⟨n, hn, hd⟩, hmax⟩ := h
  have hdn : d = n := by omega
  constructor
  · exact hdn ▸ hn
  · intro k hk
    have hle := hmax k hk
    omega

/-- The call returns just where no fragment that is used leads back to itself. -/
theorem calculateDepth_returns_iff {doc : Fragments} {ss : List Selection} :
    (∃ fuel, (calculateDepth doc fuel ss 0).isSome) ↔ Acyclic doc ss := by
  rw [acyclic_iff_acc]
  constructor
  · intro h
    obtain ⟨fuel, hreturned⟩ := h
    exact acc_of_returned hreturned
  · intro h
    obtain ⟨fuel, hreturns⟩ := returns_of_acc h
    exact ⟨fuel, hreturns 0⟩

/-- Some depth is computed just where the fragments have no cycle, and it is the length of the
longest chain. -/
theorem calculateDepth_iff {doc : Fragments} {ss : List Selection} {d : ℕ} :
    (∃ fuel, calculateDepth doc fuel ss 0 = some d) ↔ Acyclic doc ss ∧ IsGreatest {n | Chain doc ss n} d := by
  constructor
  · intro h
    obtain ⟨fuel, hd⟩ := h
    constructor
    · exact calculateDepth_returns_iff.mp ⟨fuel, Option.isSome_iff_exists.mpr ⟨d, hd⟩⟩
    · exact (calculateDepth_deepest hd).isGreatest
  · intro h
    obtain ⟨fuel, hreturned⟩ := calculateDepth_returns_iff.mpr h.1
    obtain ⟨e, he⟩ := Option.isSome_iff_exists.mp hreturned
    have hsame := (calculateDepth_deepest he).isGreatest.unique h.2
    exact ⟨fuel, hsame ▸ he⟩

/-- Where no fragment in use leads back to itself, and only there, the depth is computed; an
operation then goes on just where no chain of its fields is longer than the limit, and is answered
with the longest one otherwise. -/
theorem limit_exact (maxDepth : ℤ) (doc : Fragments) (ss : List Selection) :
    ((∃ fuel, (calculateDepth doc fuel ss 0).isSome) ↔ Acyclic doc ss) ∧
    ((∃ fuel, depthLimit maxDepth doc fuel ss = some none) ↔
      Acyclic doc ss ∧ ∀ n, Chain doc ss n → (n : ℤ) ≤ maxDepth) ∧
    ∀ message, (∃ fuel, depthLimit maxDepth doc fuel ss = some (some message)) ↔
      Acyclic doc ss ∧ ∃ d, IsGreatest {n | Chain doc ss n} d ∧ maxDepth < d ∧
        message = depthError d maxDepth := by
  have hanswer (answer : Option GoString) (fuel : ℕ) : depthLimit maxDepth doc fuel ss = some answer ↔
      ∃ d, calculateDepth doc fuel ss 0 = some d ∧
        (if maxDepth < d then some (depthError d maxDepth) else none) = answer := by
    unfold depthLimit
    cases calculateDepth doc fuel ss 0 with
    | none => simp
    | some d =>
      simp only [Option.some.injEq, exists_eq_left']
      split_ifs <;> simp
  refine ⟨calculateDepth_returns_iff, ?_, ?_⟩
  · constructor
    · intro h
      obtain ⟨fuel, hfuel⟩ := h
      obtain ⟨d, hd, hle⟩ := (hanswer none fuel).mp hfuel
      obtain ⟨hacyclic, hgreatest⟩ := calculateDepth_iff.mp ⟨fuel, hd⟩
      refine ⟨hacyclic, fun n hn => ?_⟩
      have hnd : n ≤ d := hgreatest.2 hn
      by_contra hlong
      rw [if_pos (by omega)] at hle
      cases hle
    · intro h
      obtain ⟨hacyclic, hall⟩ := h
      obtain ⟨fuel, hreturned⟩ := calculateDepth_returns_iff.mpr hacyclic
      obtain ⟨d, hd⟩ := Option.isSome_iff_exists.mp hreturned
      have hle := hall d (calculateDepth_deepest hd).isGreatest.1
      exact ⟨fuel, (hanswer none fuel).mpr ⟨d, hd, if_neg (by omega)⟩⟩
  · intro message
    constructor
    · intro h
      obtain ⟨fuel, hfuel⟩ := h
      obtain ⟨d, hd, htext⟩ := (hanswer (some message) fuel).mp hfuel
      obtain ⟨hacyclic, hgreatest⟩ := calculateDepth_iff.mp ⟨fuel, hd⟩
      by_cases hlong : maxDepth < d
      · rw [if_pos hlong] at htext
        exact ⟨hacyclic, d, hgreatest, hlong, (Option.some.inj htext).symm⟩
      · rw [if_neg hlong] at htext
        cases htext
    · intro h
      obtain ⟨hacyclic, d, hgreatest, hlong, rfl⟩ := h
      obtain ⟨fuel, hd⟩ := calculateDepth_iff.mpr ⟨hacyclic, hgreatest⟩
      exact ⟨fuel, (hanswer _ fuel).mpr ⟨d, hd, if_pos hlong⟩⟩

/-- Selections under `__schema` do not count, and a fragment counts where it is spread. -/
example : depthLimit 1 [(str "port", [.field (str "port") []])] 2
    [.field (str "__schema") [.field (str "types") [.field (str "name") []]],
      .field (str "services") [.fragmentSpread (str "port")]] =
    some (some (str "query depth 2 exceeds maximum allowed depth of 1")) := by
  decide +kernel

end Graphql

end Konsul
