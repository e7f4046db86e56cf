import Konsul.Lib.GoMap
import Konsul.Lib.Utf8

/-!
# Strings and maps through JSON text

What `json.Unmarshal` reads from what `json.Marshal` wrote: a string comes back
with its stray bytes replaced; the members of a map are written in the order of
its keys, and of members that come back with one name the last is kept. Valid
text comes back as it was.
-/

namespace GoLib

abbrev jsonString (s : Bytes) : Bytes := Utf8.toValid s

theorem map_jsonString_of_valid {l : List Bytes} (h : ∀ s ∈ l, Utf8.valid s) :
    l.map jsonString = l := by
  have hid : l.map jsonString = l.map id :=
    List.map_congr_left fun s hs => Utf8.toValid_of_valid (h s hs)
  rw [hid, List.map_id]

variable {V W : Type}

def jsonMap (f : V → W) (m : GoMap Bytes V) : GoMap Bytes W :=
  (GoMap.sorted m).list.foldl (fun acc e => acc.insert (jsonString e.1) (f e.2)) ∅

/-- Every key of the map is valid, and every value is as `p` says. -/
def ValidMap (p : V → Prop) (m : GoMap Bytes V) : Prop :=
  ∀ key value, m.lookup key = some value → Utf8.valid key ∧ p value

theorem ValidMap.empty (p : V → Prop) : ValidMap p (∅ : GoMap Bytes V) := fun _ _ h => nomatch h

theorem ValidMap.insert {p : V → Prop} {m : GoMap Bytes V} (hm : ValidMap p m) {key : Bytes}
    {value : V} (hkey : Utf8.valid key) (hvalue : p value) : ValidMap p (m.insert key value) := by
  intro k v h
  rw [GoMap.lookup_insert_ite] at h
  split_ifs at h with hk
  · cases h
    exact ⟨hk ▸ hkey, hvalue⟩
  · exact hm k v h

theorem ValidMap.erase {p : V → Prop} {m : GoMap Bytes V} (hm : ValidMap p m) (key : Bytes) :
    ValidMap p (m.erase key) := by
  intro k v h
  rw [GoMap.lookup_erase_ite] at h
  split_ifs at h
  exact hm k v h

theorem ValidMap.eraseAll {p : V → Prop} {m : GoMap Bytes V} (hm : ValidMap p m)
    (keys : List Bytes) : ValidMap p (m.eraseAll keys) := by
  intro k v h
  rw [GoMap.lookup_eraseAll] at h
  split_ifs at h
  exact hm k v h

theorem lookup_foldl_insert (f : V → W) {l : List (Σ _ : Bytes, V)}
    (hl : (l.map Sigma.fst).Nodup) (hvalid : ∀ e ∈ l, Utf8.valid e.1) (acc : GoMap Bytes W) :
    (∀ e ∈ l, (l.foldl (fun acc e => acc.insert (jsonString e.1) (f e.2)) acc).lookup e.1 =
      some (f e.2)) ∧
    ∀ k ∉ l.map Sigma.fst,
      (l.foldl (fun acc e => acc.insert (jsonString e.1) (f e.2)) acc).lookup k = acc.lookup k := by
  induction l using List.reverseRecOn with
  | nil => exact ⟨fun e he => absurd he List.not_mem_nil, fun _ _ => rfl⟩
  | append_singleton l e ih =>
    rw [List.map_append, List.map_singleton, List.nodup_append] at hl
    obtain ⟨hl, -, hdisj⟩ := hl
    obtain ⟨hin, hout⟩ := ih hl fun q hq => hvalid q (List.mem_append_left _ hq)
    have hkey : jsonString e.1 = e.1 :=
      Utf8.toValid_of_valid (hvalid e (List.mem_append_right _ (List.mem_singleton_self _)))
    simp only [List.foldl_append, List.foldl_cons, List.foldl_nil, hkey, GoMap.lookup_insert_ite,
      List.map_append, List.map_singleton, List.mem_append, List.mem_singleton, not_or]
    refine ⟨fun q hq => ?_, fun k hk => ?_⟩
    · rcases hq with hq | rfl
      · rw [if_neg (hdisj _ (List.mem_map_of_mem hq) _ (List.mem_singleton_self _)), hin q hq]
      · rw [if_pos rfl]
    · rw [if_neg hk.2, hout k hk.1]

theorem mem_jsonMap (f : V → W) {m : GoMap Bytes V} {key : Bytes} (h : key ∈ m) :
    jsonString key ∈ jsonMap f m := by
  have hfold (l : List (Σ _ : Bytes, V)) (acc : GoMap Bytes W)
      (hl : key ∈ l.map Sigma.fst ∨ jsonString key ∈ acc) :
      jsonString key ∈ l.foldl (fun acc e => acc.insert (jsonString e.1) (f e.2)) acc := by
    induction l generalizing acc with
    | nil => exact hl.resolve_left List.not_mem_nil
    | cons e l ih =>
      refine ih _ ?_
      rcases hl with hl | hl
      · rcases List.mem_cons.mp hl with rfl | hl
        · exact Or.inr (Finmap.mem_insert.mpr (Or.inl rfl))
        · exact Or.inl hl
      · exact Or.inr (Finmap.mem_insert.mpr (Or.inr hl))
  exact hfold _ _ (Or.inl (((GoMap.sorted m).mem_keys_iff key).mpr h))

theorem lookup_jsonMap_comp {U : Type} (f : V → W) (g : W → U) (m : GoMap Bytes V) (key : Bytes) :
    (jsonMap (fun v => g (f v)) m).lookup key = ((jsonMap f m).lookup key).map g := by
  have hfold (l : List (Σ _ : Bytes, V)) (acc : GoMap Bytes W) (acc' : GoMap Bytes U)
      (hacc : ∀ k, acc'.lookup k = (acc.lookup k).map g) (k : Bytes) :
      (l.foldl (fun acc e => acc.insert (jsonString e.1) (g (f e.2))) acc').lookup k =
        ((l.foldl (fun acc e => acc.insert (jsonString e.1) (f e.2)) acc).lookup k).map g := by
    induction l generalizing acc acc' with
    | nil => exact hacc k
    | cons e l ih =>
      refine ih _ _ fun k' => ?_
      rw [GoMap.lookup_insert_ite, GoMap.lookup_insert_ite, hacc k']
      split_ifs <;> rfl
  exact hfold _ ∅ ∅ (fun _ => rfl) key

theorem jsonMap_of_valid (f : V → W) {m : GoMap Bytes V} (hm : ∀ key ∈ m, Utf8.valid key) :
    jsonMap f m = m.mapVal fun _ => f := by
  have hkey (k : Bytes) : k ∈ (GoMap.sorted m).list.map Sigma.fst ↔ k ∈ m :=
    (GoMap.sorted m).mem_keys_iff k
  obtain ⟨hin, hout⟩ := lookup_foldl_insert f (GoMap.sorted m).nodup_keys
    (fun e he => hm e.1 ((hkey e.1).mp (List.mem_map_of_mem he))) ∅
  refine Finmap.ext_lookup fun k => ?_
  rw [GoMap.lookup_mapVal, jsonMap]
  cases hl : m.lookup k with
  | none =>
    rw [hout k fun h => Finmap.lookup_eq_none.mp hl ((hkey k).mp h)]
    rfl
  | some v => exact hin ⟨k, v⟩ (((GoMap.sorted m).mem_list_iff k v).mpr hl)

theorem jsonMap_eq_self {p : V → Prop} {f : V → V} (hf : ∀ v, p v → f v = v) {m : GoMap Bytes V}
    (hm : ValidMap p m) : jsonMap f m = m := by
  have hkeys : ∀ key ∈ m, Utf8.valid key := fun key hk => by
    obtain ⟨v, hv⟩ := Finmap.mem_iff.mp hk
    exact (hm key v hv).1
  rw [jsonMap_of_valid f hkeys]
  refine Finmap.ext_lookup fun k => ?_
  rw [GoMap.lookup_mapVal]
  cases hl : m.lookup k with
  | none => rfl
  | some v => rw [Option.map_some, hf v (hm k v hl).2]

theorem valid_of_mem_jsonMap (f : V → W) (m : GoMap Bytes V) {key : Bytes} (h : key ∈ jsonMap f m) :
    Utf8.valid key := by
  have hfold (l : List (Σ _ : Bytes, V)) (acc : GoMap Bytes W) (hacc : ∀ k ∈ acc, Utf8.valid k) :
      ∀ k ∈ l.foldl (fun acc e => acc.insert (jsonString e.1) (f e.2)) acc, Utf8.valid k := by
    induction l generalizing acc with
    | nil => exact hacc
    | cons e l ih =>
      refine ih _ fun k hk => ?_
      rcases Finmap.mem_insert.mp hk with rfl | hk
      · exact Utf8.valid_toValid e.1
      · exact hacc k hk
  exact hfold _ ∅ (fun k hk => absurd hk Finmap.notMem_empty) key h

theorem validMap_of_lookup {p : V → Prop} {f : V → V} (hf : ∀ v, f v = v → p v)
    {m : GoMap Bytes V}
    (h : ∀ key value, m.lookup key = some value → (jsonMap f m).lookup key = some value) :
    ValidMap p m := by
  have hvalid (k : Bytes) (hk : k ∈ m) : Utf8.valid k := by
    obtain ⟨v, hv⟩ := Finmap.mem_iff.mp hk
    exact valid_of_mem_jsonMap f m (Finmap.mem_of_lookup_eq_some (h k v hv))
  intro key value hvalue
  have hback := h key value hvalue
  rw [jsonMap_of_valid f hvalid, GoMap.lookup_mapVal, hvalue, Option.map_some] at hback
  exact ⟨hvalid key (Finmap.mem_of_lookup_eq_some hvalue), hf value (Option.some.inj hback)⟩

theorem jsonMap_eq_self_iff {p : V → Prop} {f : V → V} (hf : ∀ v, f v = v ↔ p v)
    {m : GoMap Bytes V} : jsonMap f m = m ↔ ValidMap p m := by
  refine ⟨fun h => ?_, jsonMap_eq_self fun v => (hf v).mpr⟩
  refine validMap_of_lookup (fun v => (hf v).mp) fun key value hvalue => ?_
  rw [h]
  exact hvalue

end GoLib
