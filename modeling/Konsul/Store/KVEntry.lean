import Konsul.Lib.JsonRoundTrip
import Konsul.Lib.JsonSize
import Konsul.Store.Errors

/-!
# A key's entry and its record in the engine

`KVEntry` is stored as the JSON text of the struct. `unmarshal_marshal` is the
round trip; `value_ne_of_unmarshal` says that a record read as an entry is never
the text of that entry's value.
-/

namespace Konsul

open GoLib

structure KVEntry where
  value : GoString
  modifyIndex : UInt64
  createIndex : UInt64
  flags : UInt64
  deriving DecidableEq

namespace KVEntry

/-- The zero value of the struct. -/
def zero : KVEntry := ⟨[], 0, 0, 0⟩

/-- The entry whose value went through JSON text. -/
def clean (e : KVEntry) : KVEntry := { e with value := Utf8.toValid e.value }

/-- The members `json.Marshal` writes; `flags` is omitted when it is zero. -/
def toJson (e : KVEntry) : Json :=
  .obj ([(str "value", .str e.value),
    (str "modify_index", .uint64 e.modifyIndex),
    (str "create_index", .uint64 e.createIndex)] ++
      if e.flags = 0 then [] else [(str "flags", .uint64 e.flags)])

/-- `json.Marshal(entry)`. -/
def marshal (e : KVEntry) : Bytes := Json.print e.toJson

/-- One member of an object decoded into the struct. -/
def setField (e : KVEntry) (m : Bytes × Json) : Option KVEntry :=
  if Json.namesField (str "value") m.1 then
    (Json.intoString e.value m.2).map fun v => { e with value := v }
  else if Json.namesField (str "modify_index") m.1 then
    (Json.intoUint64 e.modifyIndex m.2).map fun n => { e with modifyIndex := n }
  else if Json.namesField (str "create_index") m.1 then
    (Json.intoUint64 e.createIndex m.2).map fun n => { e with createIndex := n }
  else if Json.namesField (str "flags") m.1 then
    (Json.intoUint64 e.flags m.2).map fun n => { e with flags := n }
  else some e

def ofJson : Json → Option KVEntry
  | .obj members => members.foldlM setField zero
  | .null => some zero
  | _ => none

/-- `json.Unmarshal(data, &entry)`; `none` when it returns an error. -/
def unmarshal (data : Bytes) : Option KVEntry := (Json.parse data).bind ofJson

/-! ### Round trip -/

theorem intLit_uint64 (n : UInt64) : Json.WF (.uint64 n) := ⟨n.toNat, Or.inl rfl⟩

theorem wf_toJson (e : KVEntry) : e.toJson.WF := by
  unfold toJson
  split_ifs
  · exact ⟨trivial, intLit_uint64 _, intLit_uint64 _, trivial⟩
  · exact ⟨trivial, intLit_uint64 _, intLit_uint64 _, intLit_uint64 _, trivial⟩

theorem depth_toJson (e : KVEntry) : e.toJson.depth = 1 := by
  unfold toJson
  split_ifs <;> rfl

theorem clean_toJson (e : KVEntry) : e.toJson.clean = e.clean.toJson := by
  have hv : Utf8.toValid (str "value") = str "value" := by decide
  have hm : Utf8.toValid (str "modify_index") = str "modify_index" := by decide
  have hc : Utf8.toValid (str "create_index") = str "create_index" := by decide
  have hf : Utf8.toValid (str "flags") = str "flags" := by decide
  unfold toJson
  by_cases h : e.flags = 0
  · simp only [h, ite_true, List.append_nil, Json.clean, Json.cleanMembers, hv, hm, hc, clean,
      Json.uint64]
  · simp only [h, ite_false, List.cons_append, List.nil_append, Json.clean, Json.cleanMembers, hv,
      hm, hc, hf, clean, Json.uint64]

theorem setField_value (e : KVEntry) (v : GoString) :
    e.setField (str "value", .str v) = some { e with value := v } := rfl

theorem setField_modifyIndex (e : KVEntry) (n : UInt64) :
    e.setField (str "modify_index", .uint64 n) = some { e with modifyIndex := n } := by
  simp only [setField, show Json.namesField (str "value") (str "modify_index") = false by decide,
    show Json.namesField (str "modify_index") (str "modify_index") = true by decide,
    Bool.false_eq_true, ite_false, ite_true, Json.intoUint64_uint64, Option.map_some]

theorem setField_createIndex (e : KVEntry) (n : UInt64) :
    e.setField (str "create_index", .uint64 n) = some { e with createIndex := n } := by
  simp only [setField, show Json.namesField (str "value") (str "create_index") = false by decide,
    show Json.namesField (str "modify_index") (str "create_index") = false by decide,
    show Json.namesField (str "create_index") (str "create_index") = true by decide,
    Bool.false_eq_true, ite_false, ite_true, Json.intoUint64_uint64, Option.map_some]

theorem setField_flags (e : KVEntry) (n : UInt64) :
    e.setField (str "flags", .uint64 n) = some { e with flags := n } := by
  simp only [setField, show Json.namesField (str "value") (str "flags") = false by decide,
    show Json.namesField (str "modify_index") (str "flags") = false by decide,
    show Json.namesField (str "create_index") (str "flags") = false by decide,
    show Json.namesField (str "flags") (str "flags") = true by decide,
    Bool.false_eq_true, ite_false, ite_true, Json.intoUint64_uint64, Option.map_some]

theorem ofJson_toJson (e : KVEntry) : ofJson e.toJson = some e := by
  unfold toJson
  by_cases h : e.flags = 0
  · simp only [h, ite_true, List.append_nil, ofJson, List.foldlM_cons, List.foldlM_nil,
      setField_value, setField_modifyIndex, setField_createIndex, Option.bind_eq_bind,
      Option.bind_some, Option.pure_def]
    rw [show zero.flags = e.flags from h.symm]
  · simp only [h, ite_false, List.cons_append, List.nil_append, ofJson, List.foldlM_cons,
      List.foldlM_nil, setField_value, setField_modifyIndex, setField_createIndex, setField_flags,
      Option.bind_eq_bind, Option.bind_some, Option.pure_def]

/-- A stored entry is read back with its value made valid UTF-8. -/
theorem unmarshal_marshal (e : KVEntry) : unmarshal e.marshal = some e.clean := by
  have hparse := Json.parse_print e.wf_toJson (by rw [depth_toJson]; decide)
  rw [unmarshal, marshal, hparse, clean_toJson, Option.bind_some, ofJson_toJson]

theorem clean_eq_iff (e : KVEntry) : e.clean = e ↔ Utf8.valid e.value := by
  rw [← Utf8.toValid_eq_iff]
  constructor
  · intro h
    exact congrArg KVEntry.value h
  · intro h
    rw [clean, h]

/-! ### Records that are not an entry's value -/

theorem setField_value_mem {e e' : KVEntry} {m : Bytes × Json} (h : e.setField m = some e') :
    e'.value = e.value ∨ e'.value ∈ m.2.strings := by
  unfold setField at h
  split_ifs at h
  · obtain ⟨v, hv, rfl⟩ := Option.map_eq_some_iff.mp h
    unfold Json.intoString at hv
    split at hv
    · cases hv
      rename_i heq
      rw [heq, Json.strings]
      exact Or.inr (List.mem_singleton_self _)
    · cases hv
      exact Or.inl rfl
    · cases hv
  · obtain ⟨n, -, rfl⟩ := Option.map_eq_some_iff.mp h
    exact Or.inl rfl
  · obtain ⟨n, -, rfl⟩ := Option.map_eq_some_iff.mp h
    exact Or.inl rfl
  · obtain ⟨n, -, rfl⟩ := Option.map_eq_some_iff.mp h
    exact Or.inl rfl
  · cases h
    exact Or.inl rfl

theorem foldlM_setField_value (ms : List (Bytes × Json)) (e e' : KVEntry)
    (h : ms.foldlM setField e = some e') :
    e'.value = e.value ∨ e'.value ∈ Json.stringsMembers ms := by
  induction ms generalizing e with
  | nil =>
    cases h
    exact Or.inl rfl
  | cons m ms ih =>
    rw [List.foldlM_cons, Option.bind_eq_bind, Option.bind_eq_some_iff] at h
    obtain ⟨e1, h1, h2⟩ := h
    have hm : Json.stringsMembers (m :: ms) = m.2.strings ++ Json.stringsMembers ms := by
      obtain ⟨k, j⟩ := m
      rw [Json.stringsMembers]
    rw [hm, List.mem_append]
    rcases ih e1 h2 with h2 | h2
    · rcases setField_value_mem h1 with h1 | h1
      · exact Or.inl (h2.trans h1)
      · exact Or.inr (Or.inl (h2 ▸ h1))
    · exact Or.inr (Or.inr h2)

theorem value_ne_of_unmarshal {data : Bytes} {e : KVEntry} (h : unmarshal data = some e) :
    e.value ≠ data := by
  obtain ⟨j, hj, he⟩ := Option.bind_eq_some_iff.mp h
  have hne : data ≠ [] := by
    rintro rfl
    cases hj
  rintro rfl
  match j, he with
  | .null, he =>
    cases he
    exact hne rfl
  | .obj ms, he =>
    rcases foldlM_setField_value ms zero e he with hv | hv
    · exact hne hv
    · have := Json.asciis_parse hj e.value (by rw [Json.strings]; exact hv)
      omega

end KVEntry

end Konsul
