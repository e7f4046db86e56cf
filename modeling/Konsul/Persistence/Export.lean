import Konsul.Persistence.Badger
import Konsul.Store.ServiceJson

/-!
# Export and import

The body of `GET /export` sent to `POST /import` of an empty engine. `fits` is the
database's verdict on the size of a transaction. What was exported has lost the time at
which the database drops it.
-/

namespace Konsul

open GoLib

namespace BadgerEngine

/-- `ImportData` of a body into an empty engine. -/
def imported (fits : List TxnWrite → Bool) (body : Bytes) : Option BadgerEngine :=
  (Json.unmarshalMap body).bind fun data =>
    if fits (importData data) then some (new.update (importData data)) else none

/-- The record of a service, as a store reads it. -/
def serviceAt (b : BadgerEngine) (now : Time) (name : GoString) : Option (Option ServiceEntry) :=
  (b.getService now name).toOption.map ServiceEntry.unmarshal

/-- At a moment two engines have the same keys, values and service records. -/
def SameAt (b b' : BadgerEngine) (now : Time) : Prop :=
  (∀ key, b'.get now key = b.get now key) ∧ ∀ name, b'.serviceAt now name = b.serviceAt now name

/-- The import of the export succeeds, and from the export on the two engines show the
same. -/
def RoundTrips (fits : List TxnWrite → Bool) (b : BadgerEngine) (now : Time) : Prop :=
  ∃ b', imported fits (b.exportData now).json.print = some b' ∧ ∀ t, now ≤ t → b.SameAt b' t

/-- What the stores write: keys that stay, and marshalled entries that expire. -/
structure Written (b : BadgerEngine) : Prop where
  stays : ∀ key item, b.db.lookup (kvPrefix ++ key) = some item → item.expiresAt = 0
  record : ∀ name item, b.db.lookup (servicePrefix ++ name) = some item →
    ∃ z entry data now ttl, ServiceEntry.marshal z entry = .ok data ∧
      0 < Time.unix (now + ttl) ∧ item = .withTTL data now ttl

/-- Keys and values are text. -/
def ValidText (b : BadgerEngine) : Prop :=
  ∀ key item, b.db.lookup (kvPrefix ++ key) = some item → Utf8.valid key ∧ Utf8.valid item.value

/-! ### Items and their keys -/

section

variable {b : BadgerEngine}

theorem prefix_ne (key name : GoString) : kvPrefix ++ key ≠ servicePrefix ++ name := by
  intro h
  have hk : kvPrefix = [0x6B, 0x76, 0x3A] := by decide
  have hs : servicePrefix = [0x73, 0x76, 0x63, 0x3A] := by decide
  rw [hk, hs] at h
  exact absurd (List.cons.inj h).1 (by decide)

theorem find_eq_some_iff (now : Time) (key : Bytes) (item : Item) :
    b.find now key = some item ↔ b.db.lookup key = some item ∧ item.expired now = false := by
  simp [find, Option.filter_eq_some_iff]

theorem mem_items_iff (now : Time) (key : Bytes) (item : Item) :
    (key, item) ∈ b.items now ↔ b.find now key = some item := by
  rw [find_eq_some_iff, items, List.mem_map]
  constructor
  · rintro ⟨⟨k, i⟩, hmem, heq⟩
    cases heq
    obtain ⟨hentry, hlive⟩ := List.mem_filter.mp hmem
    exact ⟨((GoMap.sorted b.db).mem_list_iff k i).mp hentry, by simpa using hlive⟩
  · rintro ⟨hlookup, hlive⟩
    have hentry := ((GoMap.sorted b.db).mem_list_iff key item).mpr hlookup
    exact ⟨⟨key, item⟩, List.mem_filter.mpr ⟨hentry, by simp [hlive]⟩, rfl⟩

theorem pairwise_items (now : Time) : (b.items now).Pairwise fun e e' => e.1 ≠ e'.1 := by
  have hdistinct := List.nodupKeys_iff_pairwise.mp (GoMap.sorted b.db).nodupKeys
  exact List.pairwise_map.mpr (hdistinct.filter _)

/-- An item that has expired stays so. -/
theorem expired_later {item : Item} {now t : Time} (h : item.expired now = true) (hle : now ≤ t) :
    item.expired t = true := by
  simp only [Item.expired, Bool.and_eq_true, decide_eq_true_eq] at h ⊢
  obtain ⟨hexpires, hsecond⟩ := h
  have hunix : Time.unix now ≤ Time.unix t := Int.ediv_le_ediv (by decide) hle
  exact ⟨hexpires, hsecond.trans (Int.toNat_le_toNat hunix)⟩

theorem not_expired_of_stays {item : Item} (h : item.expiresAt = 0) (now : Time) :
    item.expired now = false := by
  simp [Item.expired, h]

/-! ### The export -/

theorem lookup_exported_kv (now : Time) (key : GoString) :
    (b.exportData now).kv.lookup key = (b.find now (kvPrefix ++ key)).map (·.value) := by
  have hnodup : (((b.items now).filterMap fun e =>
      if hasPrefix e.1 kvPrefix then
        some (⟨trimPrefix e.1 kvPrefix, e.2.value⟩ : Σ _ : GoString, GoString)
      else none).map Sigma.fst).Nodup := by
    rw [List.map_filterMap]
    refine List.Pairwise.filterMap _ ?_ (pairwise_items now)
    rintro ⟨k, i⟩ ⟨k', i'⟩ hne x hx x' hx' heq
    refine hne ?_
    simp only [Option.map_eq_some_iff] at hx hx'
    obtain ⟨e, he, rfl⟩ := hx
    obtain ⟨e', he', rfl⟩ := hx'
    split_ifs at he with hk
    split_ifs at he' with hk'
    cases he
    cases he'
    obtain ⟨rest, hrest⟩ := (hasPrefix_iff _ _).mp hk
    obtain ⟨rest', hrest'⟩ := (hasPrefix_iff _ _).mp hk'
    simp only [hrest, hrest', trimPrefix_append] at heq ⊢
    rw [heq]
  ext value
  rw [exportData, GoMap.lookup_ofEntries_iff hnodup, Option.map_eq_some_iff, List.mem_filterMap]
  constructor
  · rintro ⟨⟨k, item⟩, hmem, hpick⟩
    simp only at hpick
    split_ifs at hpick with hk
    cases hpick
    obtain ⟨rest, hrest⟩ := (hasPrefix_iff _ _).mp hk
    have hkey : trimPrefix k kvPrefix = rest := by rw [hrest, trimPrefix_append]
    rw [hkey, ← hrest]
    exact ⟨item, (mem_items_iff now k item).mp hmem, rfl⟩
  · rintro ⟨item, hitem, rfl⟩
    refine ⟨(kvPrefix ++ key, item), (mem_items_iff now _ item).mpr hitem, ?_⟩
    rw [if_pos ((hasPrefix_iff _ _).mpr ⟨key, rfl⟩), trimPrefix_append]

theorem exported_services_eq_empty {now : Time}
    (h : ∀ name, b.find now (servicePrefix ++ name) = none) : (b.exportData now).services = ∅ := by
  have hnone : (b.items now).filterMap (fun e =>
      if hasPrefix e.1 kvPrefix then none
      else if hasPrefix e.1 servicePrefix then
        (serviceInfo e.2.value).map fun info =>
          (⟨trimPrefix e.1 servicePrefix, info⟩ : Σ _ : GoString, Json)
      else none) = [] := by
    refine List.filterMap_eq_nil_iff.mpr ?_
    rintro ⟨k, item⟩ hmem
    split_ifs with hk hs
    · rfl
    · obtain ⟨rest, rfl⟩ := (hasPrefix_iff _ _).mp hs
      have hfound := (mem_items_iff now _ item).mp hmem
      rw [h rest] at hfound
      exact nomatch hfound
    · rfl
  rw [exportData]
  simp only [hnone]
  rfl

/-! ### The import -/

theorem stays_of_imported {fits : List TxnWrite → Bool} {body : Bytes} {b' : BadgerEngine}
    (h : imported fits body = some b') (key : Bytes) (item : Item)
    (hitem : b'.db.lookup key = some item) : item.expiresAt = 0 := by
  obtain ⟨data, -, hdata⟩ := Option.bind_eq_some_iff.mp h
  split_ifs at hdata
  cases hdata
  have hwrites : ∀ w ∈ importData data, ∃ k value, w = .set k ⟨value, 0⟩ := by
    intro w hw
    rcases List.mem_append.mp hw with hw | hw
    · obtain ⟨e, -, he⟩ := List.mem_filterMap.mp hw
      obtain ⟨value, -, rfl⟩ := Option.map_eq_some_iff.mp he
      exact ⟨_, value, rfl⟩
    · obtain ⟨e, -, rfl⟩ := List.mem_map.mp hw
      exact ⟨_, _, rfl⟩
  have hkept : ∀ (txn : List TxnWrite) (b : BadgerEngine),
      (∀ w ∈ txn, ∃ k value, w = .set k ⟨value, 0⟩) →
      (∀ k i, b.db.lookup k = some i → i.expiresAt = 0) →
      ∀ k i, (b.update txn).db.lookup k = some i → i.expiresAt = 0 := by
    intro txn
    induction txn with
    | nil => exact fun b _ hb => hb
    | cons w txn ih =>
      intro b hw hb
      obtain ⟨k, value, rfl⟩ := hw w (List.mem_cons_self ..)
      refine ih _ (fun w' hw' => hw w' (List.mem_cons_of_mem _ hw')) fun k' i hi => ?_
      simp only [write, GoMap.lookup_insert_ite] at hi
      split_ifs at hi
      · cases hi
        rfl
      · exact hb k' i hi
  exact hkept _ _ hwrites 
    (fun k i hi => absurd (hi.symm.trans (Finmap.lookup_empty k)) nofun) key item hitem

theorem lookup_update_sets (pfx : Bytes) (l : List (Σ _ : GoString, Bytes)) (b : BadgerEngine) :
    (∀ key, (b.update (l.map fun e => .set (pfx ++ e.1) ⟨e.2, 0⟩)).db.lookup (pfx ++ key) =
      (((GoMap.ofEntries l).lookup key).map fun value => ⟨value, 0⟩).or
        (b.db.lookup (pfx ++ key))) ∧
    ∀ k, (∀ key, k ≠ pfx ++ key) →
      (b.update (l.map fun e => .set (pfx ++ e.1) ⟨e.2, 0⟩)).db.lookup k = b.db.lookup k := by
  induction l using List.reverseRecOn with
  | nil =>
    refine ⟨fun key => ?_, fun _ _ => rfl⟩
    have hempty : (GoMap.ofEntries ([] : List (Σ _ : GoString, Bytes))).lookup key = none :=
      Finmap.lookup_empty key
    rw [hempty]
    rfl
  | append_singleton l e ih =>
    obtain ⟨hin, hout⟩ := ih
    have hdb : (b.update ((l ++ [e]).map fun e => .set (pfx ++ e.1) ⟨e.2, 0⟩)).db =
        (b.update (l.map fun e => .set (pfx ++ e.1) ⟨e.2, 0⟩)).db.insert (pfx ++ e.1)
          ⟨e.2, 0⟩ := by
      rw [List.map_append, update, List.foldl_append]
      rfl
    have hentries : GoMap.ofEntries (l ++ [e]) = (GoMap.ofEntries l).insert e.1 e.2 := by
      rw [GoMap.ofEntries, List.foldl_append]
      rfl
    rw [hdb, hentries]
    constructor
    · intro key
      rw [GoMap.lookup_insert_ite, GoMap.lookup_insert_ite]
      simp only [List.append_cancel_left_eq]
      split_ifs
      · rfl
      · exact hin key
    · intro k hk
      rw [GoMap.lookup_insert_ite, if_neg (hk e.1), hout k hk]

theorem find_batchSet (kv : GoMap GoString Bytes) (now : Time) (key : GoString) :
    (new.update (batchSet kv)).find now (kvPrefix ++ key) = (kv.lookup key).map (⟨·, 0⟩) ∧
      ∀ name, (new.update (batchSet kv)).find now (servicePrefix ++ name) = none := by
  have hbatch : batchSet kv =
      (GoMap.sorted kv).list.map fun e => .set (kvPrefix ++ e.1) ⟨e.2, 0⟩ :=
    List.flatMap_pure_eq_map _ _
  obtain ⟨hin, hout⟩ := lookup_update_sets kvPrefix (GoMap.sorted kv).list new
  have hnew : ∀ k, new.db.lookup k = none := Finmap.lookup_empty
  rw [hbatch]
  constructor
  · have hlookup := hin key
    rw [GoMap.ofEntries_list, hnew, Option.or_none] at hlookup
    rw [find, hlookup]
    cases kv.lookup key with
    | none => rfl
    | some value => simp [Option.filter, not_expired_of_stays]
  · intro name
    have hlookup := hout (servicePrefix ++ name) fun key heq => prefix_ne key name heq.symm
    rw [find, hlookup, hnew]
    rfl

/-- The body of an export of valid text without services, imported, is the transaction
of its keys. -/
theorem imported_kv (fits : List TxnWrite → Bool) {kv : GoMap GoString GoString}
    (hkv : ValidMap (fun v => Utf8.valid v) kv) :
    imported fits (Exported.json ⟨kv, ∅⟩).print =
      if fits (batchSet kv) then some (new.update (batchSet kv)) else none := by
  have hlawful := Json.Codec.map_lawful Json.Codec.string_lawful
  have hempty : (GoMap.sorted (∅ : GoMap GoString Json)).list = [] := rfl
  have hjson : Exported.json ⟨kv, ∅⟩ =
      .obj [(str "kv", (Json.Codec.map .string).write kv), (str "services", .obj [])] := rfl
  have hwf : (Exported.json ⟨kv, ∅⟩).WF := ⟨hlawful.wf kv, trivial, trivial⟩
  have hdepth : (Exported.json ⟨kv, ∅⟩).depth ≤ Json.maxNestingDepth := by
    have hle := hlawful.depth_le kv
    rw [hjson]
    simp only [Json.depth, Json.depthMembers, Json.maxNestingDepth] at hle ⊢
    omega
  have hread : Json.unmarshalMap (Exported.json ⟨kv, ∅⟩).print =
      some (Json.toMap [(str "kv", ((Json.Codec.map .string).write kv).clean),
        (str "services", .obj [])]) := by
    have hstrings := Json.inRange_strings (fun v : GoString => v) (GoMap.sorted kv).list
    have hrange : Json.inRangeMembers [(str "kv", ((Json.Codec.map .string).write kv).clean),
        (str "services", .obj [])] = true := by
      rw [Json.inRangeMembers, Bool.and_eq_true]
      exact ⟨hstrings, rfl⟩
    rw [Json.unmarshalMap, Json.parse_print hwf hdepth]
    exact if_pos hrange
  have hkvMap : (((Json.Codec.map .string).write kv).clean).asMap =
      some (kv.mapVal fun _ v => .str (jsonString v)) := by
    have hkeys : ∀ key ∈ kv, Utf8.valid key := by
      intro key hkey
      obtain ⟨v, hv⟩ := Finmap.mem_iff.mp hkey
      exact (hkv key v hv).1
    have hmap := jsonMap_of_valid (fun v => Json.str (jsonString v)) hkeys
    rw [← hmap]
    exact congrArg some (Json.toMap_cleanMembers (fun v : GoString => v) (GoMap.sorted kv).list)
  have hdata : importData (Json.toMap [(str "kv", ((Json.Codec.map .string).write kv).clean),
      (str "services", .obj [])]) = batchSet kv := by
    have hservices : (Json.toMap [(str "kv", ((Json.Codec.map .string).write kv).clean),
        (str "services", .obj [])]).lookup (str "services") = some (.obj []) :=
      Finmap.lookup_insert _
    have hlookup : (Json.toMap [(str "kv", ((Json.Codec.map .string).write kv).clean),
        (str "services", .obj [])]).lookup (str "kv") =
          some ((Json.Codec.map .string).write kv).clean := by
      refine (Finmap.lookup_insert_of_ne _ (by decide)).trans ?_
      exact Finmap.lookup_insert _
    have hsets : batchSet kv = (GoMap.sorted kv).list.filterMap fun e =>
        some (.set (kvPrefix ++ e.1) ⟨e.2, 0⟩) := by
      rw [List.filterMap_eq_map', batchSet]
      exact List.map_eq_flatMap.symm
    rw [importData, hlookup, hservices, Option.bind_some, Option.bind_some, hkvMap]
    simp only [Json.asMap, Json.toMap, List.foldl_nil, Option.getD_some, hempty, List.map_nil,
      List.append_nil]
    rw [hsets]
    refine GoMap.filterMap_sorted_congr (f := fun k j =>
      (Json.asString j).map fun value => TxnWrite.set (kvPrefix ++ k) ⟨value, 0⟩)
      (g := fun k v => some (TxnWrite.set (kvPrefix ++ k) ⟨v, 0⟩)) fun k => ?_
    rw [GoMap.lookup_mapVal]
    cases hk : kv.lookup k with
    | none => rfl
    | some v =>
      have hv : jsonString v = v := Utf8.toValid_of_valid (hkv k v hk).2
      simp only [Option.map_some, Option.bind_some, Json.asString, hv]
  rw [imported, hread, Option.bind_some, hdata]

/-! ### The round trip -/

theorem find_kv_of_stays (hstays : ∀ key item, b.db.lookup (kvPrefix ++ key) = some item →
    item.expiresAt = 0) (now t : Time) (key : GoString) :
    b.find t (kvPrefix ++ key) = b.find now (kvPrefix ++ key) := by
  ext item
  rw [find_eq_some_iff, find_eq_some_iff]
  refine and_congr_right fun hitem => ?_
  have hzero := hstays key item hitem
  rw [not_expired_of_stays hzero t, not_expired_of_stays hzero now]

theorem not_expired_iff (now : Time) (item : Item) :
    item.expired now = false ↔ item.expiresAt = 0 ∨ (Time.unix now).toNat < item.expiresAt := by
  simp only [Item.expired, Bool.and_eq_false_iff, decide_eq_false_iff_not, not_not, not_le]

/-- The engine's own check of the expiry finds nothing the database has not dropped. -/
theorem live_of_find {now : Time} {key : Bytes} {item : Item} (h : b.find now key = some item) :
    ¬ (item.expiresAt ≠ 0 ∧ (item.expiresAt : ℤ) < Time.unix now) := by
  have hlive := (not_expired_iff now item).mp ((find_eq_some_iff now _ item).mp h).2
  rintro ⟨hne, hlt⟩
  rcases hlive with hzero | hlater
  · exact hne hzero
  · exact absurd (Int.lt_toNat.mpr hlt) (Nat.lt_asymm hlater)

theorem serviceAt_eq (now : Time) (name : GoString) :
    b.serviceAt now name = (b.find now (servicePrefix ++ name)).map fun item =>
      ServiceEntry.unmarshal item.value := by
  unfold serviceAt getService
  cases hfind : b.find now (servicePrefix ++ name) with
  | none => rfl
  | some item =>
    simp only [if_neg (live_of_find hfind)]
    rfl

/-- A service live at the export outlives its record. -/
theorem not_roundTrips_of_live (hb : b.Written) {now : Time} {name : GoString} {item : Item}
    (hlive : b.find now (servicePrefix ++ name) = some item) (fits : List TxnWrite → Bool) :
    ¬ RoundTrips fits b now := by
  rintro ⟨b', himport, hsame⟩
  obtain ⟨hitem, hnow⟩ := (find_eq_some_iff now _ item).mp hlive
  obtain ⟨z, entry, data, written, ttl, -, hpos, hrecord⟩ := hb.record name item hitem
  have hseconds : (item.expiresAt : ℤ) = Time.unix (written + ttl) := by
    rw [hrecord]
    exact Int.toNat_of_nonneg hpos.le
  -- the moment the record expires
  let t : Time := (item.expiresAt : ℤ) * 1000000000
  have hunix : Time.unix t = item.expiresAt := Int.mul_ediv_cancel _ (by decide)
  have hlater : now ≤ t := by
    rcases (not_expired_iff now item).mp hnow with hzero | hlt
    · exact absurd hseconds (by omega)
    · have hlt' : Time.unix now < (item.expiresAt : ℤ) := by omega
      exact (Int.lt_mul_of_ediv_lt (by decide) hlt').le
  have hgone : b.find t (servicePrefix ++ name) = none := by
    refine Option.eq_none_iff_forall_not_mem.mpr fun i hi => ?_
    obtain ⟨hi, hnot⟩ := (find_eq_some_iff t _ i).mp hi
    cases hitem.symm.trans hi
    have hexpired := (not_expired_iff t item).mp hnot
    rw [hunix] at hexpired
    omega
  have hhere := (hsame now le_rfl).2 name
  have hthere := (hsame t hlater).2 name
  rw [serviceAt_eq, serviceAt_eq, hlive] at hhere
  rw [serviceAt_eq, serviceAt_eq, hgone] at hthere
  obtain ⟨item', hitem', -⟩ := Option.map_eq_some_iff.mp hhere
  have hlookup := ((find_eq_some_iff now _ item').mp hitem').1
  have hstays := stays_of_imported himport _ item' hlookup
  have hfound : b'.find t (servicePrefix ++ name) = some item' :=
    (find_eq_some_iff t _ item').mpr ⟨hlookup, not_expired_of_stays hstays t⟩
  rw [hfound] at hthere
  exact nomatch hthere

theorem roundTrips_iff_fits (hb : b.Written) (htext : b.ValidText) {now : Time}
    (hnone : ∀ name, b.find now (servicePrefix ++ name) = none) (fits : List TxnWrite → Bool) :
    RoundTrips fits b now ↔ fits (batchSet (b.exportData now).kv) = true := by
  have hkv : ValidMap (fun v => Utf8.valid v) (b.exportData now).kv := by
    intro key value hvalue
    rw [lookup_exported_kv, Option.map_eq_some_iff] at hvalue
    obtain ⟨item, hitem, rfl⟩ := hvalue
    exact htext key item ((find_eq_some_iff now _ item).mp hitem).1
  have hexport : b.exportData now = ⟨(b.exportData now).kv, ∅⟩ := by
    rw [← exported_services_eq_empty hnone]
  have himport := imported_kv fits hkv
  rw [← hexport] at himport
  unfold RoundTrips
  rw [himport]
  constructor
  · rintro ⟨b', hb', -⟩
    split_ifs at hb' with hfits
    exact hfits
  · intro hfits
    refine ⟨_, if_pos hfits, fun t ht => ⟨fun key => ?_, fun name => ?_⟩⟩
    · have hfind := (find_batchSet (b.exportData now).kv t key).1
      rw [lookup_exported_kv, ← find_kv_of_stays hb.stays now t key] at hfind
      unfold get
      rw [hfind]
      cases b.find t (kvPrefix ++ key) <;> rfl
    · have hgone : b.find t (servicePrefix ++ name) = none := by
        refine Option.eq_none_iff_forall_not_mem.mpr fun item hitem => ?_
        obtain ⟨hitem, hlive⟩ := (find_eq_some_iff t _ item).mp hitem
        have hnow : item.expired now = false := by
          by_contra hexpired
          have hlater := expired_later (Bool.not_eq_false _ ▸ hexpired) ht
          rw [hlive] at hlater
          exact nomatch hlater
        have hfound := (find_eq_some_iff now _ item).mpr ⟨hitem, hnow⟩
        rw [hnone name] at hfound
        exact nomatch hfound
      rw [serviceAt_eq, serviceAt_eq, hgone, (find_batchSet _ t []).2 name]

end

/-- Export and import are the identity iff no service is live at the export and the
database takes the keys in one transaction. -/
theorem export_import_iff {b : BadgerEngine} (hb : b.Written) (htext : b.ValidText)
    (fits : List TxnWrite → Bool) (now : Time) :
    RoundTrips fits b now ↔ (∀ name, b.find now (servicePrefix ++ name) = none) ∧
      fits (batchSet (b.exportData now).kv) = true := by
  constructor
  · intro h
    have hnone : ∀ name, b.find now (servicePrefix ++ name) = none := by
      intro name
      cases hlive : b.find now (servicePrefix ++ name) with
      | none => rfl
      | some item => exact absurd h (not_roundTrips_of_live hb hlive fits)
    exact ⟨hnone, (roundTrips_iff_fits hb htext hnone fits).mp h⟩
  · rintro ⟨hnone, hfits⟩
    exact (roundTrips_iff_fits hb htext hnone fits).mpr hfits

/-- An engine with one item. -/
def oneItem (key : Bytes) (item : Item) : BadgerEngine := ⟨(∅ : GoMap Bytes Item).insert key item⟩

theorem lookup_oneItem {key k : Bytes} {item i : Item}
    (h : (oneItem key item).db.lookup k = some i) : k = key ∧ i = item := by
  rw [oneItem, GoMap.lookup_insert_ite] at h
  split_ifs at h with hk
  · cases h
    exact ⟨hk, rfl⟩
  · rw [Finmap.lookup_empty] at h
    exact nomatch h

theorem export_import_one_key :
    RoundTrips (fun _ => true) (oneItem (kvPrefix ++ str "k") ⟨str "v", 0⟩) 0 ↔
      (∀ name, (oneItem (kvPrefix ++ str "k") ⟨str "v", 0⟩).find 0 (servicePrefix ++ name) = none) ∧
        true = true := by
  refine export_import_iff ⟨fun key item h => ?_, fun name item h => ?_⟩ (fun key item h => ?_)
    (fun _ => true) 0
  · rw [(lookup_oneItem h).2]
  · exact absurd (lookup_oneItem h).1.symm (prefix_ne (str "k") name)
  · obtain ⟨hkey, rfl⟩ := lookup_oneItem h
    rw [List.append_cancel_left hkey]
    decide

/-- A service registered for 30 seconds and exported at once. -/
def webEntry : ServiceEntry :=
  ⟨⟨str "web", str "10.0.0.1", 80, [], ∅, []⟩, 30000000000, 1, 1⟩

def webItem : Item :=
  .withTTL ((ServiceEntry.codec Rfc3339.utc).marshal webEntry) 0 30000000000

theorem service_without_expiry :
    ¬ ∀ b : BadgerEngine, b.Written → b.ValidText → ∀ now, RoundTrips (fun _ => true) b now := by
  intro h
  have hwritten : (oneItem (servicePrefix ++ str "web") webItem).Written := by
    refine ⟨fun key item hitem => ?_, fun name item hitem => ?_⟩
    · exact absurd (lookup_oneItem hitem).1 (prefix_ne key _)
    · rw [(lookup_oneItem hitem).2]
      exact ⟨Rfc3339.utc, webEntry, _, 0, 30000000000, rfl, by decide, rfl⟩
  have htext : (oneItem (servicePrefix ++ str "web") webItem).ValidText :=
    fun key item hitem => absurd (lookup_oneItem hitem).1 (prefix_ne key _)
  have hlive : (oneItem (servicePrefix ++ str "web") webItem).find 0 (servicePrefix ++ str "web") =
      some webItem :=
    (find_eq_some_iff 0 _ webItem).mpr
      ⟨Finmap.lookup_insert _, (not_expired_iff 0 webItem).mpr (Or.inr (by decide))⟩
  exact not_roundTrips_of_live hwritten hlive (fun _ => true) (h _ hwritten htext 0)

end BadgerEngine

end Konsul
