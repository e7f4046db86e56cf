import Konsul.Agent.KV
import Konsul.Handlers.Reads
import Konsul.Store.ServiceJson

/-!
# What the agent reads of the server's replies (internal/agent/client.go)

`GetService` and `GetKV` write the name as it stands after `/services/` and `/kv/`. `asked` is
what the handler reads of that path: for most names the name and no query, so that the server
shows a service as the struct that was registered, and of a key its value only. The client
decodes a list of entries, and an entry. `errorBody` is the text of an error reply, and
`decodeError` the error of the decoder.
-/

namespace Konsul

open GoLib

structure HttpResponse where
  status : ℕ
  body : Bytes
  deriving DecidableEq

/-- What a handler reads of a request: the parameter of its route and its query. -/
structure Asked where
  name : GoString
  consistent : Bool
  metadata : Bool
  deriving DecidableEq

/-- The request for a name that is not changed on its way. -/
def Asked.plain (name : GoString) : Asked := ⟨name, false, false⟩

/-! ### The server -/

/-- `fiber.Map` of a value; the members of a map are written in the order of their names. -/
def valueJson (key value : GoString) : Json := .obj [(str "key", .str key), (str "value", .str value)]

/-- `fiber.Map` of an entry. -/
def entryJson (key : GoString) (e : KVEntry) : Json :=
  .obj [(str "create_index", .uint64 e.createIndex), (str "flags", .uint64 e.flags),
    (str "key", .str key), (str "modify_index", .uint64 e.modifyIndex), (str "value", .str e.value)]

/-- `fiber.Map` of the entry of a service, with the text of its expiry. -/
def serviceEntryJson (e : ServiceEntry) (expiresAt : Bytes) : Json :=
  .obj [(str "create_index", .uint64 e.createIndex), (str "expires_at", .str expiresAt),
    (str "modify_index", .uint64 e.modifyIndex), (str "service", Service.codec.write e.service)]

/-- The reply for what the two endpoints show; an expiry that has no text is an error. -/
def Display.sent (z : Rfc3339.Zone) (errorBody : Response → Bytes) : Display → Option HttpResponse
  | .response r => some ⟨r.status, errorBody r⟩
  | .service s => some ⟨200, Service.codec.marshal s⟩
  | .serviceEntry e =>
    (Rfc3339.format z e.expiresAt).map fun text => ⟨200, (serviceEntryJson e text).print⟩
  | .value key v => some ⟨200, (valueJson key v).print⟩
  | .entry key e => some ⟨200, (entryJson key e).print⟩
  | _ => none

section

variable (z : Rfc3339.Zone) (errorBody : Response → Bytes)

/-- What a service store answers at a time. -/
def ServiceStore.shown (s : ServiceStore) (now : Time) (other : (c : StoreCall) → c.Answer) :
    (c : StoreCall) → c.Answer
  | .serviceGet name => s.get now name
  | .serviceGetEntry name => s.getEntry now name
  | c => other c

def KVStore.shown (kv : KVStore) (other : (c : StoreCall) → c.Answer) : (c : StoreCall) → c.Answer
  | .kvGet key => kv.get key
  | .kvGetEntry key => kv.getEntry key
  | c => other c

/-- The reply to `GET /services/:name`. -/
def ServiceStore.reply (s : ServiceStore) (now : Time) (other : (c : StoreCall) → c.Answer)
    (r : Asked) : Option HttpResponse :=
  ((ServiceHandler.get r.metadata r.name).run
    (fun (_ : Unit) c => ((), s.shown now other c)) ()).2.sent z errorBody

/-- The reply to `GET /kv/:key`. -/
def KVStore.reply (kv : KVStore) (other : (c : StoreCall) → c.Answer) (raft : Bool) (r : Asked) :
    Option HttpResponse :=
  ((KVHandler.get raft r.consistent r.metadata r.name).run
    (fun (_ : Unit) c => ((), kv.shown other c)) ()).2.sent z errorBody

end

/-- The read is not put off by Raft. -/
def Asked.Reads (r : Asked) (raft : Bool) (other : (c : StoreCall) → c.Answer) : Prop :=
  (r.consistent && raft) = true → other .ensureLinearizableRead = none

theorem Asked.plain_reads (name : GoString) (raft : Bool) (other : (c : StoreCall) → c.Answer) :
    (Asked.plain name).Reads raft other := by
  intro hasked
  cases hasked

/-! ### The client -/

namespace ServerClient

def failed (what : GoString) (r : HttpResponse) : GoError :=
  .text (what ++ str " failed: " ++ r.body ++ str " (status: " ++ decimal r.status ++ str ")")

/-- `[]*store.ServiceEntry`. -/
def entriesCodec : Json.Codec (List (Option ServiceEntry)) :=
  .list (.pointer (ServiceEntry.codec Rfc3339.utc))

variable (decodeError : Bytes → GoError)

def decodeFailed (body : Bytes) : GoError := .wrap (str "failed to decode response") (decodeError body)

/-- `GetService` with this reply. -/
def getService (r : HttpResponse) : Except GoError (List (Option ServiceEntry)) :=
  if r.status ≠ 200 then .error (failed (str "get service") r)
  else
    match entriesCodec.unmarshal r.body with
    | some entries => .ok entries
    | none => .error (decodeFailed decodeError r.body)

/-- `GetKV` with this reply; a key that is not there is no error. -/
def getKV (r : HttpResponse) : Except GoError (Option KVEntry) :=
  if r.status = 404 then .ok none
  else if r.status ≠ 200 then .error (failed (str "get KV") r)
  else
    match KVEntry.unmarshal r.body with
    | some entry => .ok (some entry)
    | none => .error (decodeFailed decodeError r.body)

/-! ### Services -/

/-- An object is no list of entries. -/
theorem entries_of_object {members : List (Bytes × Json)} (hwf : (Json.obj members).WF)
    (hdepth : (Json.obj members).depth ≤ Json.maxNestingDepth) :
    entriesCodec.unmarshal (Json.obj members).print = none := by
  rw [Json.Codec.unmarshal, Json.parse_print hwf hdepth]
  rfl

theorem entries_of_service (svc : Service) :
    entriesCodec.unmarshal (Service.codec.marshal svc) = none := by
  have hbounded := Service.codec_bounded svc
  exact entries_of_object hbounded.1 (hbounded.2.trans (by decide))

theorem entries_of_entry (e : ServiceEntry) (text : Bytes) :
    entriesCodec.unmarshal (serviceEntryJson e text).print = none := by
  obtain ⟨hwf, hdepth⟩ := Service.codec_bounded e.service
  refine entries_of_object ⟨KVEntry.intLit_uint64 _, trivial, KVEntry.intLit_uint64 _, hwf, trivial⟩ ?_
  simp only [Json.depth, Json.depthMembers, Json.uint64, Json.maxNestingDepth]
  omega

variable {decodeError}

/-- Whatever the endpoint answers, it is no list of entries. -/
theorem getService_reply_ne (z : Rfc3339.Zone) (errorBody : Response → Bytes) (s : ServiceStore)
    (now : Time) (other : (c : StoreCall) → c.Answer) (r : Asked)
    (entries : List (Option ServiceEntry)) :
    (s.reply z errorBody now other r).map (getService decodeError) ≠ some (.ok entries) := by
  have hbody (body : Bytes) (hnone : entriesCodec.unmarshal body = none) :
      getService decodeError ⟨200, body⟩ ≠ .ok entries := by
    rw [getService, if_neg (not_not.mpr rfl), hnone]
    exact nofun
  have hmissing : getService decodeError ⟨404, errorBody (.notFound (str "Service not found"))⟩ ≠
      .ok entries := by
    rw [getService, if_pos (show (404 : ℕ) ≠ 200 by decide)]
    exact nofun
  rw [ServiceStore.reply, ServiceHandler.get]
  cases r.metadata with
  | false =>
    rw [if_neg Bool.false_ne_true, Program.run_perform_bind]
    dsimp only [ServiceStore.shown]
    cases s.get now r.name with
    | none => exact fun h => hmissing (Option.some.inj h)
    | some svc => exact fun h => hbody _ (entries_of_service svc) (Option.some.inj h)
  | true =>
    rw [if_pos rfl, Program.run_perform_bind]
    dsimp only [ServiceStore.shown]
    cases s.getEntry now r.name with
    | none => exact fun h => hmissing (Option.some.inj h)
    | some e =>
      show ((Rfc3339.format z e.expiresAt).map _).map _ ≠ _
      cases Rfc3339.format z e.expiresAt with
      | none => exact nofun
      | some text => exact fun h => hbody _ (entries_of_entry e text) (Option.some.inj h)

/-! ### Keys -/

theorem setField_key (e : KVEntry) (key : GoString) :
    e.setField (str "key", .str key) = some e := by
  simp only [KVEntry.setField, show Json.namesField (str "value") (str "key") = false by decide,
    show Json.namesField (str "modify_index") (str "key") = false by decide,
    show Json.namesField (str "create_index") (str "key") = false by decide,
    show Json.namesField (str "flags") (str "key") = false by decide, Bool.false_eq_true, ite_false]

/-- Of a value, nothing else is known. -/
theorem unmarshal_valueJson (key value : GoString) :
    KVEntry.unmarshal (valueJson key value).print = some ⟨Utf8.toValid value, 0, 0, 0⟩ := by
  have hparse := Json.parse_print (j := valueJson key value) ⟨trivial, trivial, trivial⟩
    (show 1 ≤ Json.maxNestingDepth by decide)
  have hclean : (valueJson key value).clean = valueJson (Utf8.toValid key) (Utf8.toValid value) := rfl
  rw [KVEntry.unmarshal, hparse, hclean, Option.bind_some, valueJson, KVEntry.ofJson,
    List.foldlM_cons, setField_key]
  rfl

/-- With its metadata, the entry would be read back. -/
theorem unmarshal_entryJson (key : GoString) (e : KVEntry) :
    KVEntry.unmarshal (entryJson key e).print = some e.clean := by
  have hwf : (entryJson key e).WF := ⟨KVEntry.intLit_uint64 _, KVEntry.intLit_uint64 _, trivial,
    KVEntry.intLit_uint64 _, trivial, trivial⟩
  have hparse := Json.parse_print hwf (show 1 ≤ Json.maxNestingDepth by decide)
  have hclean : (entryJson key e).clean = entryJson (Utf8.toValid key) e.clean := rfl
  rw [KVEntry.unmarshal, hparse, hclean, Option.bind_some, entryJson, KVEntry.ofJson]
  simp only [List.foldlM_cons, List.foldlM_nil, KVEntry.setField_createIndex,
    KVEntry.setField_flags, setField_key, KVEntry.setField_modifyIndex, KVEntry.setField_value,
    Option.bind_eq_bind, Option.bind_some, Option.pure_def]

section

variable {kv : KVStore} {raft : Bool} {other : (c : StoreCall) → c.Answer} {r : Asked}

/-- What `Get` shows of a key. -/
def shownKey (kv : KVStore) (r : Asked) : Display :=
  (kv.getEntry r.name).elim (.response (.notFound (str "Key not found"))) fun e =>
    if r.metadata then .entry r.name e else .value r.name e.value

theorem display_of_reads (hreads : r.Reads raft other) :
    ((KVHandler.get raft r.consistent r.metadata r.name).run
      (fun (_ : Unit) c => ((), kv.shown other c)) ()).2 = shownKey kv r := by
  have hget : kv.get r.name = (kv.getEntry r.name).map (·.value) := rfl
  have hread : ((KVHandler.get false false r.metadata r.name).run
      (fun (_ : Unit) c => ((), kv.shown other c)) ()).2 = shownKey kv r := by
    rw [KVHandler.get, consistentRead, Bool.false_and, if_neg Bool.false_ne_true, shownKey]
    cases r.metadata with
    | false =>
      rw [if_neg Bool.false_ne_true, Program.run_perform_bind]
      dsimp only [KVStore.shown]
      rw [hget]
      cases kv.getEntry r.name <;> rfl
    | true =>
      rw [if_pos rfl, Program.run_perform_bind]
      dsimp only [KVStore.shown]
      cases kv.getEntry r.name <;> rfl
  rw [← hread, KVHandler.get, KVHandler.get, consistentRead, consistentRead, Bool.false_and,
    if_neg Bool.false_ne_true]
  cases hasked : r.consistent && raft with
  | false => rw [if_neg Bool.false_ne_true]
  | true =>
    rw [if_pos rfl, Program.run_perform_bind]
    dsimp only [KVStore.shown]
    rw [hreads hasked]

theorem display_of_not_reads (h : ¬ r.Reads raft other) : ∃ err : GoError,
    ((KVHandler.get raft r.consistent r.metadata r.name).run
      (fun (_ : Unit) c => ((), kv.shown other c)) ()).2 =
      .response (json 503 [(str "error", .text (str "linearizable read failed")),
        (str "detail", .text err.error)]) := by
  obtain ⟨hasked, hfails⟩ := Classical.not_imp.mp h
  obtain ⟨err, herr⟩ := Option.ne_none_iff_exists'.mp hfails
  refine ⟨err, ?_⟩
  rw [KVHandler.get, consistentRead, hasked, if_pos rfl, Program.run_perform_bind]
  dsimp only [KVStore.shown]
  rw [herr]
  rfl

end

/-! ### Agreement -/

section

theorem getKV_of_value (key value : GoString) :
    getKV decodeError ⟨200, (valueJson key value).print⟩ = .ok (some ⟨Utf8.toValid value, 0, 0, 0⟩) := by
  have hfound : ¬ 200 = 404 := by decide
  rw [getKV, if_neg hfound, if_neg (not_not.mpr rfl), unmarshal_valueJson]

/-- Asked for with its metadata, the entry is decoded. -/
theorem getKV_of_entry (key : GoString) (e : KVEntry) :
    getKV decodeError ⟨200, (entryJson key e).print⟩ = .ok (some e.clean) := by
  have hfound : ¬ 200 = 404 := by decide
  rw [getKV, if_neg hfound, if_neg (not_not.mpr rfl), unmarshal_entryJson]

theorem decoded_eq_iff (e e' : KVEntry) :
    Agent.KVLink.decoded e' = e ↔ Utf8.toValid e'.value = e.value ∧
      e.modifyIndex = 0 ∧ e.createIndex = 0 ∧ e.flags = 0 := by
  obtain ⟨value, modifyIndex, createIndex, flags⟩ := e
  simp only [Agent.KVLink.decoded, KVEntry.mk.injEq]
  refine and_congr_right fun _ => ?_
  exact and_congr eq_comm (and_congr eq_comm eq_comm)

theorem clean_eq_iff (e e' : KVEntry) :
    e'.clean = e ↔ Utf8.toValid e'.value = e.value ∧ e'.modifyIndex = e.modifyIndex ∧
      e'.createIndex = e.createIndex ∧ e'.flags = e.flags := by
  obtain ⟨value, modifyIndex, createIndex, flags⟩ := e
  simp only [KVEntry.clean, KVEntry.mk.injEq]

/-- `GetKV` of a key whose request is answered by the handler. -/
theorem getKV_reply (z : Rfc3339.Zone) (errorBody : Response → Bytes) (kv : KVStore)
    (other : (c : StoreCall) → c.Answer) (raft : Bool) (r : Asked) (e : KVEntry) :
    (kv.reply z errorBody other raft r).map (getKV decodeError) = some (.ok (some e)) ↔
      r.Reads raft other ∧ ∃ e', kv.getEntry r.name = some e' ∧
        (if r.metadata then e'.clean else Agent.KVLink.decoded e') = e := by
  by_cases hreads : r.Reads raft other
  · rw [KVStore.reply, display_of_reads hreads, shownKey, and_iff_right hreads]
    cases kv.getEntry r.name with
    | none =>
      constructor
      · exact fun h => nomatch Except.ok.inj (Option.some.inj h)
      · rintro ⟨e', he', -⟩
        cases he'
    | some e' =>
      simp only [Option.elim_some, Option.some.injEq, exists_eq_left']
      cases r.metadata with
      | false =>
        show some (getKV decodeError ⟨200, (valueJson r.name e'.value).print⟩) = _ ↔ _
        rw [getKV_of_value]
        simp [Agent.KVLink.decoded]
      | true =>
        show some (getKV decodeError ⟨200, (entryJson r.name e').print⟩) = _ ↔ _
        rw [getKV_of_entry]
        simp
  · refine iff_of_false (fun h => ?_) fun h => hreads h.1
    obtain ⟨err, hdisplay⟩ := @display_of_not_reads kv _ _ _ hreads
    rw [KVStore.reply, hdisplay] at h
    exact nomatch Option.some.inj h

end

/-- The entry under the name that is asked for shows the entry `e`: its value as text, and the
rest of it if the request asks for that. -/
def Shows (kv : KVStore) (r : Asked) (e : KVEntry) : Prop :=
  ∃ e', kv.getEntry r.name = some e' ∧ Utf8.toValid e'.value = e.value ∧
    if r.metadata then
      e'.modifyIndex = e.modifyIndex ∧ e'.createIndex = e.createIndex ∧ e'.flags = e.flags
    else e.modifyIndex = 0 ∧ e.createIndex = 0 ∧ e.flags = 0

/-- No reply about a service is decoded into its entry, and a reply about a key just when the
path of the request asks for an entry that shows the stored one. -/
theorem decodes_entry_iff (z : Rfc3339.Zone) (errorBody : Response → Bytes)
    (decodeError : Bytes → GoError) (other : (c : StoreCall) → c.Answer)
    (asked : GoString → Option Asked) :
    (∀ (s : ServiceStore) (now : Time) (name : GoString) (e : ServiceEntry),
      s.getEntry now name = some e →
        ((asked name).bind (s.reply z errorBody now other)).map (getService decodeError) ≠
          some (.ok [some e])) ∧
    ∀ (kv : KVStore) (raft : Bool) (key : GoString) (e : KVEntry), kv.getEntry key = some e →
      (((asked key).bind (kv.reply z errorBody other raft)).map (getKV decodeError) =
          some (.ok (some e)) ↔
        ∃ r, asked key = some r ∧ r.Reads raft other ∧ Shows kv r e) := by
  constructor
  · intro s now name e h
    cases asked name with
    | none => exact nofun
    | some r => exact getService_reply_ne z errorBody s now other r [some e]
  · intro kv raft key e h
    cases asked key with
    | none => simp
    | some r =>
      have hshows : Shows kv r e ↔ ∃ e', kv.getEntry r.name = some e' ∧
          (if r.metadata then e'.clean else Agent.KVLink.decoded e') = e := by
        refine exists_congr fun e' => and_congr_right fun _ => ?_
        cases r.metadata with
        | false => simpa using (decoded_eq_iff e e').symm
        | true => simpa using (clean_eq_iff e e').symm
      rw [Option.bind_some, getKV_reply]
      simp only [Option.some.injEq, exists_eq_left', hshows]

def oneEntry : ServiceEntry := ⟨⟨str "web", str "10.0.0.1", 80, [], ∅, []⟩, 10, 1, 1⟩

def oneService : ServiceStore :=
  { ServiceStore.newWithTTL 10 with data := Finmap.singleton (str "web") oneEntry }

/-- The keys `color` and `color?metadata=true`, restored from a snapshot: the second is asked
for by the path of neither. -/
def colors : KVStore :=
  { KVStore.new with
    data := (Finmap.singleton (str "color") ⟨str "red", 0, 0, 0⟩).insert
      (str "color?metadata=true") ⟨str "red", 3, 3, 0⟩ }

/-- The paths of the names used here, as they reach the handlers. -/
def askedFor (name : GoString) : Option Asked :=
  if name = str "color?metadata=true" then some ⟨str "color", false, true⟩ else some (.plain name)

theorem decodes_entry_colors :
    (∀ other : (c : StoreCall) → c.Answer,
      ((askedFor (str "web")).bind (oneService.reply Rfc3339.utc (fun _ => []) 0 other)).map
        (getService fun _ => .text []) ≠ some (.ok [some oneEntry])) ∧
    (∀ other : (c : StoreCall) → c.Answer,
      ((askedFor (str "color")).bind (colors.reply Rfc3339.utc (fun _ => []) other true)).map
        (getKV fun _ => .text []) = some (.ok (some ⟨str "red", 0, 0, 0⟩))) ∧
    ∀ other : (c : StoreCall) → c.Answer,
      ((askedFor (str "color?metadata=true")).bind
        (colors.reply Rfc3339.utc (fun _ => []) other true)).map (getKV fun _ => .text []) ≠
          some (.ok (some ⟨str "red", 3, 3, 0⟩)) := by
  refine ⟨fun other => ?_, fun other => ?_, fun other => ?_⟩
  · exact (decodes_entry_iff Rfc3339.utc (fun _ => []) (fun _ => .text []) other askedFor).1
      oneService 0 (str "web") oneEntry (by decide +kernel)
  · refine ((decodes_entry_iff Rfc3339.utc (fun _ => []) (fun _ => .text []) other askedFor).2
      colors true (str "color") ⟨str "red", 0, 0, 0⟩ (by decide +kernel)).mpr ?_
    exact ⟨.plain (str "color"), by decide, Asked.plain_reads _ _ _,
      ⟨str "red", 0, 0, 0⟩, by decide +kernel, by decide +kernel, rfl, rfl, rfl⟩
  · intro h
    obtain ⟨r, hr, -, e', he', -, hindices⟩ :=
      ((decodes_entry_iff Rfc3339.utc (fun _ => []) (fun _ => .text []) other askedFor).2 colors
        true (str "color?metadata=true") ⟨str "red", 3, 3, 0⟩ (by decide +kernel)).mp h
    cases hr
    have hcolor : colors.getEntry (str "color") = some ⟨str "red", 0, 0, 0⟩ := by decide +kernel
    cases hcolor.symm.trans he'
    exact absurd hindices.1 (by decide)

def redSet : KVStore := KVStore.new.set (str "color") (str "red")

/-- A service is not decoded at all, and of a key its indices are lost. -/
theorem replies_misread :
    redSet.getEntry (str "color") = some ⟨str "red", 1, 1, 0⟩ ∧
    oneService.getEntry 0 (str "web") = some oneEntry ∧
    ∀ (z : Rfc3339.Zone) (errorBody : Response → Bytes) (decodeError : Bytes → GoError)
      (other : (c : StoreCall) → c.Answer),
      (redSet.reply z errorBody other false (.plain (str "color"))).map (getKV decodeError) =
        some (.ok (some ⟨str "red", 0, 0, 0⟩)) ∧
      ∀ entries, (oneService.reply z errorBody 0 other (.plain (str "web"))).map
        (getService decodeError) ≠ some (.ok entries) := by
  have hred : redSet.getEntry (str "color") = some ⟨str "red", 1, 1, 0⟩ := by decide +kernel
  refine ⟨hred, by decide +kernel, fun z errorBody decodeError other => ⟨?_, fun entries => ?_⟩⟩
  · exact (getKV_reply z errorBody redSet other false (.plain (str "color")) _).mpr
      ⟨Asked.plain_reads _ _ _, _, hred, rfl⟩
  · exact getService_reply_ne z errorBody oneService 0 other _ entries

end ServerClient

end Konsul
