import Konsul.Audit.Manager
import Konsul.Lib.Lines
import Konsul.Store.ServiceJson

/-!
# The audit log (internal/audit/types.go, writer.go)

Each event is one line of JSON in a file that is open for appending. `Journal` is the
manager together with the writer of its file. At any moment, also when the process is
killed or the disk is full, the lines of the file are those it had and the first events
written, each whole; once `Shutdown` has returned nil every event accepted is among them.
-/

namespace Konsul.Audit

open GoLib

/-! ### Events as JSON -/

structure Actor where
  id : GoString
  type : GoString
  name : GoString
  roles : List GoString
  tokenID : GoString
  deriving DecidableEq

structure Resource where
  type : GoString
  id : GoString
  namespace_ : GoString
  deriving DecidableEq

/-- The fields of an event that `Record` passes on as they are. -/
structure EventBody where
  action : GoString
  result : GoString
  resource : Resource
  actor : Actor
  sourceIP : GoString
  authMethod : GoString
  httpMethod : GoString
  httpPath : GoString
  httpStatus : ℤ
  traceID : GoString
  spanID : GoString
  requestHash : GoString
  deriving DecidableEq

/-- `Event`, with all its fields. -/
structure EventRecord extends EventBody where
  id : GoString
  timestamp : Time
  metadata : GoMap GoString GoString
  deriving DecidableEq

section Codecs

open Json.Field (of_bounded of_copies copies_of_readsBack bounded_of_codec)

namespace Actor

def empty : Actor := ⟨[], [], [], [], []⟩

def json (a : Actor) : Actor :=
  ⟨jsonString a.id, jsonString a.type, jsonString a.name, a.roles.map jsonString, jsonString a.tokenID⟩

def fields : List (Json.Field Actor) :=
  [.of (str "id") .string List.isEmpty (·.id) (fun a v => { a with id := v }),
    .of (str "type") .string List.isEmpty (·.type) (fun a v => { a with type := v }),
    .of (str "name") .string List.isEmpty (·.name) (fun a v => { a with name := v }),
    .of (str "roles") (.list .string) List.isEmpty (·.roles) (fun a v => { a with roles := v }),
    .of (str "token_id") .string List.isEmpty (·.tokenID) (fun a v => { a with tokenID := v })]

def codec : Json.Codec Actor := .record fields empty

theorem codec_lawful : codec.Lawful json 2 := by
  have hstring := Json.Codec.string_lawful
  have hroles := Json.Codec.list_lawful hstring
  have hbounded : ∀ f ∈ fields, f.Bounded 1 := by
    intro f hf
    simp only [fields, List.mem_cons, List.not_mem_nil, or_false] at hf
    rcases hf with rfl | rfl | rfl | rfl | rfl
    case inr.inr.inr.inl => exact of_bounded hroles le_rfl
    all_goals exact of_bounded hstring (Nat.zero_le 1)
  have hdistinct : Json.Distinct fields :=
    Json.distinct_of_names (["id", "type", "name", "roles", "token_id"].map str) rfl (by decide)
  refine Json.Codec.record_lawful hdistinct hbounded fun a => ?_
  exact ⟨_, of_copies hstring a rfl Json.isEmpty_toValid (fun _ => rfl),
    _, of_copies hstring a rfl Json.isEmpty_toValid (fun _ => rfl),
    _, of_copies hstring a rfl Json.isEmpty_toValid (fun _ => rfl),
    _, of_copies hroles a rfl Json.isEmpty_map (fun _ => rfl),
    _, of_copies hstring a rfl Json.isEmpty_toValid (fun _ => rfl), rfl⟩

end Actor

namespace Resource

def empty : Resource := ⟨[], [], []⟩

def json (r : Resource) : Resource := ⟨jsonString r.type, jsonString r.id, jsonString r.namespace_⟩

def fields : List (Json.Field Resource) :=
  [.of (str "type") .string (fun _ => false) (·.type) (fun r v => { r with type := v }),
    .of (str "id") .string List.isEmpty (·.id) (fun r v => { r with id := v }),
    .of (str "namespace") .string List.isEmpty (·.namespace_) (fun r v => { r with namespace_ := v })]

def codec : Json.Codec Resource := .record fields empty

theorem codec_lawful : codec.Lawful json 1 := by
  have hstring := Json.Codec.string_lawful
  have hbounded : ∀ f ∈ fields, f.Bounded 0 := by
    intro f hf
    simp only [fields, List.mem_cons, List.not_mem_nil, or_false] at hf
    rcases hf with rfl | rfl | rfl <;> exact of_bounded hstring le_rfl
  have hdistinct : Json.Distinct fields :=
    Json.distinct_of_names (["type", "id", "namespace"].map str) rfl (by decide)
  refine Json.Codec.record_lawful hdistinct hbounded fun r => ?_
  exact ⟨_, of_copies hstring r rfl (fun _ h => by cases h) (fun _ => rfl),
    _, of_copies hstring r rfl Json.isEmpty_toValid (fun _ => rfl),
    _, of_copies hstring r rfl Json.isEmpty_toValid (fun _ => rfl), rfl⟩

end Resource

namespace EventRecord

def empty : EventRecord where
  id := []
  timestamp := (Json.Codec.time Rfc3339.utc).zero
  action := []
  result := []
  resource := Resource.empty
  actor := Actor.empty
  sourceIP := []
  authMethod := []
  httpMethod := []
  httpPath := []
  httpStatus := 0
  traceID := []
  spanID := []
  requestHash := []
  metadata := ∅

/-- The event with its texts made valid UTF-8. -/
def json (e : EventRecord) : EventRecord where
  id := jsonString e.id
  timestamp := e.timestamp
  action := jsonString e.action
  result := jsonString e.result
  resource := e.resource.json
  actor := e.actor.json
  sourceIP := jsonString e.sourceIP
  authMethod := jsonString e.authMethod
  httpMethod := jsonString e.httpMethod
  httpPath := jsonString e.httpPath
  httpStatus := e.httpStatus
  traceID := jsonString e.traceID
  spanID := jsonString e.spanID
  requestHash := jsonString e.requestHash
  metadata := jsonMap jsonString e.metadata

def fields (z : Rfc3339.Zone) : List (Json.Field EventRecord) :=
  [.of (str "event_id") .string (fun _ => false) (·.id) (fun e v => { e with id := v }),
    .of (str "timestamp") (.time z) (fun _ => false) (·.timestamp)
      (fun e v => { e with timestamp := v }),
    .of (str "action") .string (fun _ => false) (·.action) (fun e v => { e with action := v }),
    .of (str "result") .string (fun _ => false) (·.result) (fun e v => { e with result := v }),
    .of (str "resource") Resource.codec (fun _ => false) (·.resource)
      (fun e v => { e with resource := v }),
    .of (str "actor") Actor.codec (fun _ => false) (·.actor) (fun e v => { e with actor := v }),
    .of (str "source_ip") .string List.isEmpty (·.sourceIP) (fun e v => { e with sourceIP := v }),
    .of (str "auth_method") .string List.isEmpty (·.authMethod)
      (fun e v => { e with authMethod := v }),
    .of (str "http_method") .string List.isEmpty (·.httpMethod)
      (fun e v => { e with httpMethod := v }),
    .of (str "http_path") .string List.isEmpty (·.httpPath) (fun e v => { e with httpPath := v }),
    .of (str "http_status") .int (· = 0) (·.httpStatus) (fun e v => { e with httpStatus := v }),
    .of (str "trace_id") .string List.isEmpty (·.traceID) (fun e v => { e with traceID := v }),
    .of (str "span_id") .string List.isEmpty (·.spanID) (fun e v => { e with spanID := v }),
    .of (str "request_hash") .string List.isEmpty (·.requestHash)
      (fun e v => { e with requestHash := v }),
    .of (str "metadata") texts Json.Codec.isEmptyMap (·.metadata)
      (fun e v => { e with metadata := v })]

def codec (z : Rfc3339.Zone) : Json.Codec EventRecord := .record (fields z) empty

/-- `json.Marshal(event)` in the time zone `z`, `none` when it returns an error. -/
def marshal (z : Rfc3339.Zone) (e : EventRecord) : Option Bytes :=
  if (Rfc3339.format z e.timestamp).isSome then some ((codec z).marshal e) else none

/-- `json.Unmarshal`, which heeds the zone of the text only. -/
def unmarshal (data : Bytes) : Option EventRecord := (codec Rfc3339.utc).unmarshal data

theorem codec_bounded (z : Rfc3339.Zone) : (codec z).Bounded 3 := by
  have hstring := Json.Codec.string_lawful
  refine Json.Codec.record_bounded fun f hf => ?_
  simp only [fields, List.mem_cons, List.not_mem_nil, or_false] at hf
  rcases hf with rfl | rfl | rfl | rfl | rfl | rfl | rfl | rfl | rfl | rfl | rfl | rfl | rfl | rfl | rfl
  case inr.inl => exact bounded_of_codec (Json.Codec.time_bounded z) (Nat.zero_le 2)
  case inr.inr.inr.inr.inl => exact of_bounded Resource.codec_lawful (by decide)
  case inr.inr.inr.inr.inr.inl => exact of_bounded Actor.codec_lawful le_rfl
  case inr.inr.inr.inr.inr.inr.inr.inr.inr.inr.inl =>
    exact bounded_of_codec Json.Codec.int_bounded (Nat.zero_le 2)
  case inr.inr.inr.inr.inr.inr.inr.inr.inr.inr.inr.inr.inr.inr =>
    exact of_bounded texts_lawful (by decide)
  all_goals exact of_bounded hstring (Nat.zero_le 2)

theorem codec_readsBack {z : Rfc3339.Zone} {e : EventRecord} (hstatus : Json.Codec.IsInt e.httpStatus)
    (htime : (Rfc3339.format z e.timestamp).isSome) : (codec z).ReadsBack e e.json := by
  have hstring := Json.Codec.string_lawful
  have hdistinct : Json.Distinct (fields z) := Json.distinct_of_names
    (["event_id", "timestamp", "action", "result", "resource", "actor", "source_ip", "auth_method",
      "http_method", "http_path", "http_status", "trace_id", "span_id", "request_hash",
      "metadata"].map str) rfl (by decide)
  apply Json.Codec.record_readsBack hdistinct
  exact ⟨_, of_copies hstring e rfl (fun _ h => by cases h) (fun _ => rfl),
    _, copies_of_readsBack (Json.Codec.time_readsBack htime) rfl (fun h => by cases h) (fun _ => rfl),
    _, of_copies hstring e rfl (fun _ h => by cases h) (fun _ => rfl),
    _, of_copies hstring e rfl (fun _ h => by cases h) (fun _ => rfl),
    _, of_copies Resource.codec_lawful e rfl (fun _ h => by cases h) (fun _ => rfl),
    _, of_copies Actor.codec_lawful e rfl (fun _ h => by cases h) (fun _ => rfl),
    _, of_copies hstring e rfl Json.isEmpty_toValid (fun _ => rfl),
    _, of_copies hstring e rfl Json.isEmpty_toValid (fun _ => rfl),
    _, of_copies hstring e rfl Json.isEmpty_toValid (fun _ => rfl),
    _, of_copies hstring e rfl Json.isEmpty_toValid (fun _ => rfl),
    _, copies_of_readsBack (Json.Codec.int_readsBack hstatus) rfl (fun h => of_decide_eq_true h)
      (fun _ => rfl),
    _, of_copies hstring e rfl Json.isEmpty_toValid (fun _ => rfl),
    _, of_copies hstring e rfl Json.isEmpty_toValid (fun _ => rfl),
    _, of_copies hstring e rfl Json.isEmpty_toValid (fun _ => rfl),
    _, of_copies texts_lawful e rfl (fun _ => Json.Codec.jsonMap_of_isEmptyMap) (fun _ => rfl), rfl⟩

/-- The zone of the reading side does not matter. -/
theorem codec_read (z : Rfc3339.Zone) : (codec z).read = (codec Rfc3339.utc).read := by
  have htime : (Json.Codec.time z).read = (Json.Codec.time Rfc3339.utc).read := rfl
  have hset : Json.setField (fields z) = Json.setField (fields Rfc3339.utc) := by
    apply Json.setField_congr
    exact .cons ⟨rfl, rfl⟩ (.cons (Json.Field.of_congr htime _ _ _ _) (List.forall₂_same.mpr
      fun f _ => ⟨rfl, rfl⟩))
  funext e j
  cases j with
  | obj ms =>
    show ms.foldlM (Json.setField (fields z)) e = ms.foldlM (Json.setField (fields Rfc3339.utc)) e
    rw [hset]
  | _ => rfl

/-- An event that is marshalled is read back, its texts made valid UTF-8. -/
theorem unmarshal_marshal {z : Rfc3339.Zone} {e : EventRecord}
    (hstatus : Json.Codec.IsInt e.httpStatus) {data : Bytes} (h : e.marshal z = some data) :
    unmarshal data = some e.json ∧ Plain data := by
  unfold marshal at h
  split_ifs at h with htime
  cases h
  have hback := (codec_bounded z).unmarshal_marshal (by decide) (codec_readsBack hstatus htime)
  have hzero : (codec z).zero = (codec Rfc3339.utc).zero := by
    rw [codec, codec, Json.Codec.record, Json.Codec.record]
  rw [Json.Codec.unmarshal, codec_read, hzero] at hback
  exact ⟨hback, Json.plain_print (codec_bounded z e).1⟩

end EventRecord

end Codecs

/-! ### The writer -/

/-- The event as `run` hands it to the writer. -/
def Event.record (e : Event) (body : EventBody) : EventRecord where
  toEventBody := body
  id := e.id
  timestamp := e.timestamp.getD 0
  metadata := e.metadata.getD ∅

/-- `fileWriter.Write`; the disk has `room` for the payload and `room'` for the newline. -/
def write (z : Rfc3339.Zone) (w : BufferedWriter) (e : EventRecord) (room room' : ℕ) :
    BufferedWriter :=
  match e.marshal z with
  | none => w
  | some payload =>
    let w := w.write payload room
    if w.failed then w else w.writeByte newline room'

/-- What a reader of the file gets of each of its lines. -/
def readLog (file : Bytes) : List (Option EventRecord) := (lines file).map EventRecord.unmarshal

/-- The lines the events are written as; one that cannot be marshalled has none. -/
def payloads (z : Rfc3339.Zone) (es : List EventRecord) : List Bytes := es.filterMap (·.marshal z)

theorem holds_write {z : Rfc3339.Zone} {w : BufferedWriter} {base : Bytes} {es : List EventRecord}
    (h : w.Holds base (unlines (payloads z es))) (e : EventRecord) (room room' : ℕ) :
    (write z w e room room').Holds base (unlines (payloads z (es ++ [e]))) := by
  have hsnoc : payloads z (es ++ [e]) = payloads z es ++ (e.marshal z).toList := by
    rw [payloads, List.filterMap_append]
    cases hpayload : e.marshal z with
    | none => simp [payloads, hpayload]
    | some payload => simp [payloads, hpayload]
  rw [hsnoc, unlines_append]
  unfold write
  cases e.marshal z with
  | none =>
    show w.Holds base (unlines (payloads z es) ++ [])
    rw [List.append_nil]
    exact h
  | some payload =>
    have hline : unlines [payload] = payload ++ [newline] := by simp [unlines]
    have hwritten := h.write payload room
    show (if (w.write payload room).failed then w.write payload room
      else (w.write payload room).writeByte newline room').Holds base
        (unlines (payloads z es) ++ unlines [payload])
    rw [hline, ← List.append_assoc]
    by_cases hfailed : (w.write payload room).failed = true
    · rw [if_pos hfailed]
      exact hwritten.of_failed hfailed [newline]
    · rw [if_neg hfailed]
      exact hwritten.writeByte newline room'

theorem payload_readable {z : Rfc3339.Zone} {es : List EventRecord}
    (hstatus : ∀ e ∈ es, Json.Codec.IsInt e.httpStatus) :
    (∀ w ∈ payloads z es, newline ∉ w) ∧
      (payloads z es).map EventRecord.unmarshal =
        (es.filter fun e => (e.marshal z).isSome).map fun e => some e.json := by
  induction es with
  | nil => exact ⟨fun _ hno => (nomatch hno), rfl⟩
  | cons e es ih =>
    obtain ⟨hlines, hread⟩ := ih fun e' he' => hstatus e' (List.mem_cons_of_mem e he')
    cases hpayload : e.marshal z with
    | none =>
      rw [payloads, List.filterMap_cons_none hpayload, List.filter_cons_of_neg (by simp [hpayload])]
      exact ⟨hlines, hread⟩
    | some payload =>
      obtain ⟨hback, hplain⟩ := EventRecord.unmarshal_marshal (hstatus e (List.mem_cons_self ..)) hpayload
      rw [payloads, List.filterMap_cons_some hpayload, List.filter_cons_of_pos (by simp [hpayload]),
        List.map_cons, List.map_cons, hback]
      exact ⟨List.forall_mem_cons.mpr ⟨hplain.newline_notMem, hlines⟩, congrArg _ hread⟩

/-! ### Every accepted event is sent once -/

namespace Manager

variable {R S : Type} [DecidableEq R] [DecidableEq S] {m : Manager R S}

/-- A step accepts one event of a call that had not been accepted, or none. -/
theorem sent_apply (h : m.Kept) (i : Step R S) :
    ((m.apply i).events.sent = m.events.sent ∧
      ∀ k event, m.records k = .accepted event → (m.apply i).records k = .accepted event) ∨
    ∃ k event, (∀ event', m.records k ≠ .accepted event') ∧
      (m.apply i).events.sent = m.events.sent ++ [(k, event)] ∧
      (m.apply i).records = Function.update m.records k (.accepted event) := by
  have hset (m' : Manager R S) (hm' : m'.records = m.records) {k' : R} (call : RecordCall)
      (hk' : ∀ event, m.records k' ≠ .accepted event) (k : R) (event : Event)
      (hk : m.records k = .accepted event) : (m'.setRecord k' call).records k = .accepted event := by
    have hne : k ≠ k' := by
      intro heq
      exact hk' event (heq ▸ hk)
    simpa [Manager.setRecord, hne, hm'] using hk
  have hsend (k : R) (event : Event) (hk : ∀ event', m.records k ≠ .accepted event') :
      ((m.send k event).events.sent = m.events.sent ∧
        ∀ k' event', m.records k' = .accepted event' → (m.send k event).records k' = .accepted event') ∨
      ∃ k' event', (∀ event'', m.records k' ≠ .accepted event'') ∧
        (m.send k event).events.sent = m.events.sent ++ [(k', event')] ∧
        (m.send k event).records = Function.update m.records k' (.accepted event') := by
    unfold Manager.send
    cases htry : m.events.trySend (k, event) with
    | none => exact .inl ⟨rfl, hset m rfl _ hk⟩
    | some r =>
      obtain ⟨events, accepted⟩ := r
      obtain ⟨-, -, -, hreceived, hbuffer⟩ := Chan.trySend_of_idle h.idle htry
      cases accepted with
      | true =>
        right
        refine ⟨k, event, hk, ?_, rfl⟩
        show events.sent = m.events.sent ++ [(k, event)]
        rw [Chan.sent, Chan.sent, hreceived, hbuffer, if_pos rfl, List.append_assoc]
      | false =>
        have hsame : events.sent = m.events.sent := by
          rw [Chan.sent, Chan.sent, hreceived, hbuffer, if_neg Bool.false_ne_true]
        left
        dsimp only
        split_ifs
        · exact ⟨hsame, hset { m with events } rfl _ hk⟩
        · exact ⟨hsame, hset { m with events } rfl _ hk⟩
  cases i with
  | record k event newID now =>
    simp only [Manager.apply]
    split_ifs with hready
    · have hk : ∀ event', m.records k ≠ .accepted event' := by
        intro event' hno
        rw [hready] at hno
        cases hno
      left
      unfold Manager.record
      rw [if_neg (not_not.mpr h.enabled)]
      cases event with
      | none => exact ⟨rfl, hset m rfl _ hk⟩
      | some event =>
        dsimp only
        split_ifs
        · exact ⟨rfl, hset m rfl _ hk⟩
        · exact ⟨rfl, hset m rfl _ hk⟩
    · exact .inl ⟨rfl, fun _ _ hk => hk⟩
  | send k =>
    simp only [Manager.apply]
    split
    · next event hk => exact hsend k event fun _ hno => by rw [hk] at hno; cases hno
    · next event hk => exact hsend k event fun _ hno => by rw [hk] at hno; cases hno
    · exact .inl ⟨rfl, fun _ _ hk => hk⟩
  | cancel k err =>
    left
    simp only [Manager.apply]
    split
    · next event hk => exact ⟨rfl, hset m rfl _ fun _ hno => by rw [hk] at hno; cases hno⟩
    · exact ⟨rfl, fun _ _ hk => hk⟩
  | receive =>
    left
    simp only [Manager.apply]
    split
    · unfold Manager.receive
      split
      · exact ⟨Chan.receive_sent m.events, fun _ _ hk => hk⟩
      · split_ifs
        · exact ⟨rfl, fun _ _ hk => hk⟩
        · exact ⟨rfl, fun _ _ hk => hk⟩
    · exact ⟨rfl, fun _ _ hk => hk⟩
  | write => exact .inl ⟨rfl, fun _ _ hk => hk⟩
  | shutdown j =>
    left
    simp only [Manager.apply]
    split_ifs <;> exact ⟨rfl, fun _ _ hk => hk⟩
  | closeEvents =>
    left
    simp only [Manager.apply]
    split_ifs
    · unfold Manager.closeEvents
      cases hclose : m.events.close with
      | none => exact ⟨rfl, fun _ _ hk => hk⟩
      | some events =>
        have hsame : events.sent = m.events.sent := by
          unfold Chan.close at hclose
          split_ifs at hclose
          cases hclose
          rfl
        refine ⟨hsame, fun k event hk => ?_⟩
        dsimp only
        rw [hk]
    · exact ⟨rfl, fun _ _ hk => hk⟩
  | finish err =>
    left
    simp only [Manager.apply]
    split_ifs <;> exact ⟨rfl, fun _ _ hk => hk⟩
  | awaited j =>
    left
    simp only [Manager.apply]
    split <;> exact ⟨rfl, fun _ _ hk => hk⟩
  | expire j err =>
    left
    simp only [Manager.apply]
    split_ifs <;> exact ⟨rfl, fun _ _ hk => hk⟩

/-- The channel has every accepted event once, and no other. -/
structure SentOnce (m : Manager R S) : Prop where
  once : (m.events.sent.map Prod.fst).Nodup
  accepted : ∀ p ∈ m.events.sent, m.records p.1 = .accepted p.2

theorem SentOnce.apply (honce : m.SentOnce) (h : m.Kept) (i : Step R S) : (m.apply i).SentOnce := by
  rcases sent_apply h i with ⟨hsent, hkeeps⟩ | ⟨k, event, hnew, hsent, hrecords⟩
  · constructor
    · rw [hsent]
      exact honce.once
    · intro p hp
      rw [hsent] at hp
      exact hkeeps p.1 p.2 (honce.accepted p hp)
  · have hfresh : ∀ p ∈ m.events.sent, p.1 ≠ k := by
      intro p hp heq
      have hp' := honce.accepted p hp
      rw [heq] at hp'
      exact hnew p.2 hp'
    constructor
    · rw [hsent, List.map_append, List.map_singleton, List.nodup_append_comm, List.singleton_append,
        List.nodup_cons]
      refine ⟨fun hmem => ?_, honce.once⟩
      obtain ⟨p, hp, heq⟩ := List.mem_map.mp hmem
      exact hfresh p hp heq
    · intro p hp
      rw [hrecords]
      rw [hsent, List.mem_append, List.mem_singleton] at hp
      rcases hp with hp | rfl
      · rw [Function.update_of_ne (hfresh p hp)]
        exact honce.accepted p hp
      · exact Function.update_self k _ _

end Manager

/-! ### The manager and its file -/

structure Journal (R S : Type) where
  manager : Manager R S
  writer : BufferedWriter

/-- The steps of the manager, with the disk they find; `finish` is the flush and the `Close`
once `run` has ended. -/
inductive Journal.Step (R S : Type) where
  | call (i : Audit.Step R S)
  | write (room room' : ℕ)
  | tick (room : ℕ)
  | receive (room : ℕ)
  | finish (room room' : ℕ) (diskErr : GoError) (closeErr : Option GoError)

namespace Journal

variable {R S : Type} [DecidableEq R] [DecidableEq S] (z : Rfc3339.Zone) (body : R → EventBody)

/-- A manager that appends to `file`; `bufio.NewWriter` has a buffer of 4096 bytes. -/
def start (cfg : Config) (file : Bytes) : Journal R S := ⟨.newManager cfg, .new 4096 file⟩

/-- The events as the writer gets them. -/
def events (ps : List (R × Event)) : List EventRecord := ps.map fun p => p.2.record (body p.1)

def apply (j : Journal R S) : Step R S → Journal R S
  | .call .write => j
  | .call .receive => j
  | .call (.finish _) => j
  | .call i => { j with manager := j.manager.apply i }
  | .write room room' =>
    { manager := j.manager.apply .write
      writer := match j.manager.holding with
        | none => j.writer
        | some (k, event) => Audit.write z j.writer (event.record (body k)) room room' }
  | .tick room =>
    if j.manager.running ∧ j.manager.holding = none then { j with writer := j.writer.flush room }
    else j
  | .receive room =>
    let manager := j.manager.apply .receive
    -- `run` flushes before it leaves its loop
    { manager, writer := if j.manager.running ∧ ¬ manager.running then j.writer.flush room else j.writer }
  | .finish room room' diskErr closeErr =>
    if j.manager.events.closed ∧ ¬ j.manager.running ∧ j.manager.shutdownDone = none then
      let writer := (j.writer.flush room).flush room'
      { manager := j.manager.apply (.finish (if writer.failed then some diskErr else closeErr)), writer }
    else j

def machine : Machine (Journal R S) (Step R S) Unit := ⟨fun j i => (j.apply z body i, ())⟩

/-- The writer has the events written, and the file all of them once the end of the log has
been reported without an error. -/
structure Logs (file : Bytes) (j : Journal R S) : Prop where
  kept : j.manager.Kept
  once : j.manager.SentOnce
  holds : j.writer.Holds file (unlines (payloads z (events body j.manager.written)))
  done : j.manager.shutdownDone = some none →
    j.writer.file = file ++ unlines (payloads z (events body j.manager.written))

omit [DecidableEq R] [DecidableEq S] in
theorem logs_start {cfg : Config} (h : cfg.enabled = true) (file : Bytes) :
    (start cfg file : Journal R S).Logs z body file where
  kept := Manager.kept_newManager cfg h
  once := ⟨List.nodup_nil, fun _ hp => nomatch hp⟩
  holds := BufferedWriter.holds_new 4096 file
  done hdone := nomatch hdone

variable {z body} {file : Bytes} {j : Journal R S}

/-- A step of the manager that neither writes nor ends the log. -/
theorem Logs.call (h : j.Logs z body file) (i : Audit.Step R S)
    (hwritten : (j.manager.apply i).written = j.manager.written)
    (hdone : (j.manager.apply i).shutdownDone = j.manager.shutdownDone) :
    ({ j with manager := j.manager.apply i } : Journal R S).Logs z body file where
  kept := h.kept.apply i
  once := h.once.apply h.kept i
  holds := by
    show j.writer.Holds file (unlines (payloads z (events body (j.manager.apply i).written)))
    rw [hwritten]
    exact h.holds
  done hend := by
    show j.writer.file = file ++ unlines (payloads z (events body (j.manager.apply i).written))
    rw [hwritten]
    exact h.done (hdone ▸ hend)

omit [DecidableEq R] [DecidableEq S] in
/-- A flush before the log has ended. -/
theorem Logs.flush (h : j.Logs z body file) (hdone : j.manager.shutdownDone = none) (room : ℕ) :
    ({ j with writer := j.writer.flush room } : Journal R S).Logs z body file where
  kept := h.kept
  once := h.once
  holds := h.holds.flush room
  done hend := by
    have hnone : j.manager.shutdownDone = some none := hend
    rw [hdone] at hnone
    cases hnone

omit [DecidableEq R] [DecidableEq S] in
theorem Logs.going (h : j.Logs z body file) (hrunning : j.manager.running = true) :
    j.manager.shutdownDone = none := by
  cases hdone : j.manager.shutdownDone with
  | none => rfl
  | some err =>
    have hstopped := h.kept.done err hdone
    rw [hrunning] at hstopped
    cases hstopped

theorem call_written (m : Manager R S) {i : Audit.Step R S} (hwrite : i ≠ .write)
    (hfinish : ∀ err, i ≠ .finish err) :
    (m.apply i).written = m.written ∧ (m.apply i).shutdownDone = m.shutdownDone := by
  cases i with
  | record k event newID now =>
    have hrecord : (m.record k event newID now).written = m.written ∧
        (m.record k event newID now).shutdownDone = m.shutdownDone := by
      unfold Manager.record
      split
      · exact ⟨rfl, rfl⟩
      · split
        · exact ⟨rfl, rfl⟩
        · split_ifs <;> exact ⟨rfl, rfl⟩
    simp only [Manager.apply]
    split
    · exact hrecord
    · exact ⟨rfl, rfl⟩
  | send k =>
    have hsend (event : Event) : (m.send k event).written = m.written ∧
        (m.send k event).shutdownDone = m.shutdownDone := by
      unfold Manager.send
      split
      · exact ⟨rfl, rfl⟩
      · exact ⟨rfl, rfl⟩
      · split_ifs <;> exact ⟨rfl, rfl⟩
    simp only [Manager.apply]
    split
    · exact hsend _
    · exact hsend _
    · exact ⟨rfl, rfl⟩
  | cancel k err =>
    simp only [Manager.apply]
    split <;> exact ⟨rfl, rfl⟩
  | receive =>
    have hreceive : m.receive.written = m.written ∧ m.receive.shutdownDone = m.shutdownDone := by
      unfold Manager.receive
      split
      · exact ⟨rfl, rfl⟩
      · split_ifs <;> exact ⟨rfl, rfl⟩
    simp only [Manager.apply]
    split
    · exact hreceive
    · exact ⟨rfl, rfl⟩
  | write => exact absurd rfl hwrite
  | shutdown s =>
    simp only [Manager.apply]
    split_ifs <;> exact ⟨rfl, rfl⟩
  | closeEvents =>
    simp only [Manager.apply, Manager.closeEvents]
    split_ifs
    · split <;> exact ⟨rfl, rfl⟩
    · exact ⟨rfl, rfl⟩
  | finish err => exact absurd rfl (hfinish err)
  | awaited s =>
    simp only [Manager.apply]
    split <;> exact ⟨rfl, rfl⟩
  | expire s err =>
    simp only [Manager.apply]
    split_ifs <;> exact ⟨rfl, rfl⟩

theorem Logs.passed (h : j.Logs z body file) {i : Audit.Step R S} (hwrite : i ≠ .write)
    (hfinish : ∀ err, i ≠ .finish err) :
    ({ j with manager := j.manager.apply i } : Journal R S).Logs z body file := by
  obtain ⟨hwritten, hdone⟩ := call_written j.manager hwrite hfinish
  exact h.call i hwritten hdone

theorem Logs.write (h : j.Logs z body file) (room room' : ℕ) :
    (j.apply z body (.write room room')).Logs z body file := by
  cases hholding : j.manager.holding with
  | none =>
    have hsame : (j.manager.apply .write).written = j.manager.written := by
      simp only [Manager.apply, hholding, Option.toList_none, List.append_nil]
    have hcall := h.call .write hsame rfl
    simpa only [apply, hholding] using hcall
  | some p =>
    obtain ⟨k, event⟩ := p
    have hgoing : j.manager.shutdownDone = none := by
      apply h.going
      by_contra hstopped
      have hnone := (h.kept.stopped (Bool.eq_false_iff.mpr hstopped)).2.2
      rw [hholding] at hnone
      cases hnone
    have hsnoc : events body (j.manager.apply .write).written =
        events body j.manager.written ++ [event.record (body k)] := by
      simp only [Manager.apply, hholding, Option.toList_some, events, List.map_append, List.map_cons,
        List.map_nil]
    constructor
    · exact h.kept.apply .write
    · exact h.once.apply h.kept .write
    · simp only [apply, hholding, hsnoc]
      exact holds_write h.holds _ room room'
    · intro hend
      have hnone : j.manager.shutdownDone = some none := hend
      rw [hgoing] at hnone
      cases hnone

theorem Logs.receive (h : j.Logs z body file) (room : ℕ) :
    (j.apply z body (.receive room)).Logs z body file := by
  have hwrite : (.receive : Audit.Step R S) ≠ .write := fun hno => nomatch hno
  have hfinish (err : Option GoError) : (.receive : Audit.Step R S) ≠ .finish err := fun hno => nomatch hno
  have hcall := h.passed hwrite hfinish
  simp only [apply]
  split_ifs with hleave
  · exact hcall.flush ((call_written _ hwrite hfinish).2.trans (h.going hleave.1)) room
  · exact hcall

theorem Logs.finish (h : j.Logs z body file) (room room' : ℕ) (diskErr : GoError)
    (closeErr : Option GoError) :
    (j.apply z body (.finish room room' diskErr closeErr)).Logs z body file := by
  have hholds := (h.holds.flush room).flush room'
  have hfinish (err : Option GoError)
      (hready : j.manager.events.closed ∧ ¬ j.manager.running ∧ j.manager.shutdownDone = none) :
      j.manager.apply (.finish err) = { j.manager with shutdownDone := some err } := if_pos hready
  simp only [apply]
  split_ifs with hready hfailed
  · constructor
    · exact h.kept.apply (.finish (some diskErr))
    · exact h.once.apply h.kept (.finish (some diskErr))
    · rw [hfinish _ hready]
      exact hholds
    · intro hend
      rw [hfinish _ hready] at hend
      cases hend
  · constructor
    · exact h.kept.apply (.finish closeErr)
    · exact h.once.apply h.kept (.finish closeErr)
    · rw [hfinish _ hready]
      exact hholds
    · intro _
      rw [hfinish _ hready]
      exact (h.holds.flush room).file_flush (Bool.eq_false_iff.mpr hfailed)
  · exact h

theorem Logs.apply (h : j.Logs z body file) (i : Step R S) : (j.apply z body i).Logs z body file := by
  cases i with
  | call i =>
    cases i with
    | write => exact h
    | receive => exact h
    | finish err => exact h
    | _ => exact h.passed (fun hno => nomatch hno) fun _ hno => nomatch hno
  | write room room' => exact h.write room room'
  | tick room =>
    simp only [Journal.apply]
    split_ifs with hidle
    · exact h.flush (h.going hidle.1) room
    · exact h
  | receive room => exact h.receive room
  | finish room room' diskErr closeErr => exact h.finish room room' diskErr closeErr

omit [DecidableEq R] [DecidableEq S] in
/-- The events written are the first ones sent. -/
theorem Logs.written_le (h : j.Logs z body file) : j.manager.written <+: j.manager.events.sent := by
  rw [Chan.sent, h.kept.taken, List.append_assoc]
  exact List.prefix_append _ _

omit [DecidableEq R] [DecidableEq S] in
/-- When the log has ended without an error, all of them. -/
theorem Logs.written_of_done (h : j.Logs z body file) {err : Option GoError}
    (hdone : j.manager.shutdownDone = some err) : j.manager.written = j.manager.events.sent := by
  obtain ⟨-, hbuffer, hholding⟩ := h.kept.stopped (h.kept.done err hdone)
  rw [Chan.sent, hbuffer, h.kept.taken, hholding, Option.toList_none, List.append_nil,
    List.append_nil]

/-- What the log is to show of the calls `ps`: the events that can be marshalled. -/
def entries (z : Rfc3339.Zone) (body : R → EventBody) (ps : List (R × Event)) : List EventRecord :=
  ((events body ps).filter fun e => (e.marshal z).isSome).map EventRecord.json

omit [DecidableEq R] in
theorem entries_mono {ps qs : List (R × Event)} (h : ps <+: qs) :
    entries z body ps <+: entries z body qs := by
  obtain ⟨rs, rfl⟩ := h
  rw [entries, entries, events, events, List.map_append, List.filter_append, List.map_append]
  exact List.prefix_append _ _

omit [DecidableEq R] in
/-- The lines of a file that goes on from `old` with all the events of `ps`. -/
theorem readLog_entries (hbody : ∀ k, Json.Codec.IsInt (body k).httpStatus) {old : List Bytes}
    (hold : ∀ w ∈ old, newline ∉ w) (ps : List (R × Event)) :
    readLog (unlines old ++ unlines (payloads z (events body ps))) =
      old.map EventRecord.unmarshal ++ (entries z body ps).map some := by
  have hstatus : ∀ e ∈ events body ps, Json.Codec.IsInt e.httpStatus := by
    intro e he
    obtain ⟨p, -, rfl⟩ := List.mem_map.mp he
    exact hbody p.1
  obtain ⟨hlines, hread⟩ := payload_readable (z := z) hstatus
  rw [readLog, lines_unlines_append hold, lines_unlines hlines, List.map_append, hread, entries,
    List.map_map]
  rfl

/-- What the file shows of the events accepted so far, and what it shows at the end. -/
structure Durable (z : Rfc3339.Zone) (body : R → EventBody) (old : List Bytes) (j : Journal R S) :
    Prop where
  accepted : ∀ k event, j.manager.records k = .accepted event ↔ (k, event) ∈ j.manager.events.sent
  once : (j.manager.events.sent.map Prod.fst).Nodup
  crash : ∃ n, readLog j.writer.file =
    old.map EventRecord.unmarshal ++ ((entries z body j.manager.events.sent).take n).map some
  shutdown : ∀ s, j.manager.shutdowns s = .returned none → readLog j.writer.file =
    old.map EventRecord.unmarshal ++ (entries z body j.manager.events.sent).map some

omit [DecidableEq R] [DecidableEq S] in
theorem Logs.durable (hbody : ∀ k, Json.Codec.IsInt (body k).httpStatus) {old : List Bytes}
    (hold : ∀ w ∈ old, newline ∉ w) (h : j.Logs z body (unlines old)) : j.Durable z body old where
  accepted k event :=
    ⟨fun hk => h.kept.accepted k event hk, fun hmem => h.once.accepted (k, event) hmem⟩
  once := h.once.once
  crash := by
    -- the file is between `old` and all that was written
    have hbegun : readLog j.writer.file <+:
        readLog (unlines old ++ unlines (payloads z (events body j.manager.written))) :=
      (lines_mono h.holds.begun).map _
    have hkept : readLog (unlines old) <+: readLog j.writer.file := (lines_mono h.holds.kept).map _
    rw [readLog_entries hbody hold] at hbegun
    rw [readLog, lines_unlines hold] at hkept
    obtain ⟨rest, hrest⟩ := hkept
    rw [← hrest, List.prefix_append_right_inj] at hbegun
    have hall : rest <+: (entries z body j.manager.events.sent).map some :=
      hbegun.trans ((entries_mono h.written_le).map _)
    refine ⟨rest.length, ?_⟩
    rw [← hrest, List.map_take, ← List.prefix_iff_eq_take.mp hall]
  shutdown s hs := by
    have hdone := h.kept.returned s hs
    rw [h.done hdone, readLog_entries hbody hold, h.written_of_done hdone]

theorem logs_run {cfg : Config} (henabled : cfg.enabled = true) (run : List (Step R S)) :
    ((machine z body).run (start cfg file) run).1.Logs z body file :=
  @Machine.invariant_run _ _ _ (machine z body) (fun j => j.Logs z body file)
    (fun _ i h => h.apply i) _ (logs_start z body henabled file) run

/-- At every moment the file has the lines it had and the first of the events accepted, each
once, whole and in order; it has all of them when a `Shutdown` has returned nil. -/
theorem log_durable (z : Rfc3339.Zone) (body : R → EventBody)
    (hbody : ∀ k, Json.Codec.IsInt (body k).httpStatus) (cfg : Config) (henabled : cfg.enabled = true)
    (old : List Bytes) (hold : ∀ w ∈ old, newline ∉ w) (run : List (Step R S)) :
    ((machine z body).run (start cfg (unlines old)) run).1.Durable z body old :=
  (logs_run henabled run).durable hbody hold

def loginBody : EventBody where
  action := str "auth.login"
  result := str "success"
  resource := ⟨str "auth", [], []⟩
  actor := Actor.empty
  sourceIP := []
  authMethod := []
  httpMethod := str "POST"
  httpPath := str "/auth/login"
  httpStatus := 200
  traceID := []
  spanID := []
  requestHash := []

/-- The disk has no room for the second event. -/
def fillDisk : List (Step ℕ ℕ) :=
  [.call (.record 0 (some Manager.login) [] 1), .call (.send 0), .receive 0, .write 0 0, .tick 4096,
    .call (.record 1 (some Manager.login) [] 2), .call (.send 1), .receive 0, .write 0 0, .tick 7]

theorem log_durable_fillDisk :
    ((machine Rfc3339.utc fun _ => loginBody).run (start Manager.defaultConfig (unlines [])) fillDisk).1.Durable
      Rfc3339.utc (fun _ => loginBody) [] :=
  log_durable Rfc3339.utc (fun _ => loginBody) (fun _ => ⟨by decide, by decide⟩) Manager.defaultConfig rfl []
    (fun _ h => absurd h List.not_mem_nil) fillDisk

end Journal

end Konsul.Audit
