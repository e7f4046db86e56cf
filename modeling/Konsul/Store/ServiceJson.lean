import Konsul.Lib.JsonValues
import Konsul.Store.Service

/-!
# Services and their entries as JSON text

A slice or a map that is nil is the empty one here; those with `omitempty` are
left out when they are empty.
-/

namespace Konsul

open GoLib

/-! ### What is read back -/

def CheckDefinition.json (d : CheckDefinition) : CheckDefinition :=
  { id := jsonString d.id
    name := jsonString d.name
    serviceID := jsonString d.serviceID
    http := jsonString d.http
    tcp := jsonString d.tcp
    grpc := jsonString d.grpc
    ttl := jsonString d.ttl
    interval := jsonString d.interval
    timeout := jsonString d.timeout
    method := jsonString d.method
    headers := jsonMap jsonString d.headers
    tlsSkipVerify := d.tlsSkipVerify
    grpcUseTLS := d.grpcUseTLS }

def Service.json (s : Service) : Service :=
  { name := jsonString s.name
    address := jsonString s.address
    port := s.port
    tags := s.tags.map jsonString
    metadata := jsonMap jsonString s.metadata
    checks := s.checks.map CheckDefinition.json }

/-! ### Codecs -/

def texts : Json.Codec (GoMap GoString GoString) := .map .string

namespace CheckDefinition

def empty : CheckDefinition := ⟨[], [], [], [], [], [], [], [], [], [], ∅, false, false⟩

def fields : List (Json.Field CheckDefinition) :=
  [.of (str "id") .string List.isEmpty (·.id) (fun d v => { d with id := v }),
    .of (str "name") .string (fun _ => false) (·.name) (fun d v => { d with name := v }),
    .of (str "service_id") .string List.isEmpty (·.serviceID)
      (fun d v => { d with serviceID := v }),
    .of (str "http") .string List.isEmpty (·.http) (fun d v => { d with http := v }),
    .of (str "tcp") .string List.isEmpty (·.tcp) (fun d v => { d with tcp := v }),
    .of (str "grpc") .string List.isEmpty (·.grpc) (fun d v => { d with grpc := v }),
    .of (str "ttl") .string List.isEmpty (·.ttl) (fun d v => { d with ttl := v }),
    .of (str "interval") .string List.isEmpty (·.interval) (fun d v => { d with interval := v }),
    .of (str "timeout") .string List.isEmpty (·.timeout) (fun d v => { d with timeout := v }),
    .of (str "method") .string List.isEmpty (·.method) (fun d v => { d with method := v }),
    .of (str "headers") texts Json.Codec.isEmptyMap (·.headers)
      (fun d v => { d with headers := v }),
    .of (str "tls_skip_verify") .bool not (·.tlsSkipVerify)
      (fun d v => { d with tlsSkipVerify := v }),
    .of (str "grpc_use_tls") .bool not (·.grpcUseTLS) (fun d v => { d with grpcUseTLS := v })]

def codec : Json.Codec CheckDefinition := .record fields empty

end CheckDefinition

namespace Service

def empty : Service := ⟨[], [], 0, [], ∅, []⟩

def fields : List (Json.Field Service) :=
  [.of (str "name") .string (fun _ => false) (·.name) (fun s v => { s with name := v }),
    .of (str "address") .string (fun _ => false) (·.address) (fun s v => { s with address := v }),
    .of (str "port") .int (fun _ => false) (·.port) (fun s v => { s with port := v }),
    .of (str "tags") (.list .string) List.isEmpty (·.tags) (fun s v => { s with tags := v }),
    .of (str "meta") texts Json.Codec.isEmptyMap (·.metadata)
      (fun s v => { s with metadata := v }),
    .of (str "checks") (.list CheckDefinition.codec) List.isEmpty (·.checks)
      (fun s v => { s with checks := v })]

def codec : Json.Codec Service := .record fields empty

end Service

namespace ServiceEntry

def fields (z : Rfc3339.Zone) : List (Json.Field ServiceEntry) :=
  [.of (str "service") Service.codec (fun _ => false) (·.service)
      (fun e v => { e with service := v }),
    .of (str "expires_at") (.time z) (fun _ => false) (·.expiresAt)
      (fun e v => { e with expiresAt := v }),
    .of (str "modify_index") .uint64 (fun _ => false) (·.modifyIndex)
      (fun e v => { e with modifyIndex := v }),
    .of (str "create_index") .uint64 (fun _ => false) (·.createIndex)
      (fun e v => { e with createIndex := v })]

/-- The zero value, whose expiry is the zero time. -/
def empty : ServiceEntry := ⟨Service.empty, (Json.Codec.time Rfc3339.utc).zero, 0, 0⟩

def codec (z : Rfc3339.Zone) : Json.Codec ServiceEntry := .record (fields z) empty

/-- `json.Marshal(entry)`; `z` is the time zone of the node. -/
def marshal (z : Rfc3339.Zone) (e : ServiceEntry) : Except GoError Bytes :=
  match Rfc3339.format z e.expiresAt with
  | some _ => .ok ((codec z).marshal e)
  | none => .error (.text (str
      "json: error calling MarshalJSON for type time.Time: Time.MarshalJSON: year outside of range [0,9999]"))

/-- `json.Unmarshal(data, &entry)`, which heeds the zone of the text only. -/
def unmarshal (data : Bytes) : Option ServiceEntry := (codec Rfc3339.utc).unmarshal data

/-- The entry with its texts made valid UTF-8. -/
def json (e : ServiceEntry) : ServiceEntry := { e with service := e.service.json }

end ServiceEntry

/-! ### Round trip -/

section RoundTrip

open Json.Field (of_bounded of_copies copies_of_readsBack bounded_of_codec)

theorem texts_lawful : texts.Lawful (jsonMap jsonString) 1 :=
  Json.Codec.map_lawful Json.Codec.string_lawful

theorem not_eq_true (b : Bool) (h : not b) : id b = false := by
  cases b
  · rfl
  · cases h

theorem CheckDefinition.codec_lawful : CheckDefinition.codec.Lawful CheckDefinition.json 2 := by
  have hstring := Json.Codec.string_lawful
  have hbool := Json.Codec.bool_lawful
  have hbounded : ∀ f ∈ fields, f.Bounded 1 := by
    intro f hf
    simp only [fields, List.mem_cons, List.not_mem_nil, or_false] at hf
    rcases hf with rfl | rfl | rfl | rfl | rfl | rfl | rfl | rfl | rfl | rfl | rfl | rfl | rfl
    case inr.inr.inr.inr.inr.inr.inr.inr.inr.inr.inl => exact of_bounded texts_lawful le_rfl
    all_goals first
      | exact of_bounded hstring (Nat.zero_le 1)
      | exact of_bounded hbool (Nat.zero_le 1)
  have hdistinct : Json.Distinct fields := Json.distinct_of_names
    (["id", "name", "service_id", "http", "tcp", "grpc", "ttl", "interval", "timeout", "method",
      "headers", "tls_skip_verify", "grpc_use_tls"].map str) rfl (by decide)
  refine Json.Codec.record_lawful hdistinct hbounded fun d => ?_
  refine ⟨_, of_copies hstring d rfl Json.isEmpty_toValid (fun _ => rfl), ?_⟩
  refine ⟨_, of_copies hstring d rfl (fun _ h => by cases h) (fun _ => rfl), ?_⟩
  refine ⟨_, of_copies hstring d rfl Json.isEmpty_toValid (fun _ => rfl), ?_⟩
  refine ⟨_, of_copies hstring d rfl Json.isEmpty_toValid (fun _ => rfl), ?_⟩
  refine ⟨_, of_copies hstring d rfl Json.isEmpty_toValid (fun _ => rfl), ?_⟩
  refine ⟨_, of_copies hstring d rfl Json.isEmpty_toValid (fun _ => rfl), ?_⟩
  refine ⟨_, of_copies hstring d rfl Json.isEmpty_toValid (fun _ => rfl), ?_⟩
  refine ⟨_, of_copies hstring d rfl Json.isEmpty_toValid (fun _ => rfl), ?_⟩
  refine ⟨_, of_copies hstring d rfl Json.isEmpty_toValid (fun _ => rfl), ?_⟩
  refine ⟨_, of_copies hstring d rfl Json.isEmpty_toValid (fun _ => rfl), ?_⟩
  refine ⟨_, of_copies texts_lawful d rfl (fun _ => Json.Codec.jsonMap_of_isEmptyMap) (fun _ => rfl), ?_⟩
  refine ⟨_, of_copies hbool d rfl not_eq_true (fun _ => rfl), ?_⟩
  refine ⟨_, of_copies hbool d rfl not_eq_true (fun _ => rfl), ?_⟩
  rfl

namespace Service

theorem codec_bounded : codec.Bounded 4 := by
  refine Json.Codec.record_bounded fun f hf => ?_
  simp only [fields, List.mem_cons, List.not_mem_nil, or_false] at hf
  rcases hf with rfl | rfl | rfl | rfl | rfl | rfl
  · exact of_bounded Json.Codec.string_lawful (Nat.zero_le 3)
  · exact of_bounded Json.Codec.string_lawful (Nat.zero_le 3)
  · exact bounded_of_codec Json.Codec.int_bounded (Nat.zero_le 3)
  · exact of_bounded (Json.Codec.list_lawful Json.Codec.string_lawful) (by decide)
  · exact of_bounded texts_lawful (by decide)
  · exact of_bounded (Json.Codec.list_lawful CheckDefinition.codec_lawful) le_rfl

theorem codec_readsBack {s : Service} (hport : Json.Codec.IsInt s.port) :
    codec.ReadsBack s s.json := by
  have hstring := Json.Codec.string_lawful
  have htags := Json.Codec.list_lawful hstring
  have hchecks := Json.Codec.list_lawful CheckDefinition.codec_lawful
  have hdistinct : Json.Distinct fields := Json.distinct_of_names
    (["name", "address", "port", "tags", "meta", "checks"].map str) rfl (by decide)
  refine Json.Codec.record_readsBack hdistinct ?_
  refine ⟨_, of_copies hstring s rfl (fun _ h => nomatch h) (fun _ => rfl), ?_⟩
  refine ⟨_, of_copies hstring s rfl (fun _ h => nomatch h) (fun _ => rfl), ?_⟩
  refine ⟨_, copies_of_readsBack (Json.Codec.int_readsBack hport) rfl (fun h => nomatch h) (fun _ => rfl), ?_⟩
  refine ⟨_, of_copies htags s rfl Json.isEmpty_map (fun _ => rfl), ?_⟩
  refine ⟨_, of_copies texts_lawful s rfl (fun _ => Json.Codec.jsonMap_of_isEmptyMap) (fun _ => rfl), ?_⟩
  refine ⟨_, of_copies hchecks s rfl Json.isEmpty_map (fun _ => rfl), ?_⟩
  rfl

end Service

namespace ServiceEntry

/-- The zone of the reading node does not matter. -/
theorem codec_read (z : Rfc3339.Zone) : (codec z).read = (codec Rfc3339.utc).read := by
  have htime : (Json.Codec.time z).read = (Json.Codec.time Rfc3339.utc).read := rfl
  have hset : Json.setField (fields z) = Json.setField (fields Rfc3339.utc) := by
    refine Json.setField_congr (.cons ⟨rfl, rfl⟩ (.cons ?_ (.cons ⟨rfl, rfl⟩ (.cons ⟨rfl, rfl⟩ .nil))))
    exact Json.Field.of_congr htime _ _ _ _
  funext e j
  cases j with
  | obj ms =>
    show ms.foldlM (Json.setField (fields z)) e = ms.foldlM (Json.setField (fields Rfc3339.utc)) e
    rw [hset]
  | _ => rfl

/-- An entry that is marshalled is read back, its texts made valid UTF-8. -/
theorem unmarshal_marshal {z : Rfc3339.Zone} {e : ServiceEntry}
    (hport : Json.Codec.IsInt e.service.port) {data : Bytes} (h : e.marshal z = .ok data) :
    unmarshal data = some e.json := by
  unfold marshal at h
  cases hformat : Rfc3339.format z e.expiresAt with
  | none =>
    rw [hformat] at h
    cases h
  | some text =>
    rw [hformat] at h
    cases h
    have hbounded : (codec z).Bounded 5 := by
      refine Json.Codec.record_bounded fun f hf => ?_
      simp only [fields, List.mem_cons, List.not_mem_nil, or_false] at hf
      rcases hf with rfl | rfl | rfl | rfl
      · exact bounded_of_codec Service.codec_bounded le_rfl
      · exact bounded_of_codec (Json.Codec.time_bounded z) (Nat.zero_le 4)
      · exact of_bounded Json.Codec.uint64_lawful (Nat.zero_le 4)
      · exact of_bounded Json.Codec.uint64_lawful (Nat.zero_le 4)
    have hdistinct : Json.Distinct (fields z) := Json.distinct_of_names
      (["service", "expires_at", "modify_index", "create_index"].map str) rfl (by decide)
    have hread : (codec z).ReadsBack e e.json := by
      have htime : (Rfc3339.format z e.expiresAt).isSome := by rw [hformat]; rfl
      refine Json.Codec.record_readsBack hdistinct ?_
      refine ⟨_, copies_of_readsBack (Service.codec_readsBack hport) rfl (fun h => by cases h) (fun _ => rfl),
        ?_⟩
      refine ⟨_, copies_of_readsBack (Json.Codec.time_readsBack htime) rfl (fun h => by cases h)
        (fun _ => rfl), ?_⟩
      refine ⟨_, of_copies Json.Codec.uint64_lawful e rfl (fun _ h => by cases h) (fun _ => rfl), ?_⟩
      refine ⟨_, of_copies Json.Codec.uint64_lawful e rfl (fun _ h => by cases h) (fun _ => rfl), ?_⟩
      rfl
    have hback := hbounded.unmarshal_marshal (by decide) hread
    have hzero : (codec z).zero = (codec Rfc3339.utc).zero := by
      rw [codec, codec, Json.Codec.record, Json.Codec.record]
    rw [Json.Codec.unmarshal, codec_read, hzero] at hback
    exact hback

end ServiceEntry

end RoundTrip

end Konsul
