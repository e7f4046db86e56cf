import Konsul.Raft.Node

/-!
# Log entries

`NewCommand` marshals a payload, and `Marshal` the command with the payload as
base64 text in it. `decode` is what `Apply` makes of a log entry: the command with
its strings made valid UTF-8, which is `Command.json`.
-/

namespace Konsul

open GoLib

/-! ### Command types -/

inductive CommandType where
  | kvSet
  | kvSetWithFlags
  | kvSetCAS
  | kvDelete
  | kvDeleteCAS
  | kvBatchSet
  | kvBatchSetCAS
  | kvBatchDelete
  | kvBatchDeleteCAS
  | serviceRegister
  | serviceRegisterCAS
  | serviceDeregister
  | serviceDeregisterCAS
  | serviceHeartbeat
  | healthTTLUpdate
  deriving DecidableEq

namespace CommandType

/-- In the order of the constants. -/
def all : List CommandType :=
  [kvSet, kvSetWithFlags, kvSetCAS, kvDelete, kvDeleteCAS, kvBatchSet, kvBatchSetCAS, kvBatchDelete,
    kvBatchDeleteCAS, serviceRegister, serviceRegisterCAS, serviceDeregister, serviceDeregisterCAS,
    serviceHeartbeat, healthTTLUpdate]

def code (type : CommandType) : UInt8 := UInt8.ofNat (all.idxOf type)

def ofCode (n : UInt8) : Option CommandType := all[n.toNat]?

theorem ofCode_code (type : CommandType) : ofCode type.code = some type := by
  cases type <;> rfl

end CommandType

/-! ### Payloads -/

namespace Payload

open Json (Codec)

def kvSetPayload : Codec (GoString × GoString) := .two (str "key") .string (str "value") .string

def kvSetWithFlagsPayload : Codec (GoString × GoString × UInt64) :=
  .three (str "key") .string (str "value") .string (str "flags") .uint64

def kvSetCASPayload : Codec (GoString × GoString × UInt64) :=
  .three (str "key") .string (str "value") .string (str "expected_index") .uint64

def kvDeletePayload : Codec GoString := .one (str "key") .string

def kvDeleteCASPayload : Codec (GoString × UInt64) :=
  .two (str "key") .string (str "expected_index") .uint64

def kvBatchSetPayload : Codec (GoMap GoString GoString) := .one (str "items") texts

def kvBatchSetCASPayload : Codec (GoMap GoString GoString × GoMap GoString UInt64) :=
  .two (str "items") texts (str "expected_indices") (.map .uint64)

def kvBatchDeletePayload : Codec (List GoString) := .one (str "keys") (.list .string)

def kvBatchDeleteCASPayload : Codec (List GoString × GoMap GoString UInt64) :=
  .two (str "keys") (.list .string) (str "expected_indices") (.map .uint64)

def serviceRegisterPayload : Codec Service := .one (str "service") Service.codec

def serviceRegisterCASPayload : Codec (Service × UInt64) :=
  .two (str "service") Service.codec (str "expected_index") .uint64

def serviceDeregisterPayload : Codec GoString := .one (str "name") .string

def serviceDeregisterCASPayload : Codec (GoString × UInt64) :=
  .two (str "name") .string (str "expected_index") .uint64

def serviceHeartbeatPayload : Codec GoString := .one (str "name") .string

def healthTTLUpdatePayload : Codec GoString := .one (str "check_id") .string

end Payload

/-! ### Commands -/

/-- `Command` of the source. -/
structure WireCommand where
  type : UInt8
  timestamp : ℤ
  payload : Bytes

namespace WireCommand

def empty : WireCommand := ⟨0, 0, []⟩

def fields : List (Json.Field WireCommand) :=
  [.of (str "type") .uint8 (fun _ => false) (·.type) (fun c v => { c with type := v }),
    .of (str "timestamp") .int (fun _ => false) (·.timestamp) (fun c v => { c with timestamp := v }),
    .of (str "payload") .bytes (fun _ => false) (·.payload) (fun c v => { c with payload := v })]

def codec : Json.Codec WireCommand := .record fields empty

/-- `Marshal`. -/
def marshal (c : WireCommand) : Bytes := codec.marshal c

/-- `UnmarshalCommand`. -/
def unmarshal (data : Bytes) : Option WireCommand := codec.unmarshal data

theorem unmarshal_marshal {c : WireCommand} (h : Json.Codec.IsInt c.timestamp) :
    unmarshal c.marshal = some c := by
  have hbounded : codec.Bounded 1 := by
    refine Json.Codec.record_bounded fun f hf => ?_
    simp only [fields, List.mem_cons, List.not_mem_nil, or_false] at hf
    rcases hf with rfl | rfl | rfl
    · exact Json.Field.of_bounded Json.Codec.uint8_lawful le_rfl
    · exact Json.Field.bounded_of_codec Json.Codec.int_bounded le_rfl
    · exact Json.Field.of_bounded Json.Codec.bytes_lawful le_rfl
  have hdistinct : Json.Distinct fields :=
    Json.distinct_of_names (["type", "timestamp", "payload"].map str) rfl (by decide)
  have hread : codec.ReadsBack c c := by
    refine Json.Codec.record_readsBack hdistinct ?_
    refine ⟨_, Json.Field.of_copies Json.Codec.uint8_lawful c rfl (fun _ h => by cases h) (fun _ => rfl), ?_⟩
    refine ⟨_, Json.Field.copies_of_readsBack (Json.Codec.int_readsBack h) rfl (fun h => by cases h)
      (fun _ => rfl), ?_⟩
    exact ⟨_, Json.Field.of_copies Json.Codec.bytes_lawful c rfl (fun _ h => by cases h) (fun _ => rfl), rfl⟩
  exact hbounded.unmarshal_marshal (by decide) hread

end WireCommand

/-- `NewCommand` at the Unix time `timestamp`. -/
def newCommand {α : Type} (type : CommandType) (c : Json.Codec α) (payload : α) (timestamp : ℤ) :
    WireCommand :=
  ⟨type.code, timestamp, c.marshal payload⟩

open Payload

def KVCommand.wire (timestamp : ℤ) : KVCommand → WireCommand
  | .set key value => newCommand .kvSet kvSetPayload (key, value) timestamp
  | .setWithFlags key value flags =>
    newCommand .kvSetWithFlags kvSetWithFlagsPayload (key, value, flags) timestamp
  | .setCAS key value expectedIndex =>
    newCommand .kvSetCAS kvSetCASPayload (key, value, expectedIndex) timestamp
  | .delete key => newCommand .kvDelete kvDeletePayload key timestamp
  | .deleteCAS key expectedIndex =>
    newCommand .kvDeleteCAS kvDeleteCASPayload (key, expectedIndex) timestamp
  | .batchSet items => newCommand .kvBatchSet kvBatchSetPayload items timestamp
  | .batchSetCAS items expectedIndices =>
    newCommand .kvBatchSetCAS kvBatchSetCASPayload (items, expectedIndices) timestamp
  | .batchDelete keys => newCommand .kvBatchDelete kvBatchDeletePayload keys timestamp
  | .batchDeleteCAS keys expectedIndices =>
    newCommand .kvBatchDeleteCAS kvBatchDeleteCASPayload (keys, expectedIndices) timestamp

def ServiceCommand.wire (timestamp : ℤ) : ServiceCommand → WireCommand
  | .register service => newCommand .serviceRegister serviceRegisterPayload service timestamp
  | .registerCAS service expectedIndex =>
    newCommand .serviceRegisterCAS serviceRegisterCASPayload (service, expectedIndex) timestamp
  | .deregister name => newCommand .serviceDeregister serviceDeregisterPayload name timestamp
  | .deregisterCAS name expectedIndex =>
    newCommand .serviceDeregisterCAS serviceDeregisterCASPayload (name, expectedIndex) timestamp
  | .heartbeat name => newCommand .serviceHeartbeat serviceHeartbeatPayload name timestamp
  | .ttlUpdate checkID => newCommand .healthTTLUpdate healthTTLUpdatePayload checkID timestamp

/-! ### Decoding -/

section Decode

-- the error of `encoding/json` for a text it does not decode
variable (jsonError : Bytes → GoError)

/-- A payload that does not decode is answered by an error that names it. -/
def decodePayload {α : Type} (c : Json.Codec α) (name : GoString) (answer : GoError → FsmResponse)
    (command : α → Command) (payload : Bytes) : Command :=
  match c.unmarshal payload with
  | some p => command p
  | none =>
    .undecodable (answer (.wrap (str "failed to unmarshal " ++ name) (jsonError payload)))

def errAnswer (err : GoError) : FsmResponse := .err (some err)

def casAnswer (err : GoError) : FsmResponse := .cas ⟨0, ∅, some err⟩

def CommandType.decode : CommandType → Bytes → Command
  | kvSet => decodePayload jsonError kvSetPayload (str "KVSetPayload") errAnswer
      fun p => .kv (.set p.1 p.2)
  | kvSetWithFlags =>
    decodePayload jsonError kvSetWithFlagsPayload (str "KVSetWithFlagsPayload") errAnswer
      fun p => .kv (.setWithFlags p.1 p.2.1 p.2.2)
  | kvSetCAS => decodePayload jsonError kvSetCASPayload (str "KVSetCASPayload") casAnswer
      fun p => .kv (.setCAS p.1 p.2.1 p.2.2)
  | kvDelete => decodePayload jsonError kvDeletePayload (str "KVDeletePayload") errAnswer
      fun p => .kv (.delete p)
  | kvDeleteCAS => decodePayload jsonError kvDeleteCASPayload (str "KVDeleteCASPayload") casAnswer
      fun p => .kv (.deleteCAS p.1 p.2)
  | kvBatchSet => decodePayload jsonError kvBatchSetPayload (str "KVBatchSetPayload") errAnswer
      fun p => .kv (.batchSet p)
  | kvBatchSetCAS =>
    decodePayload jsonError kvBatchSetCASPayload (str "KVBatchSetCASPayload") casAnswer
      fun p => .kv (.batchSetCAS p.1 p.2)
  | kvBatchDelete =>
    decodePayload jsonError kvBatchDeletePayload (str "KVBatchDeletePayload") errAnswer
      fun p => .kv (.batchDelete p)
  | kvBatchDeleteCAS =>
    decodePayload jsonError kvBatchDeleteCASPayload (str "KVBatchDeleteCASPayload") casAnswer
      fun p => .kv (.batchDeleteCAS p.1 p.2)
  | serviceRegister =>
    decodePayload jsonError serviceRegisterPayload (str "ServiceRegisterPayload") errAnswer
      fun p => .service (.register p)
  | serviceRegisterCAS =>
    decodePayload jsonError serviceRegisterCASPayload (str "ServiceRegisterCASPayload") casAnswer
      fun p => .service (.registerCAS p.1 p.2)
  | serviceDeregister =>
    decodePayload jsonError serviceDeregisterPayload (str "ServiceDeregisterPayload") errAnswer
      fun p => .service (.deregister p)
  | serviceDeregisterCAS =>
    decodePayload jsonError serviceDeregisterCASPayload (str "ServiceDeregisterCASPayload") casAnswer
      fun p => .service (.deregisterCAS p.1 p.2)
  | serviceHeartbeat =>
    decodePayload jsonError serviceHeartbeatPayload (str "ServiceHeartbeatPayload") errAnswer
      fun p => .service (.heartbeat p)
  | healthTTLUpdate =>
    decodePayload jsonError healthTTLUpdatePayload (str "HealthTTLUpdatePayload") errAnswer
      fun p => .service (.ttlUpdate p)

/-- The command of a log entry, as `Apply` finds it. -/
def FSM.decode (data : Bytes) : Command :=
  match WireCommand.unmarshal data with
  | none =>
    .undecodable (errAnswer (.wrap (str "failed to unmarshal command") (jsonError data)))
  | some cmd =>
    match CommandType.ofCode cmd.type with
    | none =>
      .undecodable (errAnswer (.text (str "unknown command type: " ++ number cmd.type.toNat)))
    | some type => type.decode jsonError cmd.payload

/-! ### Round trip -/

variable {jsonError}

theorem decodePayload_marshal {α : Type} {c : Json.Codec α} {depth : ℕ} (hbounded : c.Bounded depth)
    (hdepth : depth ≤ Json.maxNestingDepth) {a a' : α} (hread : c.ReadsBack a a') (name : GoString)
    (answer : GoError → FsmResponse) (command : α → Command) :
    decodePayload jsonError c name answer command (c.marshal a) = command a' := by
  rw [decodePayload, hbounded.unmarshal_marshal hdepth hread]

theorem decode_newCommand {α : Type} (type : CommandType) (c : Json.Codec α) (a : α) {timestamp : ℤ}
    (h : Json.Codec.IsInt timestamp) :
    FSM.decode jsonError (newCommand type c a timestamp).marshal =
      type.decode jsonError (c.marshal a) := by
  have hcommand : WireCommand.unmarshal (newCommand type c a timestamp).marshal =
      some (newCommand type c a timestamp) := WireCommand.unmarshal_marshal h
  rw [FSM.decode, hcommand]
  dsimp only
  rw [newCommand, CommandType.ofCode_code]

section Pieces

open Json.Codec

theorem string_reads (s : GoString) : string.ReadsBack s (jsonString s) := string_lawful.read_write s

theorem uint64_reads (n : UInt64) : uint64.ReadsBack n n := uint64_lawful.read_write n

theorem texts_reads (m : GoMap GoString GoString) : texts.ReadsBack m (jsonMap jsonString m) :=
  texts_lawful.read_write m

theorem keys_reads (keys : List GoString) : (list string).ReadsBack keys (keys.map jsonString) :=
  (list_lawful string_lawful).read_write keys

theorem indices_reads (m : GoMap GoString UInt64) : (map uint64).ReadsBack m (jsonMap id m) :=
  (map_lawful uint64_lawful).read_write m

end Pieces

theorem KVCommand.decode_wire (c : KVCommand) {timestamp : ℤ} (h : Json.Codec.IsInt timestamp) :
    FSM.decode jsonError (c.wire timestamp).marshal = .kv c.json := by
  have hstring := Json.Codec.string_lawful.bounded
  have huint := Json.Codec.uint64_lawful.bounded
  have htexts := texts_lawful.bounded
  have hkeys := (Json.Codec.list_lawful Json.Codec.string_lawful).bounded
  have hindices := (Json.Codec.map_lawful Json.Codec.uint64_lawful).bounded
  cases c with
  | set key value =>
    rw [wire, decode_newCommand _ _ _ h]
    exact decodePayload_marshal (Json.Codec.two_bounded hstring hstring) (by decide)
      (Json.Codec.two_readsBack (by decide) (string_reads key) (string_reads value)) _ _ _
  | setWithFlags key value flags =>
    rw [wire, decode_newCommand _ _ _ h]
    exact decodePayload_marshal (Json.Codec.three_bounded hstring hstring huint) (by decide)
      (Json.Codec.three_readsBack (by decide) (string_reads key) (string_reads value)
        (uint64_reads flags)) _ _ _
  | setCAS key value expectedIndex =>
    rw [wire, decode_newCommand _ _ _ h]
    exact decodePayload_marshal (Json.Codec.three_bounded hstring hstring huint) (by decide)
      (Json.Codec.three_readsBack (by decide) (string_reads key) (string_reads value)
        (uint64_reads expectedIndex)) _ _ _
  | delete key =>
    rw [wire, decode_newCommand _ _ _ h]
    exact decodePayload_marshal (Json.Codec.one_bounded hstring) (by decide)
      (Json.Codec.one_readsBack (by decide) (string_reads key)) _ _ _
  | deleteCAS key expectedIndex =>
    rw [wire, decode_newCommand _ _ _ h]
    exact decodePayload_marshal (Json.Codec.two_bounded hstring huint) (by decide)
      (Json.Codec.two_readsBack (by decide) (string_reads key) (uint64_reads expectedIndex)) _ _ _
  | batchSet items =>
    rw [wire, decode_newCommand _ _ _ h]
    exact decodePayload_marshal (Json.Codec.one_bounded htexts) (by decide)
      (Json.Codec.one_readsBack (by decide) (texts_reads items)) _ _ _
  | batchSetCAS items expectedIndices =>
    rw [wire, decode_newCommand _ _ _ h]
    exact decodePayload_marshal (Json.Codec.two_bounded htexts hindices) (by decide)
      (Json.Codec.two_readsBack (by decide) (texts_reads items) (indices_reads expectedIndices)) _ _ _
  | batchDelete keys =>
    rw [wire, decode_newCommand _ _ _ h]
    exact decodePayload_marshal (Json.Codec.one_bounded hkeys) (by decide)
      (Json.Codec.one_readsBack (by decide) (keys_reads keys)) _ _ _
  | batchDeleteCAS keys expectedIndices =>
    rw [wire, decode_newCommand _ _ _ h]
    exact decodePayload_marshal (Json.Codec.two_bounded hkeys hindices) (by decide)
      (Json.Codec.two_readsBack (by decide) (keys_reads keys) (indices_reads expectedIndices)) _ _ _

/-- The port of a registration is an `int`. -/
def ServiceCommand.Typed : ServiceCommand → Prop
  | .register service => Json.Codec.IsInt service.port
  | .registerCAS service _ => Json.Codec.IsInt service.port
  | _ => True

theorem ServiceCommand.decode_wire {c : ServiceCommand} (hc : c.Typed) {timestamp : ℤ}
    (h : Json.Codec.IsInt timestamp) :
    FSM.decode jsonError (c.wire timestamp).marshal = .service c.json := by
  have hstring := Json.Codec.string_lawful.bounded
  have huint := Json.Codec.uint64_lawful.bounded
  have hservice := Service.codec_bounded
  cases c with
  | register service =>
    rw [wire, decode_newCommand _ _ _ h]
    exact decodePayload_marshal (Json.Codec.one_bounded hservice) (by decide)
      (Json.Codec.one_readsBack (by decide) (Service.codec_readsBack hc)) _ _ _
  | registerCAS service expectedIndex =>
    rw [wire, decode_newCommand _ _ _ h]
    exact decodePayload_marshal
      (Json.Codec.two_bounded hservice (Json.Codec.Bounded.mono huint (Nat.zero_le _))) (by decide)
      (Json.Codec.two_readsBack (by decide) (Service.codec_readsBack hc)
        (uint64_reads expectedIndex)) _ _ _
  | deregister name =>
    rw [wire, decode_newCommand _ _ _ h]
    exact decodePayload_marshal (Json.Codec.one_bounded hstring) (by decide)
      (Json.Codec.one_readsBack (by decide) (string_reads name)) _ _ _
  | deregisterCAS name expectedIndex =>
    rw [wire, decode_newCommand _ _ _ h]
    exact decodePayload_marshal (Json.Codec.two_bounded hstring huint) (by decide)
      (Json.Codec.two_readsBack (by decide) (string_reads name) (uint64_reads expectedIndex)) _ _ _
  | heartbeat name =>
    rw [wire, decode_newCommand _ _ _ h]
    exact decodePayload_marshal (Json.Codec.one_bounded hstring) (by decide)
      (Json.Codec.one_readsBack (by decide) (string_reads name)) _ _ _
  | ttlUpdate checkID =>
    rw [wire, decode_newCommand _ _ _ h]
    exact decodePayload_marshal (Json.Codec.one_bounded hstring) (by decide)
      (Json.Codec.one_readsBack (by decide) (string_reads checkID)) _ _ _

end Decode

end Konsul
