import Konsul.Raft.SnapshotReplay
import Konsul.Raft.Wire

/-!
# The log against direct calls

A call of a `Local` method, and the command of the call marshalled, unmarshalled and
applied. `Faithful` says that the two agree on every state; `Lossless` says when they
do: every string that matters has to be text.
-/

namespace Konsul

open GoLib

/-! ### Calls -/

/-- What a `Local` method returns. -/
inductive LocalResult where
  | nothing
  | err (e : Option GoError)
  | found (ok : Bool)
  | index (newIndex : UInt64) (e : Option GoError)
  | indices (newIndices : GoMap GoString UInt64) (e : Option GoError)

/-- The answer of `Apply` says what the method returned; a service that was not found
could only be an error. -/
def FsmResponse.Carries : FsmResponse → LocalResult → Prop
  | .err e, .nothing => e = none
  | .err e, .err e' => e = e'
  | .err e, .found ok => e = none ↔ ok = true
  | .cas r, .err e => r = ⟨0, ∅, e⟩
  | .cas r, .index newIndex e => r = ⟨newIndex, ∅, e⟩
  | .cas r, .indices newIndices e => r = ⟨0, newIndices, e⟩
  | _, _ => False

def KVStore.callLocal (kv : KVStore) : (c : KVCommand) → c.Choice → KVStore × LocalResult
  | .set key value, _ => (kv.setLocal key value, .nothing)
  | .setWithFlags key value flags, _ => (kv.setWithFlagsLocal key value flags, .nothing)
  | .delete key, _ => (kv.deleteLocal key, .nothing)
  | .batchSet items, (range, watch) =>
    let r := kv.batchSetLocal items range watch
    (r.1, .err r.2)
  | .batchDelete keys, watch =>
    let r := kv.batchDeleteLocal keys watch
    (r.1, .err r.2)
  | .setCAS key value expectedIndex, _ =>
    let r := kv.setCASLocal key value expectedIndex
    (r.1, .index r.2.1 r.2.2)
  | .deleteCAS key expectedIndex, _ =>
    let r := kv.deleteCASLocal key expectedIndex
    (r.1, .err r.2)
  | .batchSetCAS items expectedIndices, (check, range, watch) =>
    let r := kv.batchSetCASLocal items expectedIndices check range watch
    (r.1, .indices r.2.1 r.2.2)
  | .batchDeleteCAS keys expectedIndices, watch =>
    let r := kv.batchDeleteCASLocal keys expectedIndices watch
    (r.1, .err r.2)

def ServiceStore.callLocal (s : ServiceStore) (now : Time) :
    (c : ServiceCommand) → c.Choice → ServiceStore × LocalResult
  | .register service, range =>
    let r := s.registerLocal now service.toSnapshot range
    (r.1, .err r.2)
  | .deregister name, _ => (s.deregisterLocal name, .nothing)
  | .heartbeat name, _ =>
    let r := s.heartbeatLocal now name
    (r.1, .found r.2)
  | .ttlUpdate checkID, _ =>
    let r := s.updateTTLCheck now checkID
    (r.1, .err r.2)
  | .registerCAS service expectedIndex, range =>
    let r := s.registerCASLocal now service.toSnapshot range expectedIndex
    (r.1, .index r.2.1 r.2.2)
  | .deregisterCAS name expectedIndex, _ =>
    let r := s.deregisterCASLocal name expectedIndex
    (r.1, .err r.2)

/-- A method with its arguments, by the command of its kind. -/
inductive LocalCall where
  | kv (c : KVCommand)
  | service (c : ServiceCommand)

namespace LocalCall

def Choice : LocalCall → Type
  | .kv c => c.Choice
  | .service c => c.Choice

def run (f : FSM) (now : Time) : (c : LocalCall) → c.Choice → FSM × LocalResult
  | .kv c, ch =>
    let r := f.kvStore.callLocal c ch
    ({ f with kvStore := r.1 }, r.2)
  | .service c, ch =>
    let r := f.serviceStore.callLocal now c ch
    ({ f with serviceStore := r.1 }, r.2)

/-- `NewCommand`. -/
def wire (timestamp : ℤ) : LocalCall → WireCommand
  | .kv c => c.wire timestamp
  | .service c => c.wire timestamp

def Typed : LocalCall → Prop
  | .kv _ => True
  | .service c => c.Typed

/-- The command that `Apply` decodes. -/
def json : LocalCall → Command
  | .kv c => .kv c.json
  | .service c => .service c.json

end LocalCall

/-- The same state, and a result that is carried. -/
def SameOutcome (a : FSM × FsmResponse) (b : FSM × LocalResult) : Prop :=
  a.1 = b.1 ∧ a.2.Carries b.2

/-- Applying the entry can do what the call can do, and no more. -/
structure FSM.Agrees (f : FSM) (now : Time) (c : LocalCall) (entry : Command) : Prop where
  applied : ∀ ch, ∃ ch', SameOutcome (f.apply now entry ch) (c.run f now ch')
  called : ∀ ch', ∃ ch, SameOutcome (f.apply now entry ch) (c.run f now ch')

/-- Whatever the time stamp of the command. -/
def LocalCall.FaithfulAt (c : LocalCall) (f : FSM) (now : Time) : Prop :=
  ∀ (jsonError : Bytes → GoError) (timestamp : ℤ), Json.Codec.IsInt timestamp →
    f.Agrees now c (FSM.decode jsonError (c.wire timestamp).marshal)

def LocalCall.Faithful (c : LocalCall) : Prop := ∀ f now, c.FaithfulAt f now

/-! ### What survives the log -/

def KVCommand.Lossless : KVCommand → Prop
  | .set key value => Utf8.valid key ∧ Utf8.valid value
  | .setWithFlags key value _ => Utf8.valid key ∧ Utf8.valid value
  | .setCAS key value _ => Utf8.valid key ∧ Utf8.valid value
  | .delete key => Utf8.valid key
  | .deleteCAS key _ => Utf8.valid key
  | .batchSet items => ValidMap (fun value => Utf8.valid value) items
  | .batchSetCAS items expectedIndices =>
    ValidMap (fun value => Utf8.valid value) items ∧ ∀ key ∈ items,
      KVTable.expected (jsonMap id expectedIndices) key = KVTable.expected expectedIndices key
  | .batchDelete keys => ∀ key ∈ keys, Utf8.valid key
  | .batchDeleteCAS keys expectedIndices =>
    (∀ key ∈ keys, Utf8.valid key) ∧ ∀ key ∈ keys,
      KVTable.expected (jsonMap id expectedIndices) key = KVTable.expected expectedIndices key

/-- What the validation can say, in some order of the metadata. -/
def Service.verdicts (service : Service) : Set (Option GoError) :=
  Set.range fun range => validateService service range

/-- The two services are refused alike, and one that is stored is text. -/
def Service.Lossless (service : Service) : Prop :=
  service.verdicts = service.json.verdicts ∧ (service.Valid → service.Text)

def ServiceCommand.Lossless : ServiceCommand → Prop
  | .register service => service.Lossless
  | .registerCAS service _ => service.Lossless
  | .deregister name => Utf8.valid name
  | .deregisterCAS name _ => Utf8.valid name
  | .ttlUpdate checkID => Utf8.valid checkID
  -- that the service is not there is not answered
  | .heartbeat _ => False

def LocalCall.Lossless : LocalCall → Prop
  | .kv c => c.Lossless
  | .service c => c.Lossless

namespace LocalCall

theorem decode_wire {c : LocalCall} (hc : c.Typed) (jsonError : Bytes → GoError) {timestamp : ℤ}
    (h : Json.Codec.IsInt timestamp) :
    FSM.decode jsonError (c.wire timestamp).marshal = c.json := by
  cases c with
  | kv c => exact c.decode_wire h
  | service c => exact ServiceCommand.decode_wire hc h

theorem isInt_zero : Json.Codec.IsInt 0 := by
  constructor <;> decide

theorem faithfulAt_iff_agrees {c : LocalCall} (hc : c.Typed) (f : FSM) (now : Time) :
    c.FaithfulAt f now ↔ f.Agrees now c c.json := by
  constructor
  · intro h
    have hzero := h (fun _ => .text []) 0 isInt_zero
    rwa [decode_wire hc _ isInt_zero] at hzero
  · intro h jsonError timestamp htimestamp
    rw [decode_wire hc _ htimestamp]
    exact h

end LocalCall

end Konsul
