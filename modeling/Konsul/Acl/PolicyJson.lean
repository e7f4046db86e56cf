import Konsul.Acl.Types
import Konsul.Lib.JsonRecord

/-!
# Policies as JSON text (internal/acl/types.go)

A slice that is nil is the empty list here, and is written as one.
-/

namespace Konsul

open GoLib

open Json in
def capabilities : Codec (List Capability) := .list .string

open Json in
def KVRule.codec : Codec KVRule :=
  .record
    [.of (str "path") .string (fun _ => false) (·.path) (fun r v => { r with path := v }),
      .of (str "capabilities") Konsul.capabilities (fun _ => false) (·.capabilities)
        (fun r v => { r with capabilities := v })]
    ⟨[], []⟩

open Json in
def ServiceRule.codec : Codec ServiceRule :=
  .record
    [.of (str "name") .string (fun _ => false) (·.name) (fun r v => { r with name := v }),
      .of (str "capabilities") Konsul.capabilities (fun _ => false) (·.capabilities)
        (fun r v => { r with capabilities := v })]
    ⟨[], []⟩

/-- The codec of a rule that is a list of capabilities. -/
def capabilitiesOnly {R : Type} (mk : List Capability → R) (get : R → List Capability) :
    Json.Codec R :=
  .record [.of (str "capabilities") Konsul.capabilities (fun _ => false) get (fun _ v => mk v)]
    (mk [])

def HealthRule.codec : Json.Codec HealthRule := capabilitiesOnly .mk (·.capabilities)
def BackupRule.codec : Json.Codec BackupRule := capabilitiesOnly .mk (·.capabilities)
def AdminRule.codec : Json.Codec AdminRule := capabilitiesOnly .mk (·.capabilities)

namespace Policy

def fields : List (Json.Field Policy) :=
  [.of (str "name") .string (fun _ => false) (·.name) (fun p v => { p with name := v }),
    .of (str "description") .string (fun _ => false) (·.description)
      (fun p v => { p with description := v }),
    .of (str "kv") (.list KVRule.codec) List.isEmpty (·.kv) (fun p v => { p with kv := v }),
    .of (str "service") (.list ServiceRule.codec) List.isEmpty (·.service)
      (fun p v => { p with service := v }),
    .of (str "health") (.list HealthRule.codec) List.isEmpty (·.health)
      (fun p v => { p with health := v }),
    .of (str "backup") (.list BackupRule.codec) List.isEmpty (·.backup)
      (fun p v => { p with backup := v }),
    .of (str "admin") (.list AdminRule.codec) List.isEmpty (·.admin)
      (fun p v => { p with admin := v })]

def codec : Json.Codec Policy := .record fields ⟨[], [], [], [], [], [], []⟩

/-- `FromJSON`: the outer `none` is the panic of a pattern that does not compile, the
inner one any error. -/
def fromJSON (re : Regexp) (data : Bytes) : Option (Option Policy) :=
  match codec.unmarshal data with
  | none => some none
  | some policy =>
    match policy.validate re with
    | none => none
    | some (.error _) => some none
    | some (.ok ()) => some (some policy)

end Policy

/-! ### Round trip -/

def cleanCapabilities (l : List Capability) : List Capability := l.map Utf8.toValid

def KVRule.clean (r : KVRule) : KVRule := ⟨Utf8.toValid r.path, cleanCapabilities r.capabilities⟩

def ServiceRule.clean (r : ServiceRule) : ServiceRule :=
  ⟨Utf8.toValid r.name, cleanCapabilities r.capabilities⟩

/-- The policy with its texts made valid UTF-8. -/
def Policy.clean (p : Policy) : Policy :=
  { name := Utf8.toValid p.name
    description := Utf8.toValid p.description
    kv := p.kv.map KVRule.clean
    service := p.service.map ServiceRule.clean
    health := p.health.map fun r => ⟨cleanCapabilities r.capabilities⟩
    backup := p.backup.map fun r => ⟨cleanCapabilities r.capabilities⟩
    admin := p.admin.map fun r => ⟨cleanCapabilities r.capabilities⟩ }

theorem capabilities_lawful : capabilities.Lawful cleanCapabilities 1 :=
  Json.Codec.list_lawful Json.Codec.string_lawful

theorem KVRule.codec_lawful : KVRule.codec.Lawful KVRule.clean 2 := by
  refine Json.Codec.record_lawful
    (Json.distinct_of_names [str "path", str "capabilities"] rfl (by decide)) ?_ fun r => ?_
  · intro f hf
    simp only [List.mem_cons, List.not_mem_nil, or_false] at hf
    rcases hf with rfl | rfl
    · exact Json.Field.of_bounded Json.Codec.string_lawful (Nat.zero_le 1)
    · exact Json.Field.of_bounded capabilities_lawful le_rfl
  · refine ⟨_, Json.Field.of_copies Json.Codec.string_lawful r rfl (fun _ h => by cases h) (fun _ => rfl), ?_⟩
    exact ⟨_, Json.Field.of_copies capabilities_lawful r rfl (fun _ h => by cases h) (fun _ => rfl), rfl⟩

theorem ServiceRule.codec_lawful : ServiceRule.codec.Lawful ServiceRule.clean 2 := by
  refine Json.Codec.record_lawful
    (Json.distinct_of_names [str "name", str "capabilities"] rfl (by decide)) ?_ fun r => ?_
  · intro f hf
    simp only [List.mem_cons, List.not_mem_nil, or_false] at hf
    rcases hf with rfl | rfl
    · exact Json.Field.of_bounded Json.Codec.string_lawful (Nat.zero_le 1)
    · exact Json.Field.of_bounded capabilities_lawful le_rfl
  · refine ⟨_, Json.Field.of_copies Json.Codec.string_lawful r rfl (fun _ h => by cases h) (fun _ => rfl), ?_⟩
    exact ⟨_, Json.Field.of_copies capabilities_lawful r rfl (fun _ h => by cases h) (fun _ => rfl), rfl⟩

theorem capabilitiesOnly_lawful {R : Type} (mk : List Capability → R) (get : R → List Capability)
    (hget : ∀ l, get (mk l) = l) (hmk : ∀ r, mk (get r) = r) :
    (capabilitiesOnly mk get).Lawful (fun r => mk (cleanCapabilities (get r))) 2 := by
  refine Json.Codec.record_lawful
    (Json.distinct_of_names [str "capabilities"] rfl (by decide)) ?_ fun r => ?_
  · intro f hf
    rw [List.mem_singleton.mp hf]
    exact Json.Field.of_bounded capabilities_lawful le_rfl
  · exact ⟨_, Json.Field.of_copies capabilities_lawful r (hget []) (fun _ h => nomatch h) hmk, rfl⟩

namespace Policy

theorem codec_lawful : codec.Lawful clean 4 := by
  have hstring := Json.Codec.string_lawful
  have hkv := Json.Codec.list_lawful KVRule.codec_lawful
  have hservice := Json.Codec.list_lawful ServiceRule.codec_lawful
  have hhealth := Json.Codec.list_lawful
    (capabilitiesOnly_lawful HealthRule.mk (·.capabilities) (fun _ => rfl) fun _ => rfl)
  have hbackup := Json.Codec.list_lawful
    (capabilitiesOnly_lawful BackupRule.mk (·.capabilities) (fun _ => rfl) fun _ => rfl)
  have hadmin := Json.Codec.list_lawful
    (capabilitiesOnly_lawful AdminRule.mk (·.capabilities) (fun _ => rfl) fun _ => rfl)
  have hbounded : ∀ f ∈ fields, f.Bounded 3 := by
    intro f hf
    simp only [fields, List.mem_cons, List.not_mem_nil, or_false] at hf
    rcases hf with rfl | rfl | rfl | rfl | rfl | rfl | rfl
    · exact Json.Field.of_bounded hstring (Nat.zero_le 3)
    · exact Json.Field.of_bounded hstring (Nat.zero_le 3)
    · exact Json.Field.of_bounded hkv le_rfl
    · exact Json.Field.of_bounded hservice le_rfl
    · exact Json.Field.of_bounded hhealth le_rfl
    · exact Json.Field.of_bounded hbackup le_rfl
    · exact Json.Field.of_bounded hadmin le_rfl
  have hdistinct : Json.Distinct fields := Json.distinct_of_names
    (["name", "description", "kv", "service", "health", "backup", "admin"].map str) rfl (by decide)
  refine Json.Codec.record_lawful hdistinct hbounded fun p => ?_
  refine ⟨_, Json.Field.of_copies hstring p rfl (fun _ h => by cases h) (fun _ => rfl), ?_⟩
  refine ⟨_, Json.Field.of_copies hstring p rfl (fun _ h => by cases h) (fun _ => rfl), ?_⟩
  refine ⟨_, Json.Field.of_copies hkv p rfl Json.isEmpty_map (fun _ => rfl), ?_⟩
  refine ⟨_, Json.Field.of_copies hservice p rfl Json.isEmpty_map (fun _ => rfl), ?_⟩
  refine ⟨_, Json.Field.of_copies hhealth p rfl Json.isEmpty_map (fun _ => rfl), ?_⟩
  refine ⟨_, Json.Field.of_copies hbackup p rfl Json.isEmpty_map (fun _ => rfl), ?_⟩
  refine ⟨_, Json.Field.of_copies hadmin p rfl Json.isEmpty_map (fun _ => rfl), ?_⟩
  rfl

theorem unmarshal_marshalIndent (p : Policy) :
    codec.unmarshal (codec.marshalIndent p) = some p.clean :=
  codec_lawful.unmarshal_marshalIndent (by decide) p

end Policy

end Konsul
