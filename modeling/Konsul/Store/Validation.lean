import Konsul.HealthCheck.Manager

/-!
# Services and their validation

`validateMetadata` reports the first offending pair of a loop over the metadata,
so it takes the order of the loop; whether a service is valid does not depend on
it, which of several errors is reported does.
-/

namespace Konsul

open GoLib

structure Service where
  name : GoString
  address : GoString
  port : ℤ
  tags : List GoString
  metadata : GoMap GoString GoString
  checks : List CheckDefinition
  deriving DecidableEq

def maxTagsPerService : ℕ := 64
def maxTagLength : ℕ := 255
def maxMetadataKeys : ℕ := 64
def maxMetadataKeyLength : ℕ := 128
def maxMetadataValueLength : ℕ := 512

def reservedMetadataKeyPrefixes : List GoString := [str "konsul_", str "_"]

def isAlphanumeric (b : UInt8) : Bool :=
  isDigit b || (0x41 ≤ b && b ≤ 0x5A) || (0x61 ≤ b && b ≤ 0x7A)

/-- `^[a-zA-Z0-9\-_:./]+$` -/
def tagFormatRegex (s : GoString) : Bool :=
  s ≠ [] && s.all fun b => isAlphanumeric b || (str "-_:./").contains b

/-- `^[a-zA-Z0-9\-_]+$` -/
def metadataKeyFormatRegex (s : GoString) : Bool :=
  s ≠ [] && s.all fun b => isAlphanumeric b || (str "-_").contains b

def number (n : ℕ) : GoString := decimal n

/-- The checks of one tag; `seen` are the tags before it. -/
def validateTag (seen : List GoString) (tag : GoString) : Option GoError :=
  if tag = [] then some (.text (str "empty tag not allowed"))
  else if tag.length > maxTagLength then
    some (.text (str "tag too long: " ++ number tag.length ++ str " chars (max " ++
      number maxTagLength ++ str ")"))
  else if ¬ tagFormatRegex tag then
    some (.text (str "invalid tag format: " ++ tag ++ str " (allowed: alphanumeric, -, _, :, ., /)"))
  else if tag ∈ seen then some (.text (str "duplicate tag: " ++ tag))
  else none

def validateTagsFrom (seen : List GoString) : List GoString → Option GoError
  | [] => none
  | tag :: tags =>
    match validateTag seen tag with
    | some err => some err
    | none => validateTagsFrom (tag :: seen) tags

def validateTags (tags : List GoString) : Option GoError :=
  if tags.length > maxTagsPerService then
    some (.text (str "too many tags: " ++ number tags.length ++ str " (max " ++
      number maxTagsPerService ++ str ")"))
  else validateTagsFrom [] tags

def isReservedMetadataKey (key : GoString) : Bool :=
  reservedMetadataKeyPrefixes.any fun p => p.isPrefixOf key

/-- The checks of one metadata pair. -/
def validatePair (key value : GoString) : Option GoError :=
  if key = [] then some (.text (str "empty metadata key not allowed"))
  else if key.length > maxMetadataKeyLength then
    some (.text (str "metadata key too long: " ++ key ++ str " (" ++ number key.length ++
      str " chars, max " ++ number maxMetadataKeyLength ++ str ")"))
  else if value.length > maxMetadataValueLength then
    some (.text (str "metadata value too long for key " ++ key ++ str ": " ++ number value.length ++
      str " chars (max " ++ number maxMetadataValueLength ++ str ")"))
  else if ¬ metadataKeyFormatRegex key then
    some (.text (str "invalid metadata key format: " ++ key ++
      str " (allowed: alphanumeric, -, _)"))
  else if isReservedMetadataKey key then some (.text (str "reserved metadata key: " ++ key))
  else none

def validateMetadata (m : GoMap GoString GoString) (range : m.Order) : Option GoError :=
  if m.keys.card > maxMetadataKeys then
    some (.text (str "too many metadata keys: " ++ number m.keys.card ++ str " (max " ++
      number maxMetadataKeys ++ str ")"))
  else range.list.findSome? fun pair => validatePair pair.1 pair.2

def validateService (service : Service) (range : service.metadata.Order) : Option GoError :=
  if service.name = [] then some (.text (str "service name is required"))
  else if service.address = [] then some (.text (str "service address is required"))
  else if service.port = 0 then some (.text (str "service port is required"))
  else if service.port < 1 ∨ service.port > 65535 then
    some (.text (str "service port must be between 1 and 65535"))
  else
    match validateTags service.tags with
    | some err => some (.wrap (str "tag validation failed") err)
    | none =>
      match validateMetadata service.metadata range with
      | some err => some (.wrap (str "metadata validation failed") err)
      | none => none

/-! ### Validity does not depend on the order -/

theorem validateMetadata_eq_none_iff (m : GoMap GoString GoString) (range : m.Order) :
    validateMetadata m range = none ↔
      m.keys.card ≤ maxMetadataKeys ∧
        ∀ key value, m.lookup key = some value → validatePair key value = none := by
  unfold validateMetadata
  split_ifs with h
  · exact ⟨fun h' => (nomatch h'), fun h' => absurd h'.1 (by omega)⟩
  · rw [List.findSome?_eq_none_iff]
    constructor
    · exact fun hall => ⟨by omega, fun key value hv =>
        hall ⟨key, value⟩ ((range.mem_list_iff key value).mpr hv)⟩
    · exact fun hall pair hp => hall.2 pair.1 pair.2 ((range.mem_list_iff pair.1 pair.2).mp hp)

/-- Whether a service is valid: the same for every order of the metadata loop. -/
theorem validateService_eq_none_iff (service : Service) (range range' : service.metadata.Order) :
    validateService service range = none ↔ validateService service range' = none := by
  have hm : validateMetadata service.metadata range = none ↔
      validateMetadata service.metadata range' = none := by
    rw [validateMetadata_eq_none_iff, validateMetadata_eq_none_iff]
  unfold validateService
  split_ifs
  · exact Iff.rfl
  · exact Iff.rfl
  · exact Iff.rfl
  · exact Iff.rfl
  · cases validateTags service.tags with
    | some err => exact Iff.rfl
    | none =>
      cases h : validateMetadata service.metadata range <;>
        cases h' : validateMetadata service.metadata range' <;> simp_all

def Service.Valid (service : Service) : Prop := ∃ range, validateService service range = none

theorem Service.valid_iff (service : Service) (range : service.metadata.Order) :
    service.Valid ↔ validateService service range = none :=
  ⟨fun ⟨range', h⟩ => (validateService_eq_none_iff service range' range).mp h, fun h => ⟨range, h⟩⟩

instance (service : Service) : Decidable service.Valid :=
  decidable_of_iff _ (service.valid_iff (GoMap.sorted service.metadata)).symm

end Konsul
