import Konsul.Store.Validation

/-!
# The tag and metadata indexes

`TagIndex` maps a tag to the set of services that carry it, `MetaIndex` a
metadata key and value to the list of services that carry the pair. The loops
over a service's metadata visit distinct keys, each in an index of its own, and
are written in the order of the keys.
-/

namespace Konsul

open GoLib

abbrev TagIndex := GoMap GoString (GoMap GoString Bool)

abbrev MetaIndex := GoMap GoString (GoMap GoString (List GoString))

namespace TagIndex

def add (ix : TagIndex) (serviceName tag : GoString) : TagIndex :=
  ix.insert tag (((ix.lookup tag).getD ∅).insert serviceName true)

/-- A tag without services is dropped. -/
def remove (ix : TagIndex) (serviceName tag : GoString) : TagIndex :=
  match ix.lookup tag with
  | none => ix
  | some services =>
    let services := services.erase serviceName
    if services = ∅ then ix.erase tag else ix.insert tag services

end TagIndex

def addToTagIndex (ix : TagIndex) (serviceName : GoString) (tags : List GoString) : TagIndex :=
  tags.foldl (fun ix tag => ix.add serviceName tag) ix

def removeFromTagIndex (ix : TagIndex) (serviceName : GoString) (tags : List GoString) : TagIndex :=
  tags.foldl (fun ix tag => ix.remove serviceName tag) ix

namespace MetaIndex

def add (ix : MetaIndex) (serviceName key value : GoString) : MetaIndex :=
  let values := (ix.lookup key).getD ∅
  ix.insert key (values.insert value ((values.lookup value).getD [] ++ [serviceName]))

/-- A value without services and a key without values are dropped. -/
def remove (ix : MetaIndex) (serviceName key value : GoString) : MetaIndex :=
  match ix.lookup key with
  | none => ix
  | some values =>
    let values :=
      match values.lookup value with
      | none => values
      | some services =>
        let services := services.erase serviceName
        if services = [] then values.erase value else values.insert value services
    if values = ∅ then ix.erase key else ix.insert key values

end MetaIndex

def addToMetaIndex (ix : MetaIndex) (serviceName : GoString) (metadata : GoMap GoString GoString) :
    MetaIndex :=
  (GoMap.sorted metadata).list.foldl (fun ix pair => ix.add serviceName pair.1 pair.2) ix

def removeFromMetaIndex (ix : MetaIndex) (serviceName : GoString)
    (metadata : GoMap GoString GoString) : MetaIndex :=
  (GoMap.sorted metadata).list.foldl (fun ix pair => ix.remove serviceName pair.1 pair.2) ix

end Konsul
