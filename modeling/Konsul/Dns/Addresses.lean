import Konsul.Dns.Forms
import Konsul.Lib.ParseIP
import Konsul.Store.Validation

/-!
# Address records

A service that a question picks has an address record whatever its address says: where the
address is no IPv4 address, the record carries none, or one of the other family.
-/

namespace Konsul.Dns

open GoLib

/-- A question with the two readings of its handlers. -/
abbrev Asked := Question × Reading × Reading

namespace Asked

def pickedSRV (p : Asked) : List Service :=
  if p.1.qtype = TypeSRV ∨ p.1.qtype = TypeANY then
    p.2.1.list.filter fun service => PicksSRV p.1 service.name
  else []

def pickedA (p : Asked) : List Service :=
  if p.1.qtype = TypeA ∨ p.1.qtype = TypeANY then
    p.2.2.list.filter fun service => PicksA p.1 service.name
  else []

end Asked

/-- The picked services and the names of their records: in the answer section, and in the
additional one. -/
def answered (asked : List Asked) : List (GoString × Service) :=
  asked.flatMap fun p => p.pickedA.map fun service => (p.1.name, service)

def Server.added (s : Server) (asked : List Asked) : List (GoString × Service) :=
  asked.flatMap fun p => p.pickedSRV.map fun service => (s.target service, service)

def addressHeader (name : GoString) : RRHeader := ⟨name, TypeA, ClassINET, 30⟩

section

variable {A : Type}

def RR.address : RR A → Option (RRHeader × A)
  | .a hdr ip => some (hdr, ip)
  | .srv _ _ _ _ _ => none

def addresses (rrs : List (RR A)) : List (RRHeader × A) := rrs.filterMap RR.address

variable (parseIP : GoString → A) (s : Server)

/-- The address record of a service. -/
def record (x : GoString × Service) : RRHeader × A := (addressHeader x.1, parseIP x.2.address)

theorem addresses_aRecords (name : Service → GoString) (services : List Service) :
    addresses (services.map fun service => Server.aRecord parseIP (name service) service) =
      (services.map fun service => (name service, service)).map (record parseIP) := by
  rw [addresses, List.filterMap_map, List.map_map, ← List.filterMap_eq_map]
  rfl

theorem addresses_srvRecords (q : Question) (services : List Service) :
    addresses (services.mapIdx fun i service => (s.srvRecord q i service : RR A)) = [] := by
  refine List.filterMap_eq_nil_iff.mpr fun rr hrr => ?_
  obtain ⟨i, -, rfl⟩ := List.mem_mapIdx.mp hrr
  rfl

theorem addresses_append (rrs rrs' : List (RR A)) :
    addresses (rrs ++ rrs') = addresses rrs ++ addresses rrs' := List.filterMap_append

theorem handleQuestion_picked (p : Asked) (msg : Msg A) :
    s.handleQuestion parseIP p.1 p.2.1 p.2.2 msg =
      Server.addA parseIP p.1 p.pickedA (s.addSRV parseIP p.1 p.pickedSRV msg) :=
  s.handleQuestion_eq parseIP p.1 p.2.1 p.2.2 msg

/-- What a question adds. -/
theorem addresses_handleQuestion (p : Asked) (msg : Msg A) :
    addresses (s.handleQuestion parseIP p.1 p.2.1 p.2.2 msg).answer =
        addresses msg.answer ++ (answered [p]).map (record parseIP) ∧
      addresses (s.handleQuestion parseIP p.1 p.2.1 p.2.2 msg).extra =
        addresses msg.extra ++ (s.added [p]).map (record parseIP) := by
  rw [handleQuestion_picked, Server.addA, Server.addSRV, answered, Server.added, List.flatMap_singleton,
    List.flatMap_singleton]
  constructor
  · rw [addresses_append, addresses_append, addresses_srvRecords, List.append_nil,
      addresses_aRecords parseIP fun _ => p.1.name]
  · rw [addresses_append, addresses_aRecords parseIP s.target]

/-- Every picked service has its record in the reply. -/
theorem addresses_handleDNSRequest (asked : List Asked) :
    addresses (s.handleDNSRequest parseIP asked).answer = (answered asked).map (record parseIP) ∧
      addresses (s.handleDNSRequest parseIP asked).extra =
        (s.added asked).map (record parseIP) := by
  have hfold (msg : Msg A) :
      addresses (asked.foldl (fun m p => s.handleQuestion parseIP p.1 p.2.1 p.2.2 m) msg).answer =
          addresses msg.answer ++ (answered asked).map (record parseIP) ∧
        addresses (asked.foldl (fun m p => s.handleQuestion parseIP p.1 p.2.1 p.2.2 m) msg).extra =
          addresses msg.extra ++ (s.added asked).map (record parseIP) := by
    induction asked generalizing msg with
    | nil => exact ⟨(List.append_nil _).symm, (List.append_nil _).symm⟩
    | cons p asked ih =>
      obtain ⟨hanswer, hextra⟩ := addresses_handleQuestion parseIP s p msg
      rw [List.foldl_cons, (ih _).1, (ih _).2, hanswer, hextra]
      simp only [answered, Server.added, List.flatMap_cons, List.flatMap_nil, List.append_nil,
        List.map_append, List.append_assoc, and_self]
  have hfinish (msg : Msg A) :
      (Server.finish msg).answer = msg.answer ∧ (Server.finish msg).extra = msg.extra := by
    rw [Server.finish]
    split_ifs
    · exact ⟨rfl, rfl⟩
    · exact ⟨rfl, rfl⟩
  rw [Server.handleDNSRequest, (hfinish _).1, (hfinish _).2]
  exact hfold Server.reply

end

/-! ### Right records -/

/-- The IPv4 address that a record carries, if it does. -/
def carried (x : RRHeader × IP) : RRHeader × Option IPv4 := (x.1, to4 x.2)

/-- A record for each service whose address is an IPv4 address, which it carries, and none for
the other ones. -/
def wanted (v4 : GoString → Option IPv4) (services : List (GoString × Service)) :
    List (RRHeader × Option IPv4) :=
  services.filterMap fun x => (v4 x.2.address).map fun q => (addressHeader x.1, some q)

/-- The address records of a reply are those wanted, where `v4` reads the address of a service. -/
def AddressesRight (v4 : GoString → Option IPv4) (s : Server) (asked : List Asked) : Prop :=
  (addresses (s.handleDNSRequest parseIP asked).answer).map carried = wanted v4 (answered asked) ∧
    (addresses (s.handleDNSRequest parseIP asked).extra).map carried = wanted v4 (s.added asked)

theorem length_filterMap_eq_iff {α β : Type} (g : α → Option β) (l : List α) :
    (l.filterMap g).length = l.length ↔ ∀ x ∈ l, (g x).isSome = true := by
  rw [List.length_filterMap_eq_countP, List.countP_eq_length]

/-- A reading that parses what it reads finds all records right when it reads every address. -/
theorem records_eq_wanted_iff {v4 : GoString → Option IPv4}
    (hv4 : ∀ a q, v4 a = some q → to4 (parseIP a) = some q) (services : List (GoString × Service)) :
    (services.map (record parseIP)).map carried = wanted v4 services ↔
      ∀ x ∈ services, ∃ q, v4 x.2.address = some q := by
  constructor
  · intro h
    have hlength := congrArg List.length h
    rw [List.length_map, List.length_map, wanted] at hlength
    intro x hx
    have hsome := (length_filterMap_eq_iff _ services).mp hlength.symm x hx
    rw [Option.isSome_map] at hsome
    exact Option.isSome_iff_exists.mp hsome
  · intro h
    rw [wanted, List.map_map, ← List.filterMap_eq_map]
    refine List.filterMap_congr fun x hx => ?_
    obtain ⟨q, hq⟩ := h x hx
    rw [hq, Option.map_some, ← hv4 _ _ hq]
    rfl

theorem addressesRight_iff {v4 : GoString → Option IPv4}
    (hv4 : ∀ a q, v4 a = some q → to4 (parseIP a) = some q) (s : Server) (asked : List Asked) :
    AddressesRight v4 s asked ↔
      ∀ x ∈ answered asked ++ s.added asked, ∃ q, v4 x.2.address = some q := by
  obtain ⟨hanswer, hextra⟩ := addresses_handleDNSRequest parseIP s asked
  rw [AddressesRight, hanswer, hextra, records_eq_wanted_iff hv4, records_eq_wanted_iff hv4,
    List.forall_mem_append]

/-- The address records are right when all the services that are picked have addresses with dots;
an address in the longer form of an IPv4 address is carried too. -/
theorem addresses_right_iff (s : Server) (asked : List Asked) :
    (AddressesRight parseIPv4 s asked ↔
      ∀ x ∈ answered asked ++ s.added asked, ∃ q : IPv4, x.2.address = q.text) ∧
    (AddressesRight (fun a => to4 (parseIP a)) s asked ↔
      ∀ x ∈ answered asked ++ s.added asked,
        ∃ q : IPv4, x.2.address = q.text ∨ parseIPv6 x.2.address = some q.mapped) := by
  have hdotted (a : GoString) (q : IPv4) (h : parseIPv4 a = some q) :
      to4 (parseIP a) = some q :=
    to4_parseIP_iff.mpr (.inl (parseIPv4_eq_some_iff.mp h))
  constructor
  · rw [addressesRight_iff hdotted]
    simp only [parseIPv4_eq_some_iff]
  · rw [addressesRight_iff fun _ _ h => h]
    simp only [to4_parseIP_iff]

/-- A live service, as it may be registered. -/
def hosted (address : GoString) : Service := ⟨str "web", address, 80, [], ∅, []⟩

def hostedAt (address : GoString) : Reading where
  table := ⟨Finmap.singleton (str "web") ⟨hosted address, 10, 1, 1⟩, ∅, ∅, 1⟩
  now := 0
  range := ⟨[⟨str "web", ⟨hosted address, 10, 1, 1⟩⟩], rfl⟩

def askAddress (address : GoString) : List Asked :=
  [(⟨str "web.service.consul.", TypeA⟩, hostedAt address, hostedAt address)]

/-- The record of a host name is empty, and that of an IPv6 address has it. -/
theorem records_without_IPv4 :
    validateService (hosted (str "localhost")) .nil = none ∧
    validateService (hosted (str "2001:db8::1")) .nil = none ∧
    (addresses ((⟨str "consul"⟩ : Server).handleDNSRequest parseIP
      (askAddress (str "localhost"))).answer).map Prod.snd = [[]] ∧
    (addresses ((⟨str "consul"⟩ : Server).handleDNSRequest parseIP
      (askAddress (str "2001:db8::1"))).answer).map Prod.snd =
        [[0x20, 0x01, 0x0D, 0xB8, 0, 0, 0, 0, 0, 0, 0, 0, 0, 0, 0, 1]] ∧
    ¬ AddressesRight parseIPv4 ⟨str "consul"⟩ (askAddress (str "localhost")) ∧
    ¬ AddressesRight (fun a => to4 (parseIP a)) ⟨str "consul"⟩ (askAddress (str "2001:db8::1")) := by
  unfold AddressesRight
  decide +kernel

end Konsul.Dns
