import Konsul.Lib.Strings
import Konsul.Store.ServiceQuery

/-!
# The DNS server (internal/dns/server.go)

The store is listed anew for each half of an answer, so a question comes with the
two readings its handlers make. `parseIP` stands for `net.ParseIP`. The question
class and the wire format are left to the DNS library.
-/

namespace Konsul.Dns

open GoLib

def TypeA : UInt16 := 1
def TypeSRV : UInt16 := 33
def TypeANY : UInt16 := 255
def ClassINET : UInt16 := 1
def RcodeSuccess : ℕ := 0
def RcodeNameError : ℕ := 3

structure Question where
  name : GoString
  qtype : UInt16
  deriving DecidableEq

structure RRHeader where
  name : GoString
  rrtype : UInt16
  cls : UInt16
  ttl : UInt32
  deriving DecidableEq

inductive RR (IP : Type) where
  | srv (hdr : RRHeader) (priority weight port : UInt16) (target : GoString)
  | a (hdr : RRHeader) (ip : IP)
  deriving DecidableEq

structure Msg (IP : Type) where
  authoritative : Bool
  rcode : ℕ
  answer : List (RR IP)
  extra : List (RR IP)
  deriving DecidableEq

/-- A call of `List`. -/
structure Reading where
  table : ServiceTable
  now : Time
  range : table.data.Order

def Reading.list (r : Reading) : List Service := r.table.list r.now r.range

structure Server where
  domain : GoString

def dot : UInt8 := 0x2E

/-- The question name without its final dot. -/
def Question.fqdn (q : Question) : GoString := trimSuffix q.name (str ".")

/-- `strings.Split(name, ".")`. -/
def Question.parts (q : Question) : List GoString := split dot q.fqdn

/-- A part that may be missing. -/
def Question.part (q : Question) (i : ℕ) : GoString := q.parts.getD i []

namespace Server

variable {IP : Type} (parseIP : GoString → IP) (s : Server)

def target (service : Service) : GoString :=
  service.name ++ str ".node." ++ s.domain ++ str "."

/-- `uint16(service.Port)`. -/
def portNumber (service : Service) : UInt16 := .ofNat (service.port % 65536).toNat

def srvRecord (q : Question) (i : ℕ) (service : Service) : RR IP :=
  .srv ⟨q.name, TypeSRV, ClassINET, 30⟩ 1 (.ofNat (100 / (i + 1))) (portNumber service)
    (s.target service)

def aRecord (name : GoString) (service : Service) : RR IP :=
  .a ⟨name, TypeA, ClassINET, 30⟩ (parseIP service.address)

/-- The records for matching services: an SRV record, and the address of its target. -/
def addSRV (q : Question) (matching : List Service) (msg : Msg IP) : Msg IP :=
  { msg with
    answer := msg.answer ++ matching.mapIdx fun i service => s.srvRecord q i service
    extra := msg.extra ++ matching.map fun service => aRecord parseIP (s.target service) service }

def addA (q : Question) (matching : List Service) (msg : Msg IP) : Msg IP :=
  { msg with answer := msg.answer ++ matching.map fun service => aRecord parseIP q.name service }

/-- The protocol is read and not looked at. -/
def handleSRVQuery (services : List Service) (q : Question) (msg : Msg IP) : Msg IP :=
  if q.parts.length < 4 then msg
  else
    let serviceName := trimPrefix (q.part 0) (str "_")
    s.addSRV parseIP q (services.filter fun service => service.name = serviceName) msg

def handleAQuery (services : List Service) (q : Question) (msg : Msg IP) : Msg IP :=
  if q.parts.length < 3 then msg
  else if q.part 1 = str "node" ∨ q.part 1 = str "service" then
    addA parseIP q (services.filter fun service => service.name = q.part 0) msg
  else msg

def handleQuestion (q : Question) (first second : Reading) (msg : Msg IP) : Msg IP :=
  if q.qtype = TypeSRV then s.handleSRVQuery parseIP first.list q msg
  else if q.qtype = TypeA then handleAQuery parseIP second.list q msg
  else if q.qtype = TypeANY then
    handleAQuery parseIP second.list q (s.handleSRVQuery parseIP first.list q msg)
  else msg

/-- `SetReply` leaves the message empty. -/
def reply : Msg IP := ⟨true, RcodeSuccess, [], []⟩

def finish (msg : Msg IP) : Msg IP :=
  if msg.answer.length = 0 then { msg with rcode := RcodeNameError } else msg

def handleDNSRequest (questions : List (Question × Reading × Reading)) : Msg IP :=
  finish (questions.foldl (fun msg p => s.handleQuestion parseIP p.1 p.2.1 p.2.2 msg) reply)

end Server

end Konsul.Dns
