import Konsul.Handlers.KVWatch
import Konsul.Lib.JsonValues
import Konsul.Lib.Lines
import Mathlib.Data.List.ReduceOption

/-!
# The text of an event stream (internal/handlers/kv_watch.go, cmd/konsulctl/kv_commands.go)

`WatchSSE` writes each event of a session as a frame of two lines and a blank one, and a
comment when it has been idle. `konsulctl kv watch` reads the response line by line and
handles what it has collected at each blank line. The stream may break off anywhere. What
the client has shown by then are the events whose frames it has whole: whatever keys and
values hold, a frame neither ends early nor runs into the next.
-/

namespace Konsul.Watch

open GoLib

/-! ### Events as JSON -/

/-- `WatchEvent` of the client, which has the tags of `watch.Event`. -/
structure WatchEvent where
  type : GoString
  key : GoString
  value : GoString
  oldValue : GoString
  timestamp : ℤ
  deriving DecidableEq

namespace WatchEvent

def empty : WatchEvent := ⟨[], [], [], [], 0⟩

def fields : List (Json.Field WatchEvent) :=
  [.of (str "type") .string (fun _ => false) (·.type) (fun e v => { e with type := v }),
    .of (str "key") .string (fun _ => false) (·.key) (fun e v => { e with key := v }),
    .of (str "value") .string List.isEmpty (·.value) (fun e v => { e with value := v }),
    .of (str "old_value") .string List.isEmpty (·.oldValue) (fun e v => { e with oldValue := v }),
    .of (str "timestamp") .int (fun _ => false) (·.timestamp) (fun e v => { e with timestamp := v })]

def codec : Json.Codec WatchEvent := .record fields empty

def marshal (e : WatchEvent) : Bytes := codec.marshal e

def unmarshal (data : Bytes) : Option WatchEvent := codec.unmarshal data

/-- The event with its texts made valid UTF-8. -/
def json (e : WatchEvent) : WatchEvent :=
  { e with
    type := Utf8.toValid e.type
    key := Utf8.toValid e.key
    value := Utf8.toValid e.value
    oldValue := Utf8.toValid e.oldValue }

theorem codec_bounded : codec.Bounded 1 := by
  have hstring := Json.Codec.string_lawful
  refine Json.Codec.record_bounded fun f hf => ?_
  simp only [fields, List.mem_cons, List.not_mem_nil, or_false] at hf
  rcases hf with rfl | rfl | rfl | rfl | rfl
  · exact Json.Field.of_bounded hstring le_rfl
  · exact Json.Field.of_bounded hstring le_rfl
  · exact Json.Field.of_bounded hstring le_rfl
  · exact Json.Field.of_bounded hstring le_rfl
  · exact Json.Field.bounded_of_codec Json.Codec.int_bounded le_rfl

theorem unmarshal_marshal {e : WatchEvent} (h : Json.Codec.IsInt e.timestamp) :
    unmarshal e.marshal = some e.json := by
  have hstring := Json.Codec.string_lawful
  have hdistinct : Json.Distinct fields := Json.distinct_of_names
    (["type", "key", "value", "old_value", "timestamp"].map str) rfl (by decide)
  have hread : codec.ReadsBack e e.json := by
    apply Json.Codec.record_readsBack hdistinct
    exact ⟨_, Json.Field.of_copies hstring e rfl (fun _ h => by cases h) (fun _ => rfl),
      _, Json.Field.of_copies hstring e rfl (fun _ h => by cases h) (fun _ => rfl),
      _, Json.Field.of_copies hstring e rfl Json.isEmpty_toValid (fun _ => rfl),
      _, Json.Field.of_copies hstring e rfl Json.isEmpty_toValid (fun _ => rfl),
      _, Json.Field.copies_of_readsBack (Json.Codec.int_readsBack h) rfl (fun h => by cases h)
        (fun _ => rfl), rfl⟩
  exact codec_bounded.unmarshal_marshal (by decide) hread

theorem plain_marshal (e : WatchEvent) : Plain e.marshal := Json.plain_print (codec_bounded e).1

theorem trimSpace_marshal (e : WatchEvent) :
    trimSpace e.marshal = e.marshal ∧ trimSpace (0x20 :: e.marshal) = e.marshal :=
  Json.trimSpace_print (codec_bounded e).1

theorem marshal_ne_nil (e : WatchEvent) : e.marshal ≠ [] := by
  obtain ⟨rs, hrs⟩ := Json.printRunes_obj (Json.members fields e)
  show Utf8.encode (Json.printRunes (.obj (Json.members fields e))) ≠ []
  rw [hrs]
  exact List.cons_ne_nil _ _

end WatchEvent

def typeText : EventType → GoString
  | .set => str "set"
  | .delete => str "delete"

/-- An event the server writes, at the Unix time `timestamp`. -/
def stamp (e : Event) (timestamp : ℤ) : WatchEvent :=
  ⟨typeText e.type, e.key, e.value, e.oldValue, timestamp⟩

/-! ### The writer -/

inductive StreamItem where
  | event (e : Event) (timestamp : ℤ)
  | keepAlive
  deriving DecidableEq

namespace StreamItem

/-- `sendSSEEvent`, and the comment of the ticker. -/
def bytes : StreamItem → Bytes
  | .event e timestamp =>
    str "event: kv-change\n" ++ (str "data: " ++ (stamp e timestamp).marshal ++ str "\n\n")
  | .keepAlive => str ": keep-alive\n\n"

def event? : StreamItem → Option Event
  | .event e _ => some e
  | .keepAlive => none

/-- The event as the client sees it. -/
def shown : StreamItem → Option WatchEvent
  | .event e timestamp => some (stamp e timestamp).json
  | .keepAlive => none

/-- A timestamp is an `int64`. -/
def Stamped : StreamItem → Prop
  | .event _ timestamp => Json.Codec.IsInt timestamp
  | .keepAlive => True

end StreamItem

def eventStream (items : List StreamItem) : Bytes := items.flatMap StreamItem.bytes

theorem eventStream_cons (i : StreamItem) (items : List StreamItem) :
    eventStream (i :: items) = i.bytes ++ eventStream items := List.flatMap_cons

theorem eventStream_append (items items' : List StreamItem) :
    eventStream (items ++ items') = eventStream items ++ eventStream items' := List.flatMap_append

/-! ### The reader -/

/-- The variables of the loop of `watchSSE`. -/
structure SSEReader where
  eventName : GoString
  dataBuf : GoString
  deriving DecidableEq

/-- What `handleSSEEvent` prints. -/
inductive Printed where
  | event (e : WatchEvent)
  | received (eventName payload : GoString)
  | failedToParse (payload : GoString)
  deriving DecidableEq

def handleSSEEvent (eventName payload : GoString) : Option Printed :=
  let payload := trimSpace payload
  if payload = [] then none
  else if eventName ≠ [] ∧ eventName ≠ str "kv-change" then some (.received eventName payload)
  else
    match WatchEvent.unmarshal payload with
    | none => some (.failedToParse payload)
    | some e => some (.event e)

namespace SSEReader

def empty : SSEReader := ⟨[], []⟩

/-- One round of the loop, for a line without its newline. -/
def readLine (r : SSEReader) (line : Bytes) : SSEReader × Option Printed :=
  let line := trimLineEnd (line ++ [newline])
  if line = [] then (empty, handleSSEEvent r.eventName (trimSuffix r.dataBuf [newline]))
  else if hasPrefix line (str ":") then (r, none)
  else if hasPrefix line (str "event:") then
    ({ r with eventName := trimSpace (line.drop (str "event:").length) }, none)
  else if hasPrefix line (str "data:") then
    ({ r with dataBuf := r.dataBuf ++ trimSpace (line.drop (str "data:").length) ++ [newline] }, none)
  else (r, none)

def machine : Machine SSEReader Bytes (Option Printed) := ⟨readLine⟩

end SSEReader

/-- What `watchSSE` prints of a response that ends or breaks off: a line without its newline
is an error of `ReadString`. -/
def watchSSE (body : Bytes) : List Printed :=
  (SSEReader.machine.run SSEReader.empty (lines body)).2.reduceOption

/-! ### One frame -/

namespace StreamItem

def lines : StreamItem → List Bytes
  | .event e timestamp =>
    [str "event: kv-change", str "data: " ++ (stamp e timestamp).marshal, []]
  | .keepAlive => [str ": keep-alive", []]

theorem bytes_eq (i : StreamItem) : i.bytes = unlines i.lines := by
  cases i with
  | event e timestamp =>
    have hfirst : str "event: kv-change\n" = str "event: kv-change" ++ [newline] := by decide
    have hlast : str "\n\n" = [newline, newline] := by decide
    simp only [bytes, lines, unlines, hfirst, hlast, List.flatMap_cons, List.flatMap_nil,
      List.append_assoc, List.nil_append, List.singleton_append, List.append_nil]
  | keepAlive => decide

theorem plain_lines (i : StreamItem) : ∀ w ∈ i.lines, Plain w := by
  intro w hw
  cases i with
  | event e timestamp =>
    have hdata : Plain (str "data: " ++ (stamp e timestamp).marshal) :=
      Plain.append (by decide +kernel) (stamp e timestamp).plain_marshal
    simp only [lines, List.mem_cons, List.not_mem_nil, or_false] at hw
    rcases hw with rfl | rfl | rfl
    · decide +kernel
    · exact hdata
    · decide +kernel
  | keepAlive =>
    revert w
    decide +kernel

/-- Each frame ends with its blank line. -/
theorem lines_eq (i : StreamItem) : ∃ ws, i.lines = ws ++ [[]] := by
  cases i with
  | event e timestamp =>
    exact ⟨[str "event: kv-change", str "data: " ++ (stamp e timestamp).marshal], rfl⟩
  | keepAlive => exact ⟨[str ": keep-alive"], rfl⟩

end StreamItem

namespace SSEReader

theorem readLine_name (r : SSEReader) :
    readLine r (str "event: kv-change") = ({ r with eventName := str "kv-change" }, none) := by
  have htrim := Plain.trimLineEnd (w := str "event: kv-change") (by decide +kernel)
  have hname : trimSpace ((str "event: kv-change").drop (str "event:").length) = str "kv-change" := by
    decide
  simp only [readLine, htrim, hname]
  rfl

theorem readLine_data (r : SSEReader) (e : WatchEvent) :
    readLine r (str "data: " ++ e.marshal) =
      ({ r with dataBuf := r.dataBuf ++ e.marshal ++ [newline] }, none) := by
  have htrim := Plain.trimLineEnd (w := str "data: " ++ e.marshal)
    (Plain.append (by decide +kernel) e.plain_marshal)
  have hdata : (str "data: " ++ e.marshal).drop (str "data:").length = 0x20 :: e.marshal := rfl
  simp only [readLine, htrim, hdata, e.trimSpace_marshal.2]
  rfl

theorem readLine_blank (r : SSEReader) :
    readLine r [] = (empty, handleSSEEvent r.eventName (trimSuffix r.dataBuf [newline])) := by
  have htrim := Plain.trimLineEnd (w := []) (by decide +kernel)
  simp only [readLine, htrim, ite_true]

theorem readLine_comment (r : SSEReader) : readLine r (str ": keep-alive") = (r, none) := by
  have htrim := Plain.trimLineEnd (w := str ": keep-alive") (by decide +kernel)
  simp only [readLine, htrim]
  rfl

theorem handle_marshal {e : WatchEvent} (h : Json.Codec.IsInt e.timestamp) :
    handleSSEEvent (str "kv-change") e.marshal = some (.event e.json) := by
  rw [handleSSEEvent, e.trimSpace_marshal.1, WatchEvent.unmarshal_marshal h]
  simp only [e.marshal_ne_nil, ite_false, ne_eq, not_true_eq_false, and_false]

/-- A whole frame is printed at its blank line, and leaves the reader as it was. -/
theorem run_item {i : StreamItem} (h : i.Stamped) :
    ∃ rest, machine.run empty i.lines = (empty, rest ++ [i.shown.map .event]) ∧
      ∀ o ∈ rest, o = none := by
  cases i with
  | event e timestamp =>
    have hhandled := handle_marshal (e := stamp e timestamp) h
    have hbuf : trimSuffix ([] ++ (stamp e timestamp).marshal ++ [newline]) [newline] =
        (stamp e timestamp).marshal := trimSuffix_append _ _
    refine ⟨[none, none], ?_, by decide⟩
    simp only [StreamItem.lines, Machine.run_cons, Machine.run_nil, machine, readLine_name,
      readLine_data, readLine_blank, empty, hbuf, hhandled]
    rfl
  | keepAlive =>
    refine ⟨[none], ?_, by decide⟩
    simp only [StreamItem.lines, Machine.run_cons, Machine.run_nil, machine, readLine_comment,
      readLine_blank]
    decide

/-- A frame that is not whole prints nothing. -/
theorem run_cut {i : StreamItem} (h : i.Stamped) {n : ℕ} (hn : n < i.bytes.length) :
    (machine.run empty (GoLib.lines (i.bytes.take n))).2.reduceOption = [] := by
  obtain ⟨ws, hws⟩ := i.lines_eq
  obtain ⟨rest, hrun, hnone⟩ := run_item h
  have hlines : ∀ w ∈ ws ++ [[]], newline ∉ w := fun w hw => (i.plain_lines w (hws ▸ hw)).newline_notMem
  rw [i.bytes_eq, hws] at hn ⊢
  obtain ⟨k, hk⟩ := lines_take_unlines hlines hn
  rw [hk]
  have hanswers : (machine.run empty (ws.take k)).2 ++
      (machine.run (machine.run empty (ws.take k)).1 (ws.drop k)).2 = rest := by
    have hsplit := congrArg Prod.snd (machine.run_append empty (ws.take k) (ws.drop k))
    rw [List.take_append_drop] at hsplit
    rw [hws, Machine.run_snoc] at hrun
    have hrest := List.append_inj_left' (congrArg Prod.snd hrun) rfl
    exact hsplit.symm.trans hrest
  rw [List.reduceOption_eq_nil_iff]
  refine ⟨_, List.eq_replicate_iff.mpr ⟨rfl, fun o ho => hnone o ?_⟩⟩
  rw [← hanswers]
  exact List.mem_append_left _ ho

/-- Whole frames, and the text behind them. -/
theorem run_stream {items : List StreamItem} (h : ∀ i ∈ items, i.Stamped) (rest : Bytes) :
    (machine.run empty (GoLib.lines (eventStream items ++ rest))).2.reduceOption =
      items.filterMap (fun i => i.shown.map .event) ++
        (machine.run empty (GoLib.lines rest)).2.reduceOption := by
  induction items with
  | nil => rfl
  | cons i items ih =>
    have htail := ih fun j hj => h j (List.mem_cons_of_mem i hj)
    obtain ⟨quiet, hrun, hnone⟩ := run_item (h i (List.mem_cons_self ..))
    have hquiet : quiet.reduceOption = [] :=
      List.reduceOption_eq_nil_iff _ |>.mpr ⟨_, List.eq_replicate_iff.mpr ⟨rfl, hnone⟩⟩
    have hlines : GoLib.lines (eventStream (i :: items) ++ rest) =
        i.lines ++ GoLib.lines (eventStream items ++ rest) := by
      have hplain : ∀ w ∈ i.lines, newline ∉ w := fun w hw => (i.plain_lines w hw).newline_notMem
      rw [eventStream_cons, i.bytes_eq, List.append_assoc]
      exact lines_unlines_append hplain _
    rw [hlines, machine.run_append, hrun]
    show ((quiet ++ [i.shown.map Printed.event]) ++
      (machine.run empty (GoLib.lines (eventStream items ++ rest))).2).reduceOption = _
    rw [List.reduceOption_append, List.reduceOption_append, hquiet, htail, List.filterMap_cons]
    cases i.shown with
    | none => rfl
    | some e => rfl

end SSEReader

/-- The frames of which the first `n` bytes have the whole text. -/
def Whole (items : List StreamItem) (n k : ℕ) : Prop :=
  k ≤ items.length ∧ (eventStream (items.take k)).length ≤ n ∧
    (k < items.length → n < (eventStream (items.take (k + 1))).length)

/-- The client prints the events of the whole frames. -/
theorem watchSSE_take {items : List StreamItem} (h : ∀ i ∈ items, i.Stamped) {n k : ℕ}
    (hk : Whole items n k) :
    watchSSE ((eventStream items).take n) =
      (items.take k).filterMap fun i => i.shown.map .event := by
  obtain ⟨hle, hfit, hcut⟩ := hk
  have hbefore : ∀ i ∈ items.take k, i.Stamped := fun i hi => h i (List.mem_of_mem_take hi)
  have hsplit : eventStream items = eventStream (items.take k) ++ eventStream (items.drop k) := by
    rw [← eventStream_append, List.take_append_drop]
  have htake : (eventStream items).take n = eventStream (items.take k) ++
      (eventStream (items.drop k)).take (n - (eventStream (items.take k)).length) := by
    rw [hsplit, List.take_append, List.take_of_length_le hfit]
  have hquiet : (SSEReader.machine.run SSEReader.empty (lines
      ((eventStream (items.drop k)).take (n - (eventStream (items.take k)).length)))).2.reduceOption =
        [] := by
    by_cases hend : k < items.length
    · have hn := hcut hend
      rw [List.take_succ_eq_append_getElem hend, eventStream_append, eventStream_cons,
        List.length_append, List.length_append] at hn
      have hnil : (eventStream []).length = 0 := rfl
      have hlt : n - (eventStream (items.take k)).length < (items[k]).bytes.length := by omega
      rw [List.drop_eq_getElem_cons hend, eventStream_cons, List.take_append_of_le_length hlt.le]
      exact SSEReader.run_cut (h _ (List.getElem_mem hend)) hlt
    · have hnil : eventStream [] = [] := rfl
      rw [List.drop_eq_nil_of_le (Nat.not_lt.mp hend), hnil, List.take_nil]
      rfl
  rw [watchSSE, htake, SSEReader.run_stream hbefore, hquiet, List.append_nil]

/-! ### The stream of a session -/

/-- A session of `WatchSSE` with what its handler has written. -/
structure Streamed where
  session : Session
  items : List StreamItem

inductive StreamedStep where
  /-- A step of the session; `timestamp` is that of the event it writes, if it does. -/
  | step (i : SessionStep) (timestamp : ℤ)
  /-- The ticker of the loop. -/
  | tick

namespace Streamed

variable (re : Regexp) (c : Connection)

def written (s : Session) : SessionStep → ℤ → List StreamItem
  | .write true, timestamp =>
    match s.phase with
    | .writing event _ => [.event event timestamp]
    | _ => []
  | _, _ => []

def step (s : Streamed) : StreamedStep → Streamed × Unit
  | .step i timestamp =>
    (⟨(s.session.step re c i).1, s.items ++ written s.session i timestamp⟩, ())
  | .tick =>
    (match s.session.phase with
      | .looping | .receiving => { s with items := s.items ++ [.keepAlive] }
      | _ => s, ())

def machine : Machine Streamed StreamedStep Unit := ⟨step re c⟩

def start (store : KVStore) (aclEval : Option Evaluator) (bufferSize maxPerClient : ℤ) : Streamed :=
  ⟨.start store aclEval bufferSize maxPerClient, []⟩

/-- Timestamps are those of the type `int64`. -/
def Stamped : StreamedStep → Prop
  | .step _ timestamp => Json.Codec.IsInt timestamp
  | .tick => True

/-- What was written are the events sent, and comments. -/
structure Inv (s : Streamed) : Prop where
  sent : s.items.filterMap StreamItem.event? = s.session.sent
  stamped : ∀ i ∈ s.items, i.Stamped

variable {re : Regexp} {c : Connection} {s : Streamed}

theorem sent_step (re : Regexp) (c : Connection) (s : Session) (i : SessionStep) (timestamp : ℤ) :
    (s.step re c i).1.sent = s.sent ++ (written s i timestamp).filterMap StreamItem.event? := by
  cases i with
  | other i =>
    simp only [Session.step, written, List.filterMap_nil, List.append_nil]
    split_ifs <;> rfl
  | authorize =>
    simp only [Session.step, Session.authorize, written, List.filterMap_nil, List.append_nil]
    split
    · split <;> rfl
    · rfl
  | add =>
    simp only [Session.step, Session.add, written, List.filterMap_nil, List.append_nil]
    split
    · split_ifs <;> rfl
    · rfl
  | read =>
    simp only [Session.step, Session.read, written, List.filterMap_nil, List.append_nil]
    split
    · split_ifs
      · rfl
      · split <;> rfl
      · rfl
      · rfl
    · rfl
  | write ok =>
    simp only [Session.step, Session.write]
    cases ok with
    | true =>
      simp only [written, ite_true]
      cases s.phase with
      | writing event initial => rfl
      | _ => simp only [List.filterMap_nil, List.append_nil]
    | false =>
      simp only [written, Bool.false_eq_true, ite_false, List.filterMap_nil, List.append_nil]
      split
      · split_ifs <;> rfl
      · rfl
  | take =>
    simp only [Session.step, Session.take, written, List.filterMap_nil, List.append_nil]
    split <;> rfl
  | wake =>
    simp only [Session.step, Session.wake, written, List.filterMap_nil, List.append_nil]
    split
    · split
      · rfl
      · split_ifs <;> rfl
    · rfl
  | leave =>
    simp only [Session.step, Session.leave, written, List.filterMap_nil, List.append_nil]
    split <;> rfl
  | finish =>
    simp only [Session.step, Session.finish, written, List.filterMap_nil, List.append_nil]
    split_ifs <;> rfl

theorem stamped_written (s : Session) (i : SessionStep) {timestamp : ℤ}
    (h : Json.Codec.IsInt timestamp) : ∀ item ∈ written s i timestamp, item.Stamped := by
  intro item hitem
  unfold written at hitem
  split at hitem
  · split at hitem
    · rw [List.mem_singleton.mp hitem]
      exact h
    · cases hitem
  · cases hitem

theorem Inv.step (h : s.Inv) {i : StreamedStep} (hi : Stamped i) : (step re c s i).1.Inv := by
  cases i with
  | step i timestamp =>
    constructor
    · simp only [Streamed.step, List.filterMap_append, h.sent, sent_step re c s.session i timestamp]
    · intro item hitem
      rcases List.mem_append.mp hitem with hold | hnew
      · exact h.stamped item hold
      · exact stamped_written s.session i hi item hnew
  | tick =>
    have hcomment : ({ s with items := s.items ++ [.keepAlive] } : Streamed).Inv := by
      constructor
      · rw [List.filterMap_append, h.sent]
        exact List.append_nil _
      · intro item hitem
        rcases List.mem_append.mp hitem with hold | hnew
        · exact h.stamped item hold
        · rw [List.mem_singleton.mp hnew]
          trivial
    show (match s.session.phase with
      | .looping | .receiving => ({ s with items := s.items ++ [StreamItem.keepAlive] } : Streamed)
      | _ => s).Inv
    split
    · exact hcomment
    · exact hcomment
    · exact h

/-- However much of the stream of a session reaches the client, it prints the events whose
frames it has whole, in the order in which they were sent, and nothing else. -/
theorem client_shows_sent (re : Regexp) (c : Connection) (store : KVStore)
    (aclEval : Option Evaluator) (bufferSize maxPerClient : ℤ) (steps : List StreamedStep)
    (hsteps : ∀ i ∈ steps, Stamped i) :
    let s := ((machine re c).run (start store aclEval bufferSize maxPerClient) steps).1
    s.items.filterMap StreamItem.event? = s.session.sent ∧
      ∀ n k, Whole s.items n k →
        watchSSE ((eventStream s.items).take n) =
          (s.items.take k).filterMap fun i => i.shown.map .event := by
  intro s
  have hstart : (start store aclEval bufferSize maxPerClient).Inv :=
    ⟨rfl, fun i hi => absurd hi List.not_mem_nil⟩
  have hinv : s.Inv := (machine re c).invariant (fun s i h hi => h.step hi) hstart
    ((machine re c).along_of_forall _ hsteps)
  exact ⟨hinv.sent, fun n k hk => watchSSE_take hinv.stamped hk⟩

/-- A client of one key, whose value looks like a frame. -/
def framedConnection : Connection :=
  ⟨.sse, str "mode", [], some ⟨str "u1", str "ann", [], [], ⟨[], [], none, none, none⟩⟩, str "w1"⟩

def framedValue : GoString := str "on\n\ndata: {}\n\n"

def framedSteps : List StreamedStep :=
  [.step .authorize 0, .step .add 0, .step .finish 0, .step .read 0, .step (.write true) 1700000000,
    .tick]

instance : (i : StreamedStep) → Decidable (Stamped i)
  | .step _ timestamp => inferInstanceAs (Decidable (-2 ^ 63 ≤ timestamp ∧ timestamp < 2 ^ 63))
  | .tick => inferInstanceAs (Decidable True)

theorem client_shows_framed :
    let s := ((machine Watched.noRegexp framedConnection).run
      (start (KVStore.new.set (str "mode") framedValue) none 8 0) framedSteps).1
    watchSSE (eventStream s.items) =
      [.event ⟨str "set", str "mode", framedValue, [], 1700000000⟩] := by
  intro s
  have hall := (client_shows_sent Watched.noRegexp framedConnection
    (KVStore.new.set (str "mode") framedValue) none 8 0 framedSteps (by decide)).2
    (eventStream s.items).length s.items.length
    ⟨le_rfl, by rw [List.take_length], fun h => absurd h (lt_irrefl _)⟩
  rw [List.take_length] at hall
  rw [hall, List.take_length]
  decide

end Streamed

end Konsul.Watch
