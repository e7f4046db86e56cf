import Konsul.Dns.Server

/-!
# The documented forms of a question name

A service is asked for as `name.service.DOMAIN` or `name.node.DOMAIN` for its
address and as `_name._proto.service.DOMAIN` for its SRV record. The handlers read
labels and never the domain, so they pick the service the forms name only where the
name of the service is a single label and the domain is the configured one.
-/

namespace Konsul.Dns

open GoLib

/-! ### What a name denotes -/

def ServiceForm (domain name service : GoString) : Prop :=
  name = service ++ (str ".service." ++ domain)

def NodeForm (domain name service : GoString) : Prop :=
  name = service ++ (str ".node." ++ domain)

def AForm (domain name service : GoString) : Prop :=
  ServiceForm domain name service ∨ NodeForm domain name service

/-- The protocol is a label. -/
def SRVForm (domain name service : GoString) : Prop :=
  ∃ proto, proto ≠ [] ∧ dot ∉ proto ∧
    name = str "_" ++ service ++ (str "._" ++ proto ++ (str ".service." ++ domain))

section

variable {IP : Type} (parseIP : GoString → IP)

open Classical in
/-- The records of the services a question denotes, and no others. -/
noncomputable def expected (s : Server) (q : Question) (first second : Reading) : Msg IP :=
  let srv :=
    if q.qtype = TypeSRV ∨ q.qtype = TypeANY then
      first.list.filter fun service => SRVForm s.domain q.fqdn service.name
    else []
  let a :=
    if q.qtype = TypeA ∨ q.qtype = TypeANY then
      second.list.filter fun service => AForm s.domain q.fqdn service.name
    else []
  Server.finish (Server.addA parseIP q a (s.addSRV parseIP q srv Server.reply))

/-- The question is answered as documented, whatever is registered. -/
def Matches (s : Server) (q : Question) : Prop :=
  ∀ first second : Reading,
    s.handleDNSRequest parseIP [(q, first, second)] = expected parseIP s q first second

end

/-! ### What the handlers pick -/

def PicksSRV (q : Question) (service : GoString) : Prop :=
  4 ≤ q.parts.length ∧ service = trimPrefix (q.part 0) (str "_")

instance (q : Question) (service : GoString) : Decidable (PicksSRV q service) :=
  inferInstanceAs (Decidable (_ ∧ _))

def PicksA (q : Question) (service : GoString) : Prop :=
  3 ≤ q.parts.length ∧ (q.part 1 = str "node" ∨ q.part 1 = str "service") ∧ service = q.part 0

instance (q : Question) (service : GoString) : Decidable (PicksA q service) :=
  inferInstanceAs (Decidable (_ ∧ _ ∧ _))

namespace Server

variable {IP : Type} (parseIP : GoString → IP) (s : Server)

theorem addSRV_nil (q : Question) (msg : Msg IP) : s.addSRV parseIP q [] msg = msg := by
  simp [addSRV]

theorem addA_nil (q : Question) (msg : Msg IP) : addA parseIP q [] msg = msg := by
  simp [addA]

theorem handleSRVQuery_eq (services : List Service) (q : Question) (msg : Msg IP) :
    s.handleSRVQuery parseIP services q msg =
      s.addSRV parseIP q (services.filter fun service => PicksSRV q service.name) msg := by
  rw [handleSRVQuery]
  by_cases hshort : q.parts.length < 4
  · have hnone : (services.filter fun service => PicksSRV q service.name) = [] :=
      List.filter_eq_nil_iff.mpr fun service _ => by
        have : ¬ 4 ≤ q.parts.length := by omega
        simp [PicksSRV, this]
    rw [if_pos hshort, hnone, addSRV_nil]
  · have hlong : 4 ≤ q.parts.length := by omega
    rw [if_neg hshort]
    simp only [PicksSRV, hlong, true_and]

theorem handleAQuery_eq (services : List Service) (q : Question) (msg : Msg IP) :
    handleAQuery parseIP services q msg =
      addA parseIP q (services.filter fun service => PicksA q service.name) msg := by
  rw [handleAQuery]
  by_cases hread : 3 ≤ q.parts.length ∧ (q.part 1 = str "node" ∨ q.part 1 = str "service")
  · have hlong : ¬ q.parts.length < 3 := by omega
    rw [if_neg hlong, if_pos hread.2]
    simp only [PicksA, hread.1, hread.2, true_and]
  · have hnone : (services.filter fun service => PicksA q service.name) = [] :=
      List.filter_eq_nil_iff.mpr fun service _ hpicks =>
        hread ⟨(of_decide_eq_true hpicks).1, (of_decide_eq_true hpicks).2.1⟩
    rw [hnone, addA_nil]
    split_ifs with hshort hkind
    · rfl
    · exact absurd ⟨by omega, hkind⟩ hread
    · rfl

theorem handleQuestion_eq (q : Question) (first second : Reading) (msg : Msg IP) :
    s.handleQuestion parseIP q first second msg =
      addA parseIP q
        (if q.qtype = TypeA ∨ q.qtype = TypeANY then
          second.list.filter fun service => PicksA q service.name
        else [])
        (s.addSRV parseIP q
          (if q.qtype = TypeSRV ∨ q.qtype = TypeANY then
            first.list.filter fun service => PicksSRV q service.name
          else []) msg) := by
  have hkinds : TypeSRV ≠ TypeA ∧ TypeSRV ≠ TypeANY ∧ TypeA ≠ TypeANY := by decide
  obtain ⟨hsa, hsany, haany⟩ := hkinds
  rw [handleQuestion]
  by_cases hsrv : q.qtype = TypeSRV
  · simp only [hsrv, hsa, hsany, or_false, ite_true, ite_false, handleSRVQuery_eq, addA_nil]
  · by_cases ha : q.qtype = TypeA
    · simp only [ha, Ne.symm hsa, haany, or_false, ite_true, ite_false, handleAQuery_eq,
        addSRV_nil]
    · by_cases hany : q.qtype = TypeANY
      · simp only [hany, Ne.symm hsany, Ne.symm haany, or_true, ite_true, ite_false,
          handleAQuery_eq, handleSRVQuery_eq]
      · simp only [hsrv, ha, hany, or_false, ite_false, addA_nil, addSRV_nil]

theorem handleDNSRequest_one (q : Question) (first second : Reading) :
    s.handleDNSRequest parseIP [(q, first, second)] =
      finish (addA parseIP q
        (if q.qtype = TypeA ∨ q.qtype = TypeANY then
          second.list.filter fun service => PicksA q service.name
        else [])
        (s.addSRV parseIP q
          (if q.qtype = TypeSRV ∨ q.qtype = TypeANY then
            first.list.filter fun service => PicksSRV q service.name
          else []) reply)) := by
  rw [handleDNSRequest, List.foldl_cons, List.foldl_nil, handleQuestion_eq]

theorem length_answer (q : Question) (srv a : List Service) :
    (finish (addA parseIP q a (s.addSRV parseIP q srv reply))).answer.length =
      srv.length + a.length := by
  rw [finish]
  split_ifs <;> simp [addA, addSRV, reply]

end Server

/-! ### Registries of one service -/

namespace Reading

def empty : Reading := ⟨⟨∅, ∅, ∅, 0⟩, 0, ⟨[], rfl⟩⟩

def named (name : GoString) : Service := ⟨name, str "10.0.0.1", 80, [], ∅, []⟩

/-- One service, which is live. -/
def single (name : GoString) : Reading where
  table := ⟨Finmap.singleton name ⟨named name, 10, 1, 1⟩, ∅, ∅, 1⟩
  now := 0
  range := ⟨[⟨name, ⟨named name, 10, 1, 1⟩⟩], rfl⟩

theorem list_empty : empty.list = [] := rfl

theorem list_single (name : GoString) : (single name).list = [named name] := by
  have hlive : (10 : Time) > 0 := by decide
  simp [list, ServiceTable.list, single, hlive]

end Reading

/-- An answer is as documented for every registry just where the handlers pick
the services that the forms name. -/
theorem matches_iff_picks {IP : Type} (parseIP : GoString → IP) (s : Server) (q : Question) :
    Matches parseIP s q ↔
      (q.qtype = TypeSRV ∨ q.qtype = TypeANY →
        ∀ name, PicksSRV q name ↔ SRVForm s.domain q.fqdn name) ∧
      (q.qtype = TypeA ∨ q.qtype = TypeANY →
        ∀ name, PicksA q name ↔ AForm s.domain q.fqdn name) := by
  classical
  constructor
  · intro hmatches
    have hlength : ∀ first second : Reading,
        (s.handleDNSRequest parseIP [(q, first, second)]).answer.length =
          (expected parseIP s q first second).answer.length :=
      fun first second => congrArg (fun msg => msg.answer.length) (hmatches first second)
    simp only [Server.handleDNSRequest_one, expected, Server.length_answer] at hlength
    constructor
    · intro htype name
      have hone := hlength (.single name) .empty
      simp only [htype, ite_true, Reading.list_single, Reading.list_empty, List.filter_nil,
        ite_self, List.length_nil, Nat.add_zero, Reading.named, List.filter_cons] at hone
      by_cases hpicks : PicksSRV q name
      · by_cases hform : SRVForm s.domain q.fqdn name
        · exact iff_of_true hpicks hform
        · simp [hpicks, hform] at hone
      · by_cases hform : SRVForm s.domain q.fqdn name
        · simp [hpicks, hform] at hone
        · exact iff_of_false hpicks hform
    · intro htype name
      have hone := hlength .empty (.single name)
      simp only [htype, ite_true, Reading.list_single, Reading.list_empty, List.filter_nil,
        ite_self, List.length_nil, Nat.zero_add, Reading.named, List.filter_cons] at hone
      by_cases hpicks : PicksA q name
      · by_cases hform : AForm s.domain q.fqdn name
        · exact iff_of_true hpicks hform
        · simp [hpicks, hform] at hone
      · by_cases hform : AForm s.domain q.fqdn name
        · simp [hpicks, hform] at hone
        · exact iff_of_false hpicks hform
  · rintro ⟨hsrv, ha⟩ first second
    rw [Server.handleDNSRequest_one, expected]
    have hfirst : (if q.qtype = TypeSRV ∨ q.qtype = TypeANY then
          first.list.filter fun service => PicksSRV q service.name
        else []) =
        if q.qtype = TypeSRV ∨ q.qtype = TypeANY then
          first.list.filter fun service => SRVForm s.domain q.fqdn service.name
        else [] := by
      split_ifs with htype
      · exact List.filter_congr fun service _ => by rw [decide_eq_decide]; exact hsrv htype _
      · rfl
    have hsecond : (if q.qtype = TypeA ∨ q.qtype = TypeANY then
          second.list.filter fun service => PicksA q service.name
        else []) =
        if q.qtype = TypeA ∨ q.qtype = TypeANY then
          second.list.filter fun service => AForm s.domain q.fqdn service.name
        else [] := by
      split_ifs with htype
      · exact List.filter_congr fun service _ => by rw [decide_eq_decide]; exact ha htype _
      · rfl
    rw [hfirst, hsecond]

/-! ### Names the handlers read as documented -/

/-- Too few labels, or the form of a service whose name is a label. -/
def ReadsSRV (domain : GoString) (q : Question) : Prop :=
  q.parts.length < 4 ∨ ∃ label, dot ∉ label ∧ SRVForm domain q.fqdn label

/-- The form of a service whose name is a label; or no form, and the second of three
or more labels is neither `node` nor `service`. -/
def ReadsA (domain : GoString) (q : Question) : Prop :=
  (∃ label, dot ∉ label ∧ AForm domain q.fqdn label) ∨
    ¬ (3 ≤ q.parts.length ∧ (q.part 1 = str "node" ∨ q.part 1 = str "service")) ∧
      ∀ name, ¬ AForm domain q.fqdn name

theorem length_split_pos (s : GoString) : 0 < (split dot s).length :=
  List.length_pos_of_ne_nil (split_ne_nil dot s)

theorem split_form (kind domain name : GoString) (hkind : dot ∉ kind) :
    split dot (name ++ dot :: (kind ++ dot :: domain)) = split dot name ++ kind :: split dot domain := by
  rw [split_append, split_append, split_of_notMem hkind, List.singleton_append]

theorem notMem_dot_service : dot ∉ str "service" := by decide

theorem notMem_dot_node : dot ∉ str "node" := by decide

theorem ServiceForm.split {domain name service : GoString} (h : ServiceForm domain name service) :
    split dot name = split dot service ++ str "service" :: split dot domain := by
  have hkind : str ".service." ++ domain = dot :: (str "service" ++ dot :: domain) := rfl
  rw [ServiceForm, hkind] at h
  rw [h, split_form _ _ _ notMem_dot_service]

theorem NodeForm.split {domain name service : GoString} (h : NodeForm domain name service) :
    split dot name = split dot service ++ str "node" :: split dot domain := by
  have hkind : str ".node." ++ domain = dot :: (str "node" ++ dot :: domain) := rfl
  rw [NodeForm, hkind] at h
  rw [h, split_form _ _ _ notMem_dot_node]

/-- No name is a service and a node. -/
theorem ServiceForm.not_node {domain name service service' : GoString}
    (h : ServiceForm domain name service) : ¬ NodeForm domain name service' := by
  intro h'
  have hparts := h.split.symm.trans h'.split
  have htail := (List.append_inj' hparts rfl).2
  exact absurd (List.cons.inj htail).1 (by decide)

theorem AForm.unique {domain name service service' : GoString} (h : AForm domain name service)
    (h' : AForm domain name service') : service = service' := by
  rcases h with h | h
  · rcases h' with h' | h'
    · exact List.append_cancel_right (h.symm.trans h')
    · exact absurd h' h.not_node
  · rcases h' with h' | h'
    · exact absurd h h'.not_node
    · exact List.append_cancel_right (h.symm.trans h')

theorem AForm.parts {domain label : GoString} {q : Question} (h : AForm domain q.fqdn label)
    (hlabel : dot ∉ label) :
    3 ≤ q.parts.length ∧ (q.part 1 = str "node" ∨ q.part 1 = str "service") ∧ q.part 0 = label := by
  have hpos := length_split_pos domain
  rcases h with h | h
  · have hparts : q.parts = label :: str "service" :: split dot domain := by
      rw [Question.parts, h.split, split_of_notMem hlabel, List.singleton_append]
    rw [Question.part, Question.part, hparts]
    exact ⟨by simp only [List.length_cons]; omega, .inr rfl, rfl⟩
  · have hparts : q.parts = label :: str "node" :: split dot domain := by
      rw [Question.parts, h.split, split_of_notMem hlabel, List.singleton_append]
    rw [Question.part, Question.part, hparts]
    exact ⟨by simp only [List.length_cons]; omega, .inl rfl, rfl⟩

theorem notMem_dot_part {q : Question} {i : ℕ} (h : i < q.parts.length) : dot ∉ q.part i := by
  have hpart : q.part i = q.parts[i] := by
    rw [Question.part, List.getD_eq_getElem?_getD, List.getElem?_eq_getElem h, Option.getD_some]
  rw [hpart]
  exact notMem_of_mem_split (List.getElem_mem h)

theorem picksA_iff (domain : GoString) (q : Question) :
    (∀ name, PicksA q name ↔ AForm domain q.fqdn name) ↔ ReadsA domain q := by
  constructor
  · intro hagree
    by_cases hread : 3 ≤ q.parts.length ∧ (q.part 1 = str "node" ∨ q.part 1 = str "service")
    · have hform := (hagree (q.part 0)).mp ⟨hread.1, hread.2, rfl⟩
      exact .inl ⟨q.part 0, notMem_dot_part (by omega), hform⟩
    · exact .inr ⟨hread, fun name hform =>
        hread ⟨((hagree name).mpr hform).1, ((hagree name).mpr hform).2.1⟩⟩
  · rintro (⟨label, hlabel, hform⟩ | ⟨hread, hnone⟩) name
    · obtain ⟨hlength, hkind, hfirst⟩ := hform.parts hlabel
      constructor
      · rintro ⟨-, -, rfl⟩
        rw [hfirst]
        exact hform
      · intro hname
        exact ⟨hlength, hkind, by rw [hfirst]; exact hname.unique hform⟩
    · exact iff_of_false (fun hpicks => hread ⟨hpicks.1, hpicks.2.1⟩) (hnone name)

theorem notMem_dot_underscore {label : GoString} (hlabel : dot ∉ label) :
    dot ∉ str "_" ++ label := by
  intro hmem
  rcases List.mem_append.mp hmem with hmem | hmem
  · exact absurd hmem (by decide)
  · exact hlabel hmem

theorem SRVForm.split {domain name service : GoString} (h : SRVForm domain name service) :
    ∃ proto, split dot name =
      split dot (str "_" ++ service) ++ (str "_" ++ proto) :: str "service" :: split dot domain := by
  obtain ⟨proto, -, hproto, rfl⟩ := h
  have htail : str "._" ++ proto ++ (str ".service." ++ domain) =
      dot :: ((str "_" ++ proto) ++ dot :: (str "service" ++ dot :: domain)) := rfl
  refine ⟨proto, ?_⟩
  rw [htail, split_append, split_form _ _ _ notMem_dot_service,
    split_of_notMem (notMem_dot_underscore hproto), List.singleton_append]

theorem SRVForm.unique {domain name label service : GoString} (hlabel : dot ∉ label)
    (h : SRVForm domain name label) (h' : SRVForm domain name service) : service = label := by
  obtain ⟨proto, hparts⟩ := h.split
  obtain ⟨proto', hparts'⟩ := h'.split
  have heq := hparts.symm.trans hparts'
  have hhead := (List.append_inj' heq rfl).1
  rw [split_of_notMem (notMem_dot_underscore hlabel)] at hhead
  exact List.append_cancel_left (eq_of_split_eq_singleton hhead.symm)

theorem picksSRV_iff (domain : GoString) (q : Question) :
    (∀ name, PicksSRV q name ↔ SRVForm domain q.fqdn name) ↔ ReadsSRV domain q := by
  constructor
  · intro hagree
    by_cases hshort : q.parts.length < 4
    · exact .inl hshort
    · have hform := (hagree _).mp ⟨by omega, rfl⟩
      refine .inr ⟨trimPrefix (q.part 0) (str "_"), fun hmem => ?_, hform⟩
      have hpart : dot ∉ q.part 0 := notMem_dot_part (by omega)
      rw [trimPrefix] at hmem
      split_ifs at hmem
      · exact hpart (List.mem_of_mem_drop hmem)
      · exact hpart hmem
  · rintro (hshort | ⟨label, hlabel, hform⟩) name
    · refine iff_of_false (fun hpicks => absurd hpicks.1 (by omega)) fun hform => ?_
      obtain ⟨proto, hparts⟩ := hform.split
      have hname := length_split_pos (str "_" ++ name)
      have hdomain := length_split_pos domain
      rw [Question.parts, hparts, List.length_append, List.length_cons, List.length_cons] at hshort
      omega
    · obtain ⟨proto, hparts⟩ := hform.split
      rw [split_of_notMem (notMem_dot_underscore hlabel), List.singleton_append] at hparts
      have hdomain := length_split_pos domain
      have hlength : 4 ≤ q.parts.length := by
        rw [Question.parts, hparts, List.length_cons, List.length_cons, List.length_cons]
        omega
      have hfirst : trimPrefix (q.part 0) (str "_") = label := by
        rw [Question.part, Question.parts, hparts, List.getD_cons_zero, trimPrefix_append]
      constructor
      · rintro ⟨-, rfl⟩
        rw [hfirst]
        exact hform
      · intro hname
        exact ⟨hlength, by rw [hfirst]; exact SRVForm.unique hlabel hform hname⟩

/-! ### Answers -/

/-- The questions that are answered as documented whatever is registered. -/
theorem matches_iff {IP : Type} (parseIP : GoString → IP) (s : Server) (q : Question) :
    Matches parseIP s q ↔
      (q.qtype = TypeSRV ∨ q.qtype = TypeANY → ReadsSRV s.domain q) ∧
      (q.qtype = TypeA ∨ q.qtype = TypeANY → ReadsA s.domain q) := by
  rw [matches_iff_picks, picksSRV_iff, picksA_iff]

/-- A question outside the configured domain is answered. -/
theorem foreign_domain_is_answered :
    ¬ Matches (fun address => address) ⟨str "consul"⟩ ⟨str "web.service.example.org.", TypeA⟩ := by
  intro hmatches
  have hanswer := congrArg (fun msg => msg.answer.length) (hmatches .empty (.single (str "web")))
  have hone : ((⟨str "consul"⟩ : Server).handleDNSRequest (fun address => address)
      [(⟨str "web.service.example.org.", TypeA⟩, .empty, .single (str "web"))]).answer.length = 1 := by
    decide
  have hnot : ¬ AForm (str "consul") (Question.fqdn ⟨str "web.service.example.org.", TypeA⟩)
      (str "web") := by
    rintro (h | h)
    · exact absurd h (by unfold ServiceForm; decide)
    · exact absurd h (by unfold NodeForm; decide)
  simp only [hone, expected, Server.length_answer, Reading.list_single, Reading.named,
    List.filter_cons, hnot, List.filter_nil] at hanswer
  simp [TypeA, TypeSRV, TypeANY] at hanswer

end Konsul.Dns
