import Konsul.Auth.Sessions
import Konsul.Cmd.Reach

/-!
# Every access to an entry is authorized

`Mediated` is the property: in every run of a request, whatever the stores, Raft
and the engine answer, a call that touches an entry comes after the evaluator
has granted its capability on that entry to the caller. `Mediates` says of a
request when this is so.
-/

namespace Konsul

open GoLib

/-- What has been done for a request. -/
abbrev Past := List (Program.Event WebCall.Answer)

namespace Server

variable (S : Server) (req : HttpRequest)

/-- The evaluator answers for itself; a call may answer anything. -/
def Can : (c : WebCall) → c.Answer → Prop
  | .evaluate policyNames resource capability, allowed =>
    allowed = S.evaluator.evaluate S.re policyNames resource capability
  | .store _ _, _ => True

/-- The request carries a token with these claims. -/
def Presents (claims : Claims) : Prop :=
  ∃ token, (JWTAuth.bearer req.authHeader = .ok token ∨
      graphqlToken req.authHeader = some token) ∧
    S.auth.jwtService.validateToken S.auth.jwt req.now token = .ok claims

/-- The evaluator has been asked about the access under the policies of the caller, and
has granted it. -/
def Granted (past : Past) (resource : Resource) (capability : Capability) : Prop :=
  ∃ claims, S.Presents req claims ∧ ⟨.evaluate claims.policies resource capability, true⟩ ∈ past

def Mediated : Prop :=
  ∀ before capability c a after,
    (S.serve req).Begins S.Can (before ++ ⟨.store capability c, a⟩ :: after) →
    ∀ slot, c.Touches a slot → S.Granted req before slot.resource capability

/-! ### Step by step -/

def Justified (past : Past) : Program.Event WebCall.Answer → Prop
  | ⟨.store capability c, a⟩ =>
    ∀ slot, c.Touches a slot → S.Granted req past slot.resource capability
  | ⟨.evaluate _ _ _, _⟩ => True

/-- A program that goes on after these steps keeps to the property. -/
def Heeds {R : Type} (past : Past) (p : Web R) : Prop :=
  p.Heeds S.Can (S.Justified req) past

variable {S req}

theorem mediated_iff_heeds : S.Mediated req ↔ S.Heeds req [] (S.serve req) := by
  refine Iff.trans ?_ (Program.heeds_iff S.Can (S.Justified req) _ []).symm
  constructor
  · rintro h before ⟨c, a⟩ after hbegins
    cases c with
    | evaluate policyNames resource capability => trivial
    | store capability c => exact h before capability c a after hbegins
  · exact fun h before capability c a after hbegins => h before _ after hbegins

theorem granted_store_iff {past : Past} {capability : Capability}
    {c : StoreCall} {a : c.Answer} {resource : Resource} {capability' : Capability} :
    S.Granted req (past ++ [⟨.store capability c, a⟩]) resource capability' ↔
      S.Granted req past resource capability' := by
  refine exists_congr fun claims => and_congr_right fun _ => ?_
  rw [List.mem_append, List.mem_singleton, or_iff_left (fun h => nomatch h)]

theorem heeds_under_iff {R : Type} (capability : StoreCall → Capability) (p : Reader R)
    (past : Past) :
    S.Heeds req past (p.under capability) ↔
      p.Only fun c => ∀ a slot, c.Touches a slot → S.Granted req past slot.resource (capability c) := by
  induction p generalizing past with
  | ret r => exact Iff.rfl
  | call c next ih =>
    have hnext (a : c.Answer) := ih a (past ++ [⟨.store (capability c) c, a⟩])
    simp only [granted_store_iff] at hnext
    refine Iff.trans ?_ forall_and
    exact forall_congr' fun a => (forall_prop_of_true trivial).trans (and_congr_right fun _ => hnext a)

/-! ### The access control -/

theorem granted_nil {resource : Resource} {capability : Capability} :
    ¬ S.Granted req [] resource capability := fun ⟨_, _, h⟩ => nomatch h

theorem presents_of_middleware {claims : Claims} (h : S.middleware req = .ok (some claims)) :
    S.Presents req claims := by
  unfold middleware at h
  split at h
  · cases h
  · split_ifs at h
    · split at h
      · cases h
      · rename_i passed hpass
        obtain rfl := Except.ok.inj h
        unfold JWTAuth.handle at hpass
        split_ifs at hpass
        · cases hpass
        · split at hpass
          · cases hpass
          · rename_i token htoken
            split at hpass
            · cases hpass
            · rename_i claims' hvalid
              cases hpass
              exact ⟨token, Or.inl htoken, hvalid⟩
    · cases h

variable (S)

/-- The access control lets the request through. -/
def LetThrough (claims : Option Claims) (ctx : Ctx) : Prop :=
  ∃ c, claims = some c ∧ c.policies ≠ [] ∧
    S.evaluator.evaluate S.re c.policies ctx.inferResourceAndCapability.1
      ctx.inferResourceAndCapability.2 = true

variable {S}

theorem LetThrough.not_deny {claims : Option Claims} {ctx : Ctx} (h : S.LetThrough claims ctx) :
    ctx.inferResourceAndCapability.2 ≠ .deny := by
  obtain ⟨c, -, -, hallowed⟩ := h
  intro hdeny
  rw [hdeny, evaluate_deny] at hallowed
  cases hallowed

/-- Behind the access control what was inferred has been granted, and nothing else. -/
theorem heeds_dynamicACL_iff {claims : Option Claims} (hpassed : S.middleware req = .ok claims)
    (ctx : Ctx) (p : Reader Display) :
    S.Heeds req [] (dynamicACL claims ctx (p.under StoreCall.capability)) ↔
      (S.LetThrough claims ctx → p.Only (StoreCall.Within fun capability slot =>
        (slot.resource, capability) = ctx.inferResourceAndCapability)) := by
  cases claims with
  | none => exact iff_of_true trivial fun ⟨_, h, _⟩ => nomatch h
  | some claims =>
    by_cases hpolicies : claims.policies = []
    · rw [dynamicACL, if_pos hpolicies]
      refine iff_of_true trivial fun ⟨_, h, hne, _⟩ => ?_
      exact absurd (Option.some.inj h ▸ hpolicies) hne
    · rw [dynamicACL, if_neg hpolicies]
      have hthrough : S.LetThrough (some claims) ctx ↔
          S.evaluator.evaluate S.re claims.policies ctx.inferResourceAndCapability.1
            ctx.inferResourceAndCapability.2 = true :=
        ⟨fun ⟨_, h, _, hallowed⟩ => Option.some.inj h ▸ hallowed,
          fun hallowed => ⟨claims, rfl, hpolicies, hallowed⟩⟩
      rw [hthrough]
      cases ctx.inferResourceAndCapability with
      | mk resource capability =>
      have hgranted (slot : Slot) (c : Capability) :
          S.Granted req [⟨.evaluate claims.policies resource capability, true⟩] slot.resource c ↔
            (slot.resource, c) = (resource, capability) := by
        constructor
        · rintro ⟨claims', -, hmem⟩
          have heq := List.mem_singleton.mp hmem
          injection heq with heq
          injection heq with _ hresource hcapability
          rw [hresource, hcapability]
        · intro heq
          obtain ⟨hresource, rfl⟩ := Prod.mk.inj heq
          exact ⟨claims, presents_of_middleware hpassed, by rw [hresource]; exact List.mem_singleton_self _⟩
      constructor
      · intro h hallowed
        have hnext := (h true hallowed.symm).2
        have honly := (heeds_under_iff StoreCall.capability p _).mp hnext
        exact honly.mono fun c hc a slot htouch => (hgranted slot _).mp (hc a slot htouch)
      · intro h allowed hcan
        refine ⟨trivial, ?_⟩
        cases allowed with
        | false => trivial
        | true =>
          refine (heeds_under_iff StoreCall.capability p _).mpr ?_
          exact (h hcan.symm).mono fun c hc a slot htouch => (hgranted slot _).mpr (hc a slot htouch)

end Server

/-! ### What is inferred below `/kv` -/

namespace Ctx

variable (method : GoString)

theorem inferKV_head (path : GoString) : (⟨str "HEAD", path, []⟩ : Ctx).inferKV = none := by
  have hget : str "HEAD" ≠ str "GET" := by decide
  have hput : str "HEAD" ≠ str "PUT" := by decide
  have hpost : str "HEAD" ≠ str "POST" := by decide
  have hdelete : str "HEAD" ≠ str "DELETE" := by decide
  simp only [inferKV, hget, hput, hpost, hdelete, or_self, ite_false, ite_self]

theorem infer_of_base {base : GoString} (hbase : base ∈ [str "/kv", str "/KV", str "/kV", str "/Kv"])
    (rest : GoString) : (⟨method, base ++ rest, []⟩ : Ctx).inferResourceAndCapability =
      (⟨method, base ++ rest, []⟩ : Ctx).inferKV.getD (⟨.admin, []⟩, .deny) := by
  have hservice : (⟨method, base ++ rest, []⟩ : Ctx).inferService = none := by
    refine if_neg ?_
    simp only [List.mem_cons, List.not_mem_nil, or_false] at hbase
    rcases hbase with rfl | rfl | rfl | rfl <;> rintro (h | h | h | h) <;> exact Bool.false_ne_true h
  have hhealth : (⟨method, base ++ rest, []⟩ : Ctx).inferHealth = none := by
    refine if_neg ?_
    simp only [List.mem_cons, List.not_mem_nil, or_false] at hbase
    rcases hbase with rfl | rfl | rfl | rfl <;> exact Bool.false_ne_true
  have hbackup : (⟨method, base ++ rest, []⟩ : Ctx).inferBackup = none := by
    simp only [List.mem_cons, List.not_mem_nil, or_false] at hbase
    rcases hbase with rfl | rfl | rfl | rfl <;> rfl
  have hadmin : (⟨method, base ++ rest, []⟩ : Ctx).inferAdmin = none := by
    refine if_neg ?_
    simp only [List.mem_cons, List.not_mem_nil, or_false] at hbase
    rcases hbase with rfl | rfl | rfl | rfl <;> rintro (h | h) <;> exact Bool.false_ne_true h
  rw [inferResourceAndCapability, hservice, hhealth, hbackup, hadmin]
  cases (⟨method, base ++ rest, []⟩ : Ctx).inferKV <;> rfl

/-- The router takes `/KV` for `/kv`, the inference does not. -/
theorem infer_of_upper {base : GoString} (hbase : base ∈ [str "/KV", str "/kV", str "/Kv"])
    (rest : GoString) : (⟨method, base ++ rest, []⟩ : Ctx).inferResourceAndCapability =
      (⟨.admin, []⟩, .deny) := by
  have hkv : (⟨method, base ++ rest, []⟩ : Ctx).inferKV = none := by
    refine if_neg ?_
    simp only [List.mem_cons, List.not_mem_nil, or_false] at hbase
    rintro (h | h)
    · rcases hbase with rfl | rfl | rfl <;> exact Bool.false_ne_true h
    · rcases hbase with rfl | rfl | rfl
      · have hbytes : str "/KV" = str "/kv" := congrArg (List.take 3) h
        exact absurd hbytes (by decide)
      · have hbytes : str "/kV" = str "/kv" := congrArg (List.take 3) h
        exact absurd hbytes (by decide)
      · have hbytes : str "/Kv" = str "/kv" := congrArg (List.take 3) h
        exact absurd hbytes (by decide)
  rw [infer_of_base method (List.mem_cons_of_mem _ hbase), hkv]
  rfl

theorem kvKey_of_key {key : GoString} (hkey : key ≠ []) (n : ℕ) :
    (⟨method, str "/kv" ++ Path.slash :: key ++ List.replicate n Path.slash, []⟩ : Ctx).kvKey =
      key ++ List.replicate n Path.slash := by
  have hne : key ++ List.replicate n Path.slash ≠ [] := fun h => hkey (List.append_eq_nil_iff.mp h).1
  exact if_neg hne

theorem kvKey_of_no_key (n : ℕ) :
    newKVResource (⟨method, str "/kv" ++ List.replicate n Path.slash, []⟩ : Ctx).kvKey ≠
      newKVResource [] := by
  match n with
  | 0 =>
    have hkey : (⟨method, str "/kv" ++ List.replicate 0 Path.slash, []⟩ : Ctx).kvKey = str "*" := rfl
    rw [hkey]
    decide
  | 1 =>
    have hkey : (⟨method, str "/kv" ++ List.replicate 1 Path.slash, []⟩ : Ctx).kvKey = str "*" := rfl
    rw [hkey]
    decide
  | n + 2 =>
    have hkey : (⟨method, str "/kv" ++ List.replicate (n + 2) Path.slash, []⟩ : Ctx).kvKey =
        [Path.slash] ++ List.replicate n Path.slash := rfl
    rw [hkey, newKVResource, Path.clean_append_slashes (List.cons_ne_nil _ _)]
    decide


/-- The resource and the capability of a method, where the inference for keys fits. -/
theorem infer_write {c : Ctx} {capability : Capability}
    (hpath : hasPrefix c.path (str "/kv/") ∨ c.path = str "/kv")
    (hmethod : c.method = str "PUT" ∧ capability = .write ∨
      c.method = str "DELETE" ∧ capability = .delete) :
    c.inferResourceAndCapability = (newKVResource c.kvKey, capability) := by
  have hkv : c.inferKV = some (newKVResource c.kvKey, capability) := by
    rw [inferKV, if_pos hpath]
    rcases hmethod with ⟨hmethod, rfl⟩ | ⟨hmethod, rfl⟩
    · simp only [hmethod]
      rfl
    · simp only [hmethod]
      rfl
  rw [inferResourceAndCapability, hkv]
  rfl

theorem infer_get {c : Ctx} (hpath : hasPrefix c.path (str "/kv/") ∨ c.path = str "/kv")
    (hmethod : c.method = str "GET") :
    c.inferResourceAndCapability = (newKVResource c.kvKey,
      if c.kvKey = str "*" ∨ c.path = str "/kv/" ∨ c.path = str "/kv" then .list else .read) := by
  have hkv : c.inferKV = some (newKVResource c.kvKey,
      if c.kvKey = str "*" ∨ c.path = str "/kv/" ∨ c.path = str "/kv" then .list else .read) := by
    rw [inferKV, if_pos hpath]
    simp only [hmethod, ite_true]
    split_ifs <;> rfl
  rw [inferResourceAndCapability, hkv]
  rfl

theorem path_fits (rest : GoString) (n : ℕ) :
    hasPrefix (str "/kv" ++ (if rest = [] then [] else Path.slash :: rest) ++
      List.replicate n Path.slash) (str "/kv/") ∨
    str "/kv" ++ (if rest = [] then [] else Path.slash :: rest) ++ List.replicate n Path.slash =
      str "/kv" := by
  by_cases hrest : rest = []
  · rw [if_pos hrest]
    cases n with
    | zero => exact Or.inr rfl
    | succ n => exact Or.inl rfl
  · rw [if_neg hrest]
    exact Or.inl rfl

end Ctx

namespace Server

variable {S : Server} {claims : Option Claims} {method path key : GoString}

/-- A request let through to a key has come by `/kv` in small letters. -/
theorem LetThrough.base (hlet : S.LetThrough claims ⟨method, path, []⟩) (hpath : KVPath path key) :
    ∃ n, path = str "/kv" ++ (if key = [] then [] else Path.slash :: key) ++
      List.replicate n Path.slash := by
  obtain ⟨base, hbase, n, rfl⟩ := hpath
  rcases List.mem_cons.mp hbase with rfl | hupper
  · exact ⟨n, rfl⟩
  · have hdeny := hlet.not_deny
    rw [List.append_assoc, Ctx.infer_of_upper method hupper] at hdeny
    exact absurd rfl hdeny

variable (hlet : S.LetThrough claims ⟨method, path, []⟩) (hpath : KVPath path key)

include hlet hpath

theorem infer_write_of_key {capability : Capability} (hkey : key ≠ [])
    (hmethod : method = str "PUT" ∧ capability = .write ∨
      method = str "DELETE" ∧ capability = .delete) :
    (⟨method, path, []⟩ : Ctx).inferResourceAndCapability = (newKVResource key, capability) := by
  obtain ⟨n, hn⟩ := hlet.base hpath
  have hfits := Ctx.path_fits key n
  rw [← hn] at hfits
  rw [Ctx.infer_write hfits hmethod]
  rw [if_neg hkey] at hn
  subst hn
  rw [Ctx.kvKey_of_key method hkey, newKVResource, Path.clean_append_slashes hkey]
  rfl

theorem infer_write_of_no_key {capability : Capability} (hkey : key = [])
    (hmethod : method = str "PUT" ∧ capability = .write ∨
      method = str "DELETE" ∧ capability = .delete) :
    (⟨method, path, []⟩ : Ctx).inferResourceAndCapability ≠ (newKVResource [], capability) := by
  obtain ⟨n, hn⟩ := hlet.base hpath
  have hfits := Ctx.path_fits key n
  rw [← hn] at hfits
  rw [Ctx.infer_write hfits hmethod]
  rw [if_pos hkey, List.append_nil] at hn
  subst hn
  exact fun h => Ctx.kvKey_of_no_key method n (Prod.mk.inj h).1

/-- A read of the key `*` is taken for a list. -/
theorem infer_get_of_key (hkey : key ≠ []) (hmethod : Gets method) :
    (newKVResource key, Capability.read) = (⟨method, path, []⟩ : Ctx).inferResourceAndCapability ↔
      path ≠ str "/kv/*" := by
  obtain ⟨n, hn⟩ := hlet.base hpath
  have hfits := Ctx.path_fits key n
  rw [← hn] at hfits
  rw [if_neg hkey] at hn
  rcases hmethod with rfl | rfl
  · have hkvKey : (⟨str "GET", path, []⟩ : Ctx).kvKey = key ++ List.replicate n Path.slash := by
      rw [hn, Ctx.kvKey_of_key _ hkey]
    have hsplit : path = str "/kv/" ++ (key ++ List.replicate n Path.slash) := hn
    have hne : key ++ List.replicate n Path.slash ≠ [] :=
      fun h => hkey (List.append_eq_nil_iff.mp h).1
    have hstar : key ++ List.replicate n Path.slash = str "*" ↔ path = str "/kv/*" := by
      rw [hsplit]
      exact (List.append_right_inj (str "/kv/")).symm
    have hslash : path ≠ str "/kv/" := by
      rw [hsplit]
      exact fun h => hne (List.append_right_eq_self.mp h)
    have hbase : path ≠ str "/kv" := by
      rw [hsplit]
      intro h
      have hlength := congrArg List.length h
      rw [List.length_append] at hlength
      exact absurd hlength (by simp [show (str "/kv/").length = 4 from rfl,
        show (str "/kv").length = 3 from rfl]; omega)
    rw [Ctx.infer_get hfits rfl]
    split_ifs with h
    · have hpath : path = str "/kv/*" := by
        rw [hkvKey] at h
        exact hstar.mp (h.resolve_right (not_or.mpr ⟨hslash, hbase⟩))
      exact iff_of_false (fun heq => absurd (Prod.mk.inj heq).2 (by decide)) (not_not.mpr hpath)
    · rw [hkvKey, not_or, hstar] at h
      rw [hkvKey, newKVResource, newKVResource, Path.clean_append_slashes hkey]
      exact iff_of_true rfl h.1
  · have hdeny := hlet.not_deny
    rw [hn, List.append_assoc, Ctx.infer_of_base _ (List.mem_cons_self ..),
      Ctx.inferKV_head] at hdeny
    exact absurd rfl hdeny

omit hlet hpath

/-! ### Keys -/

/-- What the access control has granted a write on, as against what the write reaches. -/
theorem write_granted_iff (hlet : S.LetThrough claims ⟨method, path, []⟩) (hpath : KVPath path key)
    {capability : Capability} (raft : Bool)
    (hmethod : method = str "PUT" ∧ capability = .write ∨
      method = str "DELETE" ∧ capability = .delete) :
    (newKVResource (sent raft key), capability) =
        (⟨method, path, []⟩ : Ctx).inferResourceAndCapability ↔
      key ≠ [] ∧ newKVResource (sent raft key) = newKVResource key := by
  by_cases hkey : key = []
  · have hsent : sent raft key = [] := by
      rw [hkey]
      cases raft <;> rfl
    rw [hsent]
    refine iff_of_false (fun h => ?_) fun h => h.1 hkey
    exact infer_write_of_no_key hlet hpath hkey hmethod h.symm
  · rw [infer_write_of_key hlet hpath hkey hmethod, Prod.mk.injEq, and_iff_left rfl,
      and_iff_right hkey]

/-! ### GraphQL -/

theorem query_silent_iff (f : QueryField) :
    (Resolver.queryField f).Only StoreCall.Silent ↔ f = .health ∨ f = .servicesCount := by
  have hcount : StoreCall.count.Silent := fun _ _ => id
  cases f with
  | health => exact iff_of_true ⟨hcount, fun _ => trivial⟩ (Or.inl rfl)
  | servicesCount => exact iff_of_true ⟨hcount, fun _ => trivial⟩ (Or.inr rfl)
  | kv key =>
    refine iff_of_false (fun h => ?_) (fun h => h.elim (fun h => nomatch h) fun h => nomatch h)
    have hsilent : (StoreCall.kvGet key).Silent := h.1
    exact hsilent none (.key key) rfl
  | kvList keyPrefix limit offset =>
    refine iff_of_false (fun h => ?_) (fun h => h.elim (fun h => nomatch h) fun h => nomatch h)
    have hsilent : StoreCall.kvList.Silent := h.1
    exact hsilent [[]] (.key []) ⟨[], List.mem_singleton_self _, rfl⟩
  | service name =>
    refine iff_of_false (fun h => ?_) (fun h => h.elim (fun h => nomatch h) fun h => nomatch h)
    have hsilent : (StoreCall.serviceListNamed [name.1]).Silent := h.1
    exact hsilent [] (.service name) ⟨name, List.mem_singleton_self _, rfl⟩
  | services limit offset =>
    exact iff_of_false (fun h => serviceListAll_not_silent h.1)
      (fun h => h.elim (fun h => nomatch h) fun h => nomatch h)
  | servicesByTags tags =>
    exact iff_of_false (fun h => queryByTags_not_silent _ h.1)
      (fun h => h.elim (fun h => nomatch h) fun h => nomatch h)
  | servicesByMetadata filters =>
    exact iff_of_false (fun h => queryByMetadata_not_silent _ h.1)
      (fun h => h.elim (fun h => nomatch h) fun h => nomatch h)
  | servicesByQuery tags metadata =>
    exact iff_of_false (fun h => queryByTagsAndMetadata_not_silent _ _ h.1)
      (fun h => h.elim (fun h => nomatch h) fun h => nomatch h)

theorem queries_silent_iff (fields : List QueryField) :
    (answerAll Resolver.queryField fields).Only StoreCall.Silent ↔
      ∀ f ∈ fields, f = .health ∨ f = .servicesCount := by
  induction fields with
  | nil => exact iff_of_true trivial fun f hf => absurd hf List.not_mem_nil
  | cons f rest ih =>
    have hrest (v : FieldResult) : (do return v :: (← answerAll Resolver.queryField rest) :
        Reader (List FieldResult)).Only StoreCall.Silent ↔
        ∀ f ∈ rest, f = .health ∨ f = .servicesCount :=
      (Program.only_bind_ret_iff _ _).trans ih
    rw [List.forall_mem_cons, ← query_silent_iff]
    refine ⟨fun h => ?_, fun h => Program.only_bind h.1 fun v => (hrest v).mpr h.2⟩
    have hfirst : (Resolver.queryField f).Only StoreCall.Silent := h.of_bind
    refine ⟨hfirst, ?_⟩
    rcases (query_silent_iff f).mp hfirst with rfl | rfl
    · exact (hrest _).mp (h.2 0)
    · exact (hrest _).mp (h.2 0)

end Server

namespace Resolver

open Program (only_bind only_perform)

/-- Calls that touch the entry of this resource at most. -/
def Stays (resource : Resource) : StoreCall → Prop :=
  StoreCall.Within fun _ slot => slot.resource = resource

variable (raft : Bool)

theorem stays_kv (key : GraphqlString) {c : KVCommand} (hnames : ∀ k, c.Names k ↔ k = key)
    (hjson : ∀ k, c.json.Names k ↔ k = jsonString key) :
    Stays (newKVResource key) (.op (.applyEntry (.kv c))) ∧
      Stays (newKVResource key) (.op (.kvStore c)) := by
  refine ⟨fun _ slot htouch => ?_, fun _ slot htouch => ?_⟩
  · cases slot with
    | service name => exact htouch.elim
    | key k =>
      have hk : k = key := ((hjson k).mp htouch).trans key.2
      rw [hk, Slot.resource]
  · cases slot with
    | service name => exact htouch.elim
    | key k =>
      have hk : k = key := (hnames k).mp htouch
      rw [hk, Slot.resource]

theorem stays_service (name : GraphqlString) {c : ServiceCommand}
    (hnames : ∀ n, c.Names n ↔ n = name) (hjson : ∀ n, c.json.Names n ↔ n = jsonString name) :
    Stays (newServiceResource name) (.op (.applyEntry (.service c))) ∧
      Stays (newServiceResource name) (.op (.serviceStore c)) := by
  refine ⟨fun _ slot htouch => ?_, fun _ slot htouch => ?_⟩
  · cases slot with
    | key k => exact htouch.elim
    | service n =>
      have hn : n = name := ((hjson n).mp htouch).trans name.2
      rw [hn, Slot.resource]
  · cases slot with
    | key k => exact htouch.elim
    | service n =>
      have hn : n = name := (hnames n).mp htouch
      rw [hn, Slot.resource]

theorem stays_kvGet (key : GoString) : Stays (newKVResource key) (.kvGet key) := by
  rintro _ slot rfl
  rfl

theorem stays_serviceGet (name : GoString) : Stays (newServiceResource name) (.serviceGet name) := by
  rintro _ slot rfl
  rfl

theorem entryNamed_stays (name : GoString) :
    (entryNamed name).Only (Stays (newServiceResource name)) := by
  refine only_bind (only_perform ?_) fun _ => trivial
  rintro _ slot ⟨n, hn, rfl⟩
  rw [List.mem_singleton.mp hn, Slot.resource]

theorem kvSet_stays (key value : GraphqlString) :
    (kvSet raft key value).Only (Stays (newKVResource key)) := by
  have hset := stays_kv key (c := .set key value) (fun _ => Iff.rfl) fun _ => Iff.rfl
  cases raft with
  | true =>
    refine only_bind (only_perform hset.1) fun r => ?_
    cases r <;> trivial
  | false => exact only_bind (only_perform hset.2) fun r => trivial

theorem kvDelete_stays (key : GraphqlString) :
    (kvDelete raft key).Only (Stays (newKVResource key)) := by
  have hdelete := stays_kv key (c := .delete key) (fun _ => Iff.rfl) fun _ => Iff.rfl
  refine only_bind (only_perform (stays_kvGet key)) fun found => ?_
  cases found with
  | none => trivial
  | some value =>
    cases raft with
    | true =>
      refine only_bind (only_perform hdelete.1) fun r => ?_
      cases r <;> trivial
    | false => exact only_bind (only_perform hdelete.2) fun r => trivial

theorem only_casAnswer {P : Op → Prop} (key value : GraphqlString) (err : Option GoError) :
    (match err with
      | some err => do
        if isCASConflict err || isNotFound err then return .ok none
        if GoError.is hashiErrNotLeader err then return .error (.wrap (str "not leader") err)
        return .error err
      | none => return .ok (some ⟨key, value⟩) :
      Handler (Except GoError (Option KVPair))).Only P := by
  cases err with
  | none => trivial
  | some err =>
    dsimp only
    split
    · trivial
    · split <;> trivial

theorem kvCAS_stays (key value : GraphqlString) (index : ℤ) :
    (kvCAS raft key value index).Only (Stays (newKVResource key)) := by
  have hcas := stays_kv key (c := .setCAS key value (UInt64.ofInt index)) (fun _ => Iff.rfl)
    fun _ => Iff.rfl
  have hhandler : (kvCas raft none key value index).Only fun o =>
      Stays (newKVResource key) (.op o) := by
    cases raft with
    | true =>
      refine ⟨hcas.1, fun r => ?_⟩
      cases r with
      | error err => exact only_casAnswer key value (some err)
      | ok resp => exact only_casAnswer key value none
    | false => exact ⟨hcas.2, fun r => only_casAnswer key value r.err⟩
  refine only_bind ((ofHandler_only_iff _).mpr hhandler) fun r => ?_
  cases r with
  | error err => trivial
  | ok p => cases p <;> trivial

theorem registered_stays (input : RegisterServiceInput) (err : Option GoError) :
    (match err with
      | some err => return .error err
      | none => do
        match ← entryNamed input.name with
        | none => return .error (.text (str "service registered but not found"))
        | some entry => return .ok (.service input.service entry) :
      Reader FieldResult).Only (Stays (newServiceResource input.name)) := by
  cases err with
  | some err => trivial
  | none =>
    refine only_bind (entryNamed_stays _) fun found => ?_
    cases found <;> trivial

theorem registerService_stays (input : RegisterServiceInput) :
    (registerService raft input).Only (Stays (newServiceResource input.name)) := by
  have hregister := stays_service input.name (c := .register input.service)
    (fun _ => Iff.rfl) fun _ => Iff.rfl
  cases raft with
  | true =>
    refine ⟨hregister.1, fun r => ?_⟩
    cases r with
    | error err => exact registered_stays input (some _)
    | ok resp => exact registered_stays input none
  | false => exact ⟨hregister.2, fun r => registered_stays input (r.err.map _)⟩

theorem deregisterService_stays (name : GraphqlString) :
    (deregisterService raft name).Only (Stays (newServiceResource name)) := by
  have hderegister := stays_service name (c := .deregister name) (fun _ => Iff.rfl)
    fun _ => Iff.rfl
  refine only_bind (only_perform (stays_serviceGet name)) fun found => ?_
  cases found with
  | none => trivial
  | some svc =>
    cases raft with
    | true =>
      refine only_bind (only_perform hderegister.1) fun r => ?_
      cases r <;> trivial
    | false => exact only_bind (only_perform hderegister.2) fun r => trivial

theorem beaten_stays (name : GraphqlString) (success : Except GoError Bool) :
    (match success with
      | .error err => return .error err
      | .ok false => return .error (.text (str "service not found: " ++ name))
      | .ok true => do
        match ← entryNamed name with
        | none => return .error (.text (str "service not found after heartbeat"))
        | some entry => return .ok (.service entry.service entry) :
      Reader FieldResult).Only (Stays (newServiceResource name)) := by
  cases success with
  | error err => trivial
  | ok found =>
    cases found with
    | false => trivial
    | true =>
      refine only_bind (entryNamed_stays _) fun found => ?_
      cases found <;> trivial

theorem updateHeartbeat_stays (name : GraphqlString) :
    (updateHeartbeat raft name).Only (Stays (newServiceResource name)) := by
  have hheartbeat := stays_service name (c := .heartbeat name) (fun _ => Iff.rfl)
    fun _ => Iff.rfl
  cases raft with
  | true =>
    refine ⟨hheartbeat.1, fun r => ?_⟩
    cases r with
    | error err => exact beaten_stays name (.error _)
    | ok resp => exact beaten_stays name (.ok _)
  | false => exact ⟨hheartbeat.2, fun r => beaten_stays name (.ok r.found)⟩

end Resolver

theorem MutationField.resolve_stays (raft : Bool) (f : MutationField) :
    (f.resolve raft).Only (Resolver.Stays f.resource) := by
  cases f with
  | kvSet key value => exact Resolver.kvSet_stays raft key value
  | kvDelete key => exact Resolver.kvDelete_stays raft key
  | kvCAS key value index => exact Resolver.kvCAS_stays raft key value index
  | registerService input => exact Resolver.registerService_stays raft input
  | deregisterService name => exact Resolver.deregisterService_stays raft name
  | updateHeartbeat name => exact Resolver.updateHeartbeat_stays raft name

namespace Server

variable (S : Server) (req : HttpRequest)

theorem mutationField_heeds (f : MutationField) (past : Past) :
    S.Heeds req past
      (mutationField S.raft (claimsFromGraphQLContext S.auth req.now req.authHeader) f) := by
  cases hclaims : claimsFromGraphQLContext S.auth req.now req.authHeader with
  | error err => trivial
  | ok claims =>
    have hpresents : S.Presents req claims := by
      unfold claimsFromGraphQLContext at hclaims
      split at hclaims
      · cases hclaims
      · rename_i token htoken
        split at hclaims
        · cases hclaims
        · rename_i claims' hvalid
          cases hclaims
          exact ⟨token, Or.inr htoken, hvalid⟩
    unfold mutationField authorizeMutation
    dsimp only
    split_ifs with hpolicies
    · trivial
    · intro allowed _
      refine ⟨trivial, ?_⟩
      cases allowed with
      | false => trivial
      | true =>
        refine (heeds_under_iff _ (f.resolve S.raft) _).mpr ?_
        refine (f.resolve_stays S.raft).mono fun c hc a slot htouch => ?_
        refine ⟨claims, hpresents, ?_⟩
        rw [hc a slot htouch]
        exact List.mem_append_right _ (List.mem_singleton_self _)

theorem mutations_heed (fields : List MutationField) (past : Past) :
    S.Heeds req past (answerAll
      (mutationField S.raft (claimsFromGraphQLContext S.auth req.now req.authHeader)) fields) := by
  induction fields generalizing past with
  | nil => trivial
  | cons f rest ih =>
    refine Program.heeds_bind (S.mutationField_heeds req f past) fun r past => ?_
    exact (Program.heeds_bind_ret_iff _ _ past).mpr (ih past)

/-- When a request that has been admitted accesses only what it has been granted. The routes
below `/kv` do where the resource inferred from the path is the key's own; of the others
only GraphQL mutations do, and requests that reach no entry. -/
def Fits (claims : Option Claims) : Prop :=
  match req.target with
  | .graphql (some (.query fields)) => ∀ f ∈ fields, f = .health ∨ f = .servicesCount
  | .kvList _ => ¬ S.LetThrough claims (ctx req)
  | .kvGet _ _ _ => S.LetThrough claims (ctx req) → req.path ≠ str "/kv/*"
  | .kvSet key body => S.LetThrough claims (ctx req) → body ≠ none →
    key ≠ [] ∧ newKVResource (sent S.raft key) = newKVResource key
  | .kvDelete key cas => S.LetThrough claims (ctx req) → cas ≠ .invalid →
    key ≠ [] ∧ newKVResource (sent S.raft key) = newKVResource key
  | target => target.Idle S

/-- What is not admitted accesses nothing. -/
def Mediates : Prop := ∀ claims, S.middleware req = .ok claims → S.Fits req claims

theorem heeds_reply_iff {R T : Type} (f : R → T) (past : Past) (p : Web R) :
    S.Heeds req past (p >>= fun r => .ret (f r)) ↔ S.Heeds req past p :=
  Program.heeds_bind_ret_iff p f past

variable {S req}

theorem heeds_silent_iff {R : Type} (p : Reader R) :
    S.Heeds req [] (p.under StoreCall.capability) ↔ p.Only StoreCall.Silent := by
  refine (heeds_under_iff _ p []).trans (iff_of_eq (congrArg (Program.Only · p) ?_))
  funext c
  exact propext (forall_congr' fun a => forall_congr' fun slot =>
    forall_congr' fun _ => iff_false_intro granted_nil)

theorem handle_heeds_iff {claims : Option Claims} (hpassed : S.middleware req = .ok claims) :
    S.Heeds req [] (S.handle req claims) ↔ S.Fits req claims := by
  have hkv (handler : Reader Display) := (S.heeds_reply_iff req HttpReply.display []
    (dynamicACL claims (ctx req) (handler.under StoreCall.capability))).trans
      (heeds_dynamicACL_iff hpassed (ctx req) handler)
  have hother (t : Target) := (S.heeds_reply_iff req HttpReply.display []
    (Reader.under StoreCall.capability (t.handler S))).trans
      ((heeds_silent_iff _).trans (t.idle_iff S))
  obtain ⟨method, path, authHeader, now, limited, target, routed⟩ := req
  cases target with
  | kvList consistent =>
    refine (hkv _).trans (imp_congr_right fun _ => iff_false_intro fun honly => ?_)
    -- one resource has been granted, and the list may show two keys
    have hlist := (kvList_only_iff (fun _ _ h => h.elim) _ _).mp honly
    have ha := hlist [str "a"] (.key (str "a")) ⟨_, List.mem_singleton_self _, rfl⟩
    have hb := hlist [str "b"] (.key (str "b")) ⟨_, List.mem_singleton_self _, rfl⟩
    have hsame := (Prod.mk.inj (ha.trans hb.symm)).1
    exact absurd hsame (by decide)
  | kvGet key consistent includeMetadata =>
    obtain ⟨hgets, hkey, hpath⟩ := routed
    refine (hkv _).trans (forall_congr' fun hlet => ?_)
    refine (kvGet_only_iff (fun _ _ h => h.elim) _ _ _ _).trans ?_
    refine Iff.trans ?_ (infer_get_of_key hlet hpath hkey hgets)
    cases includeMetadata with
    | true => exact ⟨fun h => h none _ rfl, fun h _ slot hslot => by obtain rfl := hslot; exact h⟩
    | false => exact ⟨fun h => h none _ rfl, fun h _ slot hslot => by obtain rfl := hslot; exact h⟩
  | kvSet key body =>
    obtain ⟨hput, hpath⟩ := routed
    refine (hkv _).trans (forall_congr' fun hlet => (writes_within_iff _ _).trans ?_)
    refine (KVHandler.set_within_iff _ _ _ _).trans ?_
    have hsent := write_granted_iff hlet hpath S.raft (Or.inl ⟨hput, rfl⟩)
    have hown := write_granted_iff hlet hpath false (Or.inl ⟨hput, rfl⟩)
    constructor
    · intro h hbody
      obtain ⟨b, rfl⟩ := Option.ne_none_iff_exists'.mp hbody
      exact hsent.mp (h b rfl).1
    · rintro h b rfl
      have hfits := h (fun hnone => nomatch hnone)
      exact ⟨hsent.mpr hfits, fun _ => hown.mpr ⟨hfits.1, rfl⟩⟩
  | kvDelete key cas =>
    obtain ⟨hdelete, hpath⟩ := routed
    refine (hkv _).trans (forall_congr' fun hlet => (writes_within_iff _ _).trans ?_)
    refine (KVHandler.delete_within_iff _ _ _ _).trans (imp_congr_right fun _ => ?_)
    exact write_granted_iff hlet hpath S.raft (Or.inr ⟨hdelete, rfl⟩)
  | graphql operation =>
    match operation with
    | none => exact iff_of_true trivial trivial
    | some .subscription => exact iff_of_true trivial trivial
    | some (.query fields) =>
      refine (Program.heeds_bind_ret_iff _ HttpReply.data []).trans ?_
      exact (heeds_silent_iff _).trans (queries_silent_iff fields)
    | some (.mutation fields) =>
      refine (Program.heeds_bind_ret_iff _ HttpReply.data []).trans (iff_of_true ?_ trivial)
      exact S.mutations_heed _ fields []
  | _ => exact hother _

theorem mediated_iff (S : Server) (req : HttpRequest) : S.Mediated req ↔ S.Mediates req := by
  rw [mediated_iff_heeds, serve, Mediates]
  cases hpassed : S.middleware req with
  | error response => exact iff_of_true trivial fun claims h => nomatch h
  | ok claims =>
    refine (handle_heeds_iff hpassed).trans ⟨fun h claims' hclaims => ?_, fun h => h claims rfl⟩
    obtain rfl := Except.ok.inj hclaims
    exact h

/-- Authentication is required, and there is no policy that grants anything. -/
def closedServer : Server where
  requireAuth := true
  auth := JWTAuth.plainAuth
  re := ⟨fun _ => true, fun _ _ => false⟩
  evaluator := .new
  raft := false
  engine := none

/-- Alice's access token. -/
def aliceAccess : GoString :=
  match JWTAuth.plainAuth.jwtService.generateToken JWTAuth.plainJWT 0 (str "1") (str "alice")
      [AuthHandler.defaultUserRole] with
  | .ok token => token
  | .error _ => []

def batchOfSecret : HttpRequest where
  method := str "POST"
  path := str "/batch/kv/get"
  authHeader := str "Bearer " ++ aliceAccess
  now := Manager.second
  limited := none
  target := .batchKVGet false (some [str "secret"])
  routed := trivial

/-- Alice reads a key that nobody was granted. -/
theorem batch_read_unasked : ¬ closedServer.Mediated batchOfSecret := by
  intro h
  have hissued : closedServer.auth.jwtService.Issues closedServer.auth.jwt 0 .access aliceAccess :=
    ⟨_, _, _, _, List.cons_ne_nil _ _, rfl⟩
  have hlives : JWTService.Lives 0 (closedServer.auth.jwtService.lifetime .access)
      batchOfSecret.now := by
    constructor
    · decide
    · decide
  obtain ⟨claims, hclaims⟩ : ∃ claims, closedServer.auth.jwtService.validateToken
      closedServer.auth.jwt batchOfSecret.now aliceAccess = .ok claims :=
    (JWTService.validateToken_iff JWTAuth.plainJWT_documented hissued _).mpr hlives
  have hbearer : JWTAuth.bearer batchOfSecret.authHeader = .ok aliceAccess := rfl
  have hpassed : closedServer.middleware batchOfSecret = .ok (some claims) := by
    have hpublic : closedServer.auth.publicPaths.admits batchOfSecret.path = false := by decide
    have hhandle : closedServer.auth.handle batchOfSecret.now batchOfSecret.path
        batchOfSecret.authHeader = .next (some claims) := by
      simp only [JWTAuth.handle, hpublic, hbearer, hclaims, Bool.false_eq_true, if_false]
    have hrequire : closedServer.requireAuth = true := rfl
    have hlimited : batchOfSecret.limited = none := rfl
    simp only [middleware, hlimited, hrequire, hhandle, if_true]
  have hbegins : (closedServer.serve batchOfSecret).Begins closedServer.Can
      ([] ++ [⟨.store .read (.kvBatchGet [str "secret"]), (∅, [])⟩]) := by
    rw [serve, hpassed]
    exact ⟨(∅, []), rfl, trivial, trivial⟩
  have hgranted := h [] _ _ _ [] hbegins (.key (str "secret"))
    ⟨_, List.mem_singleton_self _, rfl⟩
  exact granted_nil hgranted

end Server

end Konsul