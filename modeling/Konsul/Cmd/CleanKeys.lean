import Konsul.Acl.PatternMeaning
import Konsul.Cmd.Mediation
import Konsul.Lib.CleanPath

/-!
# The key that is authorized

The access control evaluates the policies on the cleaned path of the key, and the handler
accesses the key itself. The two decisions agree under all policies just for the keys that
are clean: any other key is told apart from its cleaned path by a pattern.
-/

namespace Konsul

open GoLib Utf8

/-! ### Patterns that tell keys apart -/

/-- A star for each element of a path with this many slashes. -/
def levels : ℕ → GoString
  | 0 => [Path.star]
  | n + 1 => Path.star :: Path.slash :: levels n

theorem levels_ne_nil (n : ℕ) : levels n ≠ [] := by
  cases n <;> exact List.cons_ne_nil _ _

theorem path_levels (n : ℕ) : Glob.path (levels (n + 1)) =
    .run Glob.inElement :: .lit Path.slash :: Glob.path (levels n) := by
  obtain ⟨b, p, hp⟩ := List.exists_cons_of_ne_nil (levels_ne_nil n)
  rw [levels, hp]
  rfl

theorem accepts_levels_iff (n : ℕ) (key : GoString) :
    Glob.accepts (Glob.path (levels n)) key ↔ key.count Path.slash = n := by
  have hfree : ∀ u : GoString, (∀ b ∈ u, Glob.inElement b) ↔ Path.slash ∉ u := fun u =>
    ⟨fun h hmem => absurd (h _ hmem) (by decide), fun h b hb =>
      decide_eq_true fun heq => h (heq ▸ hb)⟩
  induction n generalizing key with
  | zero =>
    have hpath : Glob.path (levels 0) = [.run Glob.inElement] := rfl
    rw [hpath, Glob.accepts_run_iff, List.count_eq_zero]
    constructor
    · rintro ⟨u, v, rfl, hu, hv⟩
      rw [(Glob.accepts_nil_iff v).mp hv, List.append_nil]
      exact (hfree u).mp hu
    · intro h
      exact ⟨key, [], (List.append_nil key).symm, (hfree key).mpr h, rfl⟩
  | succ n ih =>
    rw [path_levels, Glob.accepts_run_iff]
    constructor
    · rintro ⟨u, v, rfl, hu, hv⟩
      obtain ⟨w, rfl, hw⟩ := (Glob.accepts_lit_iff _ _ _).mp hv
      have hcount := List.count_eq_zero.mpr ((hfree u).mp hu)
      rw [List.count_append, List.count_cons_self, hcount, (ih w).mp hw]
      omega
    · intro h
      have hmem : Path.slash ∈ key := List.count_pos_iff.mp (by omega)
      obtain ⟨u, v, rfl, hu⟩ := List.eq_append_cons_of_mem hmem
      rw [List.count_append, List.count_cons_self, List.count_eq_zero.mpr hu] at h
      exact ⟨u, _, rfl, (hfree u).mpr hu, (Glob.accepts_lit_iff _ _ _).mpr
        ⟨v, rfl, (ih v).mpr (by omega)⟩⟩

/-- A pattern of stars and slashes, with no two stars in a row. -/
structure Sparse (pattern : GoString) : Prop where
  valid : valid pattern
  only : ∀ c ∈ chars pattern, c = '*' ∨ c = '/'
  single : ¬ ['*', '*'] <:+: chars pattern

theorem Sparse.plain {fits : GoString → Bool} {r : KVRule} (h : Sparse r.path)
    (hfits : fits r.compile) : r.Plain fits := by
  have hnot : ∀ c, c ≠ '*' → c ≠ '/' → c ∉ chars r.path := fun c hstar hslash hmem =>
    (h.only c hmem).elim hstar hslash
  have hmark : ∀ {s : List Char} (_ : '§' ∈ s), ¬ s <:+: chars r.path := fun hs hin =>
    hnot '§' (by decide) (by decide) (hin.subset hs)
  have hguarded := guarded_of_notMem (hnot '\\' (by decide) (by decide))
  refine ⟨⟨⟨h.valid, hnot _ (by decide) (by decide)⟩, hguarded, fun c hc => hnot c ?_ ?_⟩,
    ⟨hmark (by decide), hmark (by decide)⟩, h.single, hfits⟩
  · rintro rfl
    exact absurd hc (by decide)
  · rintro rfl
    exact absurd hc (by decide)

theorem valid_levels (n : ℕ) : valid (levels n) := by
  refine valid_of_ascii fun b hb => ?_
  induction n with
  | zero =>
    rw [List.mem_singleton.mp hb]
    decide
  | succ n ih =>
    rw [levels, List.mem_cons, List.mem_cons] at hb
    rcases hb with rfl | rfl | hb
    · decide
    · decide
    · exact ih hb

theorem chars_levels (n : ℕ) : chars (levels (n + 1)) = '*' :: '/' :: chars (levels n) := by
  rw [levels, chars, decode_ascii (by decide), decode_ascii (by decide)]
  rfl

theorem sparse_levels (n : ℕ) : Sparse (levels n) where
  valid := valid_levels n
  only := by
    induction n with
    | zero => exact fun c hc => .inl (List.mem_singleton.mp hc)
    | succ n ih =>
      rw [chars_levels]
      exact List.forall_mem_cons.mpr ⟨.inl rfl, List.forall_mem_cons.mpr ⟨.inr rfl, ih⟩⟩
  single := by
    induction n with
    | zero => decide
    | succ n ih =>
      rw [chars_levels]
      intro hin
      rcases List.infix_cons_iff.mp hin with hpre | hin
      · exact absurd (List.cons_prefix_cons.mp (List.cons_prefix_cons.mp hpre).2).1 (by decide)
      · rcases List.infix_cons_iff.mp hin with hpre | hin
        · exact absurd (List.cons_prefix_cons.mp hpre).1 (by decide)
        · exact ih hin

/-- A pattern that matches just one of a key and its cleaned path, where these differ. -/
def separator (key : GoString) : GoString :=
  if key = [] then [] else if key ∈ Path.flat then [Path.slash] else levels (key.count Path.slash)

theorem sparse_separator (key : GoString) : Sparse (separator key) := by
  rw [separator]
  split_ifs
  · exact ⟨by decide, List.all_iff_forall_prop.mp (by decide), by decide⟩
  · exact ⟨by decide, List.all_iff_forall_prop.mp (by decide), by decide⟩
  · exact sparse_levels _

/-- What the access control looks at for a key. -/
structure Inferred (key path : GoString) : Prop where
  cleaned : key ≠ [] → path = Path.clean key
  nonempty : path ≠ []

theorem separator_apart {key path : GoString} (hpath : Inferred key path)
    (h : Path.clean key ≠ key) :
    ¬ (Glob.accepts (Glob.path (separator key)) path ↔
      Glob.accepts (Glob.path (separator key)) key) := by
  rw [separator]
  split_ifs with hnil hflat
  · rw [hnil]
    exact fun hiff => hpath.nonempty ((Glob.accepts_nil_iff path).mp (hiff.mpr rfl))
  · rw [hpath.cleaned hnil]
    simp only [Path.flat, List.mem_cons, List.not_mem_nil, or_false] at hflat
    rcases hflat.resolve_left hnil with rfl | rfl
    · decide
    · decide
  · rw [hpath.cleaned hnil, accepts_levels_iff, accepts_levels_iff]
    exact fun hiff => absurd (hiff.mpr rfl) (Path.count_clean_lt h hflat).ne

/-! ### One rule -/

/-- A policy of one rule for keys. -/
def alone (name : GoString) (rule : KVRule) : Policy := ⟨name, [], [rule], [], [], [], []⟩

section

variable {re : Regexp} {name : GoString} {rule : KVRule}

theorem validate_alone (hname : name ≠ []) (h : re.compiles rule.compile) :
    (alone name rule).validate re = some (.ok ()) := by
  rw [Policy.validate, alone, if_neg hname]
  exact if_pos ⟨by simp [h], rfl⟩

/-- The evaluator that holds the policy and no other. -/
def Evaluator.only (name : GoString) (rule : KVRule) : Evaluator :=
  ⟨Evaluator.new.policies.insert name (alone name rule)⟩

theorem Evaluator.loaded_only (hname : name ≠ []) (h : re.compiles rule.compile) :
    (Evaluator.only name rule).Loaded re :=
  loaded_new.insert (validate_alone hname h)

theorem Evaluator.evaluate_only {names : List GoString} (hmem : name ∈ names)
    {capability : Capability} (hcapability : capability ≠ .deny)
    (hrule : rule.capabilities = [capability]) (path : GoString) :
    (Evaluator.only name rule).evaluate re names ⟨.kv, path⟩ capability = rule.isMatch re path := by
  have hlookup : ∀ other, (Evaluator.only name rule).policies.lookup other =
      if other = name then some (alone name rule) else none := fun other => by
    rw [Evaluator.only, GoMap.lookup_insert_ite]
    rfl
  have hattached : ∀ policy ∈ (Evaluator.only name rule).attached names, policy = alone name rule := by
    intro policy hpolicy
    obtain ⟨other, -, hother⟩ := List.mem_filterMap.mp hpolicy
    rw [hlookup] at hother
    split_ifs at hother
    exact (Option.some.inj hother).symm
  have hverdict : (alone name rule).verdict re ⟨.kv, path⟩ capability =
      if rule.isMatch re path then some true else none := by
    have hone : ruleVerdict capability [capability] = some true := by
      have hdeny : Capability.deny ∉ [capability] := fun h =>
        hcapability (List.mem_singleton.mp h).symm
      exact (if_neg hdeny).trans (if_pos (List.mem_singleton_self _))
    have happlicable : (alone name rule).applicable re ⟨.kv, path⟩ =
        if rule.isMatch re path then [rule.capabilities] else [] := by
      change ([rule].filter fun r => r.isMatch re path).map _ = _
      rw [List.filter_singleton]
      cases rule.isMatch re path <;> rfl
    rw [Policy.verdict, happlicable]
    split_ifs
    · rw [hrule, List.findSome?_singleton, hone]
    · rfl
  rw [evaluate_eq]
  cases hmatch : rule.isMatch re path with
  | false =>
    rw [hmatch] at hverdict
    rw [List.findSome?_eq_none_iff.mpr fun policy hpolicy => hattached policy hpolicy ▸ hverdict]
    rfl
  | true =>
    rw [hmatch] at hverdict
    have hin : alone name rule ∈ (Evaluator.only name rule).attached names :=
      List.mem_filterMap.mpr ⟨name, hmem, (hlookup name).trans (if_pos rfl)⟩
    cases hlist : (Evaluator.only name rule).attached names with
    | nil =>
      rw [hlist] at hin
      cases hin
    | cons policy rest =>
      have hfirst := hattached policy (hlist ▸ List.mem_cons_self)
      rw [List.findSome?_cons, hfirst, hverdict]
      rfl

end

/-! ### What is asked for a key -/

/-- The key a handler below `/kv` accesses. -/
def Target.key? : Target → Option GoString
  | .kvGet key _ _ => some key
  | .kvSet key _ => some key
  | .kvDelete key _ => some key
  | _ => none

theorem Routed.key {method path key : GoString} {target : Target}
    (h : Routed method path target) (hkey : target.key? = some key) :
    (Gets method ∨ method = str "PUT" ∨ method = str "DELETE") ∧ KVPath path key := by
  cases target with
  | kvGet k consistent includeMetadata =>
    cases hkey
    exact ⟨.inl h.1, h.2.2⟩
  | kvSet k body =>
    cases hkey
    exact ⟨.inr (.inl h.1), h.2⟩
  | kvDelete k cas =>
    cases hkey
    exact ⟨.inr (.inr h.1), h.2⟩
  | _ => cases hkey

namespace Ctx

variable {key path method : GoString}

theorem inferred_kvKey (method key : GoString) (n : ℕ) :
    Inferred key (Path.clean (⟨method, str "/kv" ++ (if key = [] then [] else Path.slash :: key) ++
      List.replicate n Path.slash, []⟩ : Ctx).kvKey) where
  cleaned hkey := by
    rw [if_neg hkey, kvKey_of_key method hkey, Path.clean_append_slashes hkey]
  nonempty := Path.clean_ne_nil _

/-- On the way to a key by `/kv` something is asked about a path. -/
theorem infer_of_known (hmethod : Gets method ∨ method = str "PUT" ∨ method = str "DELETE")
    (hpath : KVPath path key) (hbase : hasPrefix path (str "/kv")) (hhead : method ≠ str "HEAD") :
    ∃ p capability, Inferred key p ∧ capability ≠ .deny ∧
      (⟨method, path, []⟩ : Ctx).inferResourceAndCapability = (⟨.kv, p⟩, capability) := by
  obtain ⟨base, hmem, n, rfl⟩ := hpath
  simp only [List.mem_cons, List.not_mem_nil, or_false] at hmem
  rcases hmem with rfl | rfl | rfl | rfl
  · have hfits := Ctx.path_fits key n
    rcases hmethod with (rfl | rfl) | rfl | rfl
    · refine ⟨_, _, inferred_kvKey _ key n, ?_, infer_get hfits rfl⟩
      split_ifs <;> decide
    · exact absurd rfl hhead
    · exact ⟨_, .write, inferred_kvKey _ key n, by decide, infer_write hfits (.inl ⟨rfl, rfl⟩)⟩
    · exact ⟨_, .delete, inferred_kvKey _ key n, by decide, infer_write hfits (.inr ⟨rfl, rfl⟩)⟩
  · exact absurd hbase Bool.false_ne_true
  · exact absurd hbase Bool.false_ne_true
  · exact absurd hbase Bool.false_ne_true

theorem infer_of_unknown (hpath : KVPath path key)
    (h : ¬ (hasPrefix path (str "/kv") ∧ method ≠ str "HEAD")) :
    (⟨method, path, []⟩ : Ctx).inferResourceAndCapability.2 = .deny := by
  obtain ⟨base, hmem, n, rfl⟩ := hpath
  rcases List.mem_cons.mp hmem with rfl | hupper
  · have hhead : method = str "HEAD" := not_not.mp fun hne => h ⟨rfl, hne⟩
    rw [hhead, List.append_assoc, infer_of_base _ (List.mem_cons_self ..), inferKV_head]
    rfl
  · rw [List.append_assoc, infer_of_upper method hupper]

end Ctx

/-! ### Decisions -/

namespace Server

variable (S : Server) (req : HttpRequest) (key : GoString)

/-- Whatever is decided in a run of the request, the evaluator decides on the key itself. -/
def DecidesOn : Prop :=
  ∀ before policyNames resource capability allowed after,
    (S.serve req).Begins S.Can
      (before ++ ⟨.evaluate policyNames resource capability, allowed⟩ :: after) →
    allowed = S.evaluator.evaluate S.re policyNames ⟨.kv, key⟩ capability

def Agrees : Past → Program.Event WebCall.Answer → Prop
  | _, ⟨.evaluate policyNames _ capability, allowed⟩ =>
    allowed = S.evaluator.evaluate S.re policyNames ⟨.kv, key⟩ capability
  | _, ⟨.store _ _, _⟩ => True

variable {S req key}

theorem decidesOn_iff_heeds :
    S.DecidesOn req key ↔ (S.serve req).Heeds S.Can (S.Agrees key) [] := by
  refine Iff.trans ?_ (Program.heeds_iff S.Can (S.Agrees key) _ []).symm
  constructor
  · rintro h before ⟨c, a⟩ after hbegins
    cases c with
    | evaluate policyNames resource capability => exact h before _ _ _ a after hbegins
    | store capability c => trivial
  · exact fun h before policyNames resource capability allowed after hbegins =>
      h before ⟨.evaluate policyNames resource capability, allowed⟩ after hbegins

theorem heeds_agrees_under {R : Type} (p : Reader R) (past : Past) :
    (p.under StoreCall.capability).Heeds S.Can (S.Agrees key) past := by
  induction p generalizing past with
  | ret r => trivial
  | call c next ih => exact fun a _ => ⟨trivial, ih a _⟩

/-- The access control asks once. -/
theorem heeds_dynamicACL_agrees_iff (claims : Option Claims) (ctx : Ctx) (p : Reader Display) :
    (dynamicACL claims ctx (p.under StoreCall.capability)).Heeds S.Can (S.Agrees key) [] ↔
      ∀ c, claims = some c → c.policies ≠ [] →
        S.evaluator.evaluate S.re c.policies ctx.inferResourceAndCapability.1
          ctx.inferResourceAndCapability.2 =
        S.evaluator.evaluate S.re c.policies ⟨.kv, key⟩ ctx.inferResourceAndCapability.2 := by
  cases claims with
  | none => exact iff_of_true trivial fun c h => nomatch h
  | some claims =>
    by_cases hpolicies : claims.policies = []
    · rw [dynamicACL, if_pos hpolicies]
      refine iff_of_true trivial fun c h hne => ?_
      exact absurd (Option.some.inj h ▸ hpolicies) hne
    · rw [dynamicACL, if_neg hpolicies]
      constructor
      · intro h c hc _
        obtain rfl := Option.some.inj hc
        exact (h _ rfl).1
      · intro h allowed hcan
        refine ⟨hcan.trans (h claims rfl hpolicies), ?_⟩
        cases allowed with
        | false => trivial
        | true => exact heeds_agrees_under p _

theorem decidesOn_iff (hkey : req.target.key? = some key) :
    S.DecidesOn req key ↔ ∀ claims, S.middleware req = .ok (some claims) → claims.policies ≠ [] →
      S.evaluator.evaluate S.re claims.policies (ctx req).inferResourceAndCapability.1
        (ctx req).inferResourceAndCapability.2 =
      S.evaluator.evaluate S.re claims.policies ⟨.kv, key⟩ (ctx req).inferResourceAndCapability.2 := by
  rw [decidesOn_iff_heeds, serve]
  cases hpassed : S.middleware req with
  | error response => exact iff_of_true trivial fun claims h => by cases h
  | ok claims =>
    have hhandle : (S.handle req claims).Heeds S.Can (S.Agrees key) [] ↔
        (dynamicACL claims (ctx req) ((req.target.handler S).under StoreCall.capability)).Heeds S.Can
          (S.Agrees key) [] := by
      obtain ⟨method, path, authHeader, now, limited, target, routed⟩ := req
      cases target with
      | kvGet k consistent includeMetadata => exact Program.heeds_bind_ret_iff _ HttpReply.display []
      | kvSet k body => exact Program.heeds_bind_ret_iff _ HttpReply.display []
      | kvDelete k cas => exact Program.heeds_bind_ret_iff _ HttpReply.display []
      | _ => cases hkey
    refine hhandle.trans ((heeds_dynamicACL_agrees_iff _ _ _).trans ?_)
    exact forall_congr' fun c => imp_congr_left ⟨fun h => h ▸ rfl, fun h => Except.ok.inj h⟩

/-- The request comes to a decision that depends on the policies. -/
structure Asks (S : Server) (req : HttpRequest) (claims : Claims) : Prop where
  passed : S.middleware req = .ok (some claims)
  named : ∃ name ∈ claims.policies, name ≠ []
  known : hasPrefix req.path (str "/kv")
  method : req.method ≠ str "HEAD"

/-- The server with other policies. -/
def holding (S : Server) (re : Regexp) (e : Evaluator) : Server := { S with re, evaluator := e }

theorem middleware_holding (S : Server) (re : Regexp) (e : Evaluator) (req : HttpRequest) :
    (S.holding re e).middleware req = S.middleware req := rfl

theorem evaluate_of_unnamed {re : Regexp} {e : Evaluator} (h : e.Loaded re) {names : List GoString}
    (hnames : ∀ name ∈ names, name = []) (resource : Resource) (capability : Capability) :
    e.evaluate re names resource capability = false := by
  have hattached : e.attached names = [] := by
    rw [Evaluator.attached, List.filterMap_eq_nil_iff]
    intro name hname
    rw [hnames name hname, h.lookup_nil]
  rw [e.evaluate_eq, hattached]
  rfl

theorem decidesOn_of_clean {re : Regexp} {e : Evaluator} (he : e.Loaded re)
    (hkey : req.target.key? = some key)
    (hclean : ∀ claims, S.Asks req claims → Path.clean key = key) :
    (S.holding re e).DecidesOn req key := by
  obtain ⟨hmethod, hpath⟩ := req.routed.key hkey
  refine (decidesOn_iff hkey).mpr fun claims hpassed _ => ?_
  by_cases hnamed : ∃ name ∈ claims.policies, name ≠ []
  · by_cases hknown : hasPrefix req.path (str "/kv") ∧ req.method ≠ str "HEAD"
    · have hclean := hclean claims ⟨hpassed, hnamed, hknown.1, hknown.2⟩
      obtain ⟨p, capability, hinferred, -, hinfer⟩ :=
        Ctx.infer_of_known hmethod hpath hknown.1 hknown.2
      have hne : key ≠ [] := fun hnil => Path.clean_ne_nil key (hclean.trans hnil)
      rw [ctx, hinfer, hinferred.cleaned hne, hclean]
    · rw [ctx, Ctx.infer_of_unknown hpath hknown, evaluate_deny, evaluate_deny]
  · have hall : ∀ name ∈ claims.policies, name = [] := fun name hname =>
      not_not.mp fun hne => hnamed ⟨name, hname, hne⟩
    exact (evaluate_of_unnamed he hall _ _).trans (evaluate_of_unnamed he hall _ _).symm

/-- The decision is taken on the key itself under all policies just where the key is clean. -/
theorem decides_on_key_iff (S : Server) (req : HttpRequest) {key : GoString}
    (hkey : req.target.key? = some key) (category : Char → Char → Bool) (fits : GoString → Bool)
    (hfits : fits (KVRule.compile ⟨separator key, []⟩)) :
    (∀ e : Evaluator, e.Loaded (Regexp.go category fits) →
        (S.holding (Regexp.go category fits) e).DecidesOn req key) ↔
      ∀ claims, S.Asks req claims → Path.clean key = key := by
  constructor
  · intro h claims hasks
    obtain ⟨hmethod, hpath⟩ := req.routed.key hkey
    obtain ⟨name, hmem, hname⟩ := hasks.named
    obtain ⟨p, capability, hinferred, hdeny, hinfer⟩ :=
      Ctx.infer_of_known hmethod hpath hasks.known hasks.method
    by_contra hclean
    have hmeans : KVRule.MeansGlob (Regexp.go category fits) ⟨separator key, [capability]⟩ :=
      KVRule.meansGlob_of_plain ((sparse_separator key).plain hfits)
    -- a policy that grants the capability on what the pattern matches
    have hsame := (decidesOn_iff hkey).mp (h _ (Evaluator.loaded_only hname hmeans.compiles)) claims
      hasks.passed (List.ne_nil_of_mem hmem)
    rw [ctx, hinfer] at hsame
    have heval := @Evaluator.evaluate_only (Regexp.go category fits) name
      ⟨separator key, [capability]⟩ claims.policies hmem capability hdeny rfl
    refine separator_apart hinferred hclean ?_
    rw [← hmeans.isMatch_iff, ← hmeans.isMatch_iff, ← heval, ← heval]
    exact iff_of_eq (congrArg (· = true) hsame)
  · exact fun h e he => decidesOn_of_clean he hkey h

/-! ### A deny rule passed by -/

/-- What Alice's access token says, with a policy attached. -/
def attachedClaims : TokenClaims :=
  JWTAuth.plainAuth.jwtService.newClaims 0 JWTAuth.plainAuth.jwtService.tokenExpiry (str "1")
    (str "alice") [AuthHandler.defaultUserRole] [str "secrets"]

def attachedToken : GoString :=
  match JWTAuth.plainJWT.signedString JWTAuth.plainAuth.jwtService.secretKey
      (JWTAuth.plainJWT.claimsCodec.marshal attachedClaims) with
  | .ok token => token
  | .error _ => []

/-- Alice reads a key. -/
def readKey (key : GoString) (h : key ≠ []) : HttpRequest where
  method := str "GET"
  path := str "/kv/" ++ key
  authHeader := str "Bearer " ++ attachedToken
  now := Manager.second
  limited := none
  target := .kvGet key false false
  routed := by
    refine ⟨.inl rfl, h, str "/kv", List.mem_cons_self, 0, ?_⟩
    rw [if_neg h, List.replicate_zero, List.append_nil]
    rfl

/-- Her request reaches the access control with the policy. -/
theorem readKey_passes {key : GoString} (h : key ≠ []) :
    closedServer.middleware (readKey key h) = .ok (some attachedClaims.clean) := by
  have hlives : JWTService.Lives 0 JWTAuth.plainAuth.jwtService.tokenExpiry Manager.second := by
    constructor
    · decide
    · decide
  have hsigned : JWTAuth.plainJWT.signedString JWTAuth.plainAuth.jwtService.secretKey
      (JWTAuth.plainJWT.claimsCodec.marshal attachedClaims) = .ok attachedToken := rfl
  have hpublic : closedServer.auth.publicPaths.admits (readKey key h).path = false := rfl
  have hbearer : JWTAuth.bearer (readKey key h).authHeader = .ok attachedToken := rfl
  have hvalid : closedServer.auth.jwtService.validateToken closedServer.auth.jwt
      (readKey key h).now attachedToken = .ok attachedClaims.clean :=
    JWTService.parse_signed JWTAuth.plainJWT_documented hsigned hlives
  have hhandle : closedServer.auth.handle (readKey key h).now (readKey key h).path
      (readKey key h).authHeader = .next (some attachedClaims.clean) := by
    simp only [JWTAuth.handle, hpublic, hbearer, hvalid, Bool.false_eq_true, if_false]
  have hrequire : closedServer.requireAuth = true := rfl
  have hlimited : (readKey key h).limited = none := rfl
  simp only [middleware, hlimited, hrequire, hhandle, if_true]

/-- The engine with no tables of Unicode and no limits. -/
def ascii : Regexp := Regexp.go (fun _ _ => false) fun _ => true

/-- Everything may be read but the secrets. -/
def guarding : Policy where
  name := str "secrets"
  description := []
  kv := [⟨str "secret/**", [.deny]⟩, ⟨str "**", [.read]⟩]
  service := []
  health := []
  backup := []
  admin := []

def guardingEvaluator : Evaluator := ⟨Evaluator.new.policies.insert guarding.name guarding⟩

theorem decides_on_key_app :
    (closedServer.holding ascii guardingEvaluator).DecidesOn (readKey (str "app") (by decide))
      (str "app") := by
  have hclean : Path.clean (str "app") = str "app" := by decide
  have hvalid : guarding.validate ascii = some (.ok ()) := by decide
  exact (decides_on_key_iff closedServer (readKey (str "app") (by decide)) rfl (fun _ _ => false)
    (fun _ => true) rfl).mpr (fun _ _ => hclean) guardingEvaluator
      (Evaluator.loaded_new.insert hvalid)

/-- A rule on the secrets does not cover a key that leads out of them. -/
theorem secret_key_read_as_another : ¬ ∀ (S : Server) (req : HttpRequest) (key : GoString),
    req.target.key? = some key → ∀ e : Evaluator, e.Loaded ascii →
      (S.holding ascii e).DecidesOn req key := by
  intro h
  have hvalid : guarding.validate ascii = some (.ok ()) := by decide
  have hkey : str "secret/../x" ≠ [] := by decide
  have hinfer : (ctx (readKey _ hkey)).inferResourceAndCapability = (⟨.kv, str "x"⟩, .read) := rfl
  have hdecides := h closedServer (readKey _ hkey) _ rfl guardingEvaluator
    (Evaluator.loaded_new.insert hvalid)
  have hsame := (decidesOn_iff rfl).mp hdecides attachedClaims.clean
    ((middleware_holding ..).trans (readKey_passes hkey)) (by decide)
  rw [hinfer] at hsame
  have hcleaned : guardingEvaluator.evaluate ascii [str "secrets"] ⟨.kv, str "x"⟩ .read = true := by
    decide
  have hraw : guardingEvaluator.evaluate ascii [str "secrets"] ⟨.kv, str "secret/../x"⟩ .read =
      false := by
    decide
  exact absurd (hcleaned.symm.trans (hsame.trans hraw)) (by decide)

end Server

end Konsul
