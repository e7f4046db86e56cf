import Konsul.Handlers.Auth
import Konsul.Lib.Machine

/-!
# Sessions of login, refresh and protected requests

The history of a run holds every token that was returned, with its kind and the
time it was issued. A token is accepted, by either validation, exactly while it
`Lives`; so the kinds are told apart as long as no token is presented as one of
the other kind in its lifetime.
-/

namespace Konsul

open GoLib

theorem toValid_ne_nil {s : GoString} (h : s ≠ []) : Utf8.toValid s ≠ [] := by
  intro hnil
  have hdecode : (Utf8.decode s).map Utf8.Rune.fixed = [] := by
    rw [← Utf8.decode_toValid, hnil]
    rfl
  have hempty : Utf8.decode s = [] := List.map_eq_nil_iff.mp hdecode
  exact h (by rw [← Utf8.encode_decode s, hempty]; rfl)

inductive TokenKind where
  | access
  | refresh
  deriving DecidableEq

namespace JWTService

/-- How long a token of a kind lives. -/
def lifetime (j : JWTService) : TokenKind → Duration
  | .access => j.tokenExpiry
  | .refresh => j.refreshExpiry

variable {jwt : JWT} {j : JWTService}

/-- `token` was issued to a named user at `at`. -/
def Issues (jwt : JWT) (j : JWTService) (time : Time) (kind : TokenKind) (token : GoString) : Prop :=
  ∃ userID username roles policies, userID ≠ [] ∧
    jwt.signedString j.secretKey (jwt.claimsCodec.marshal
      (j.newClaims time (j.lifetime kind) userID username roles policies)) = .ok token

/-- The window of the time claims of a token issued at `time`. -/
def Lives (time : Time) (lifetime : Duration) (now : Time) : Prop :=
  newNumericDate time ≤ now ∧ now < newNumericDate (time + lifetime)

theorem timeError_newClaims (time : Time) (lifetime : Duration) (now : Time)
    (userID username : GoString) (roles policies : List GoString) :
    JWT.timeError now (j.newClaims time lifetime userID username roles policies).clean.registered =
      none ↔ Lives time lifetime now := by
  simp only [JWT.timeError, newClaims, TokenClaims.clean, Option.map_some, newNumericDate_idem,
    Option.mem_def, Option.some_inj, exists_eq_left', Lives]
  by_cases hexp : now < newNumericDate (time + lifetime)
  · rw [if_neg (not_not.mpr hexp)]
    by_cases hnbf : now < newNumericDate time
    · rw [if_pos hnbf]
      exact iff_of_false (Option.some_ne_none _) fun h => absurd h.1 (not_le.mpr hnbf)
    · rw [if_neg hnbf]
      exact iff_of_true rfl ⟨not_lt.mp hnbf, hexp⟩
  · rw [if_pos hexp]
    exact iff_of_false (Option.some_ne_none _) fun h => hexp h.2

section

variable {time : Time} {lifetime : Duration} {userID username token : GoString}
  {roles policies : List GoString}

theorem unmarshal_signed (h : jwt.Documented)
    (hsigned : jwt.signedString j.secretKey (jwt.claimsCodec.marshal
      (j.newClaims time lifetime userID username roles policies)) = .ok token) :
    token ≠ [] ∧ (jwt.verified j.secretKey token).bind jwt.claimsCodec.unmarshal =
      some (j.newClaims time lifetime userID username roles policies).clean := by
  obtain ⟨hne, hverified⟩ := h.verifies _ _ _ hsigned
  have hread := (JWT.claimsCodec_lawful h).unmarshal_marshal (by decide)
    (j.newClaims time lifetime userID username roles policies)
  rw [hverified, Option.bind_some, hread]
  exact ⟨hne, rfl⟩

theorem parse_signed (h : jwt.Documented)
    (hsigned : jwt.signedString j.secretKey (jwt.claimsCodec.marshal
      (j.newClaims time lifetime userID username roles policies)) = .ok token) {now : Time}
    (hlives : Lives time lifetime now) :
    j.parse jwt now token = .ok (j.newClaims time lifetime userID username roles policies).clean := by
  obtain ⟨hne, hparsed⟩ := unmarshal_signed h hsigned
  have htimes := @timeError_newClaims j time lifetime now userID username roles policies
  rw [parse, if_neg hne, JWT.parseWithClaims, hparsed]
  dsimp only
  rw [htimes.mpr hlives]

end

theorem parse_issued (h : jwt.Documented) {time : Time} {kind : TokenKind} {token : GoString}
    (hissued : j.Issues jwt time kind token) (now : Time) :
    (Lives time (j.lifetime kind) now →
        ∃ claims : TokenClaims, claims.userID ≠ [] ∧ j.parse jwt now token = .ok claims) ∧
      (¬ Lives time (j.lifetime kind) now → ∃ err, j.parse jwt now token = .error err) := by
  obtain ⟨userID, username, roles, policies, huser, hsigned⟩ := hissued
  constructor
  · intro hlives
    exact ⟨_, toValid_ne_nil huser, parse_signed h hsigned hlives⟩
  · intro hlives
    obtain ⟨hne, hparsed⟩ := unmarshal_signed h hsigned
    have htimes := @timeError_newClaims j time (j.lifetime kind) now userID username roles policies
    rw [parse, if_neg hne, JWT.parseWithClaims, hparsed]
    dsimp only
    cases herr : JWT.timeError now
        (j.newClaims time (j.lifetime kind) userID username roles policies).clean.registered with
    | none => exact absurd (htimes.mp herr) hlives
    | some err =>
      cases err with
      | expired => exact ⟨_, rfl⟩
      | other => exact ⟨_, rfl⟩

theorem validateToken_iff (h : jwt.Documented) {time : Time} {kind : TokenKind} {token : GoString}
    (hissued : j.Issues jwt time kind token) (now : Time) :
    (∃ claims, j.validateToken jwt now token = .ok claims) ↔ Lives time (j.lifetime kind) now := by
  obtain ⟨hlives, hdead⟩ := parse_issued h hissued now
  by_cases hwindow : Lives time (j.lifetime kind) now
  · obtain ⟨claims, -, hclaims⟩ := hlives hwindow
    exact iff_of_true ⟨claims, hclaims⟩ hwindow
  · obtain ⟨err, herr⟩ := hdead hwindow
    refine iff_of_false ?_ hwindow
    rintro ⟨claims, hclaims⟩
    rw [validateToken, herr] at hclaims
    cases hclaims

theorem refreshToken_iff (h : jwt.Documented) {time : Time} {kind : TokenKind} {token : GoString}
    (hissued : j.Issues jwt time kind token) (now : Time) :
    (∃ pair, j.refreshToken jwt now token = .ok pair) ↔ Lives time (j.lifetime kind) now := by
  obtain ⟨hlives, hdead⟩ := parse_issued h hissued now
  by_cases hwindow : Lives time (j.lifetime kind) now
  · obtain ⟨claims, huser, hclaims⟩ := hlives hwindow
    refine iff_of_true ?_ hwindow
    have hvalid : j.validateRefreshToken jwt now token = .ok claims := by
      simp only [validateRefreshToken, hclaims, bind, Except.bind, huser, false_and, if_false, pure,
        Except.pure]
    obtain ⟨token', htoken'⟩ := h.signs j.secretKey (jwt.claimsCodec.marshal (j.newClaims now
      j.tokenExpiry claims.userID claims.username claims.roles claims.policies))
    obtain ⟨refresh', hrefresh'⟩ := h.signs j.secretKey (jwt.claimsCodec.marshal (j.newClaims now
      j.refreshExpiry claims.userID claims.username claims.roles claims.policies))
    refine ⟨(token', refresh'), ?_⟩
    simp only [refreshToken, hvalid, generateTokenWithPolicies, htoken',
      generateRefreshTokenWithPolicies, hrefresh', bind, Except.bind, pure, Except.pure]
  · obtain ⟨err, herr⟩ := hdead hwindow
    refine iff_of_false ?_ hwindow
    rintro ⟨pair, hpair⟩
    simp only [refreshToken, validateRefreshToken, herr, bind, Except.bind] at hpair
    cases hpair

/-- Both tokens of a pair are issued to a named user. -/
def IssuesPair (jwt : JWT) (j : JWTService) (time : Time) (pair : GoString × GoString) : Prop :=
  j.Issues jwt time .access pair.1 ∧ j.Issues jwt time .refresh pair.2

theorem validateRefreshToken_userID {now : Time} {token : GoString} {claims : RefreshClaims}
    (h : j.validateRefreshToken jwt now token = .ok claims) : claims.userID ≠ [] := by
  unfold validateRefreshToken at h
  cases hparse : j.parse jwt now token with
  | error err =>
    rw [hparse] at h
    cases h
  | ok parsed =>
    simp only [hparse, bind, Except.bind] at h
    split_ifs at h with hsubject hnil hnil
    · cases h
      exact hnil
    · cases h
      exact hnil

theorem refreshToken_issues {now : Time} {token : GoString} {pair : GoString × GoString}
    (h : j.refreshToken jwt now token = .ok pair) : j.IssuesPair jwt now pair := by
  unfold refreshToken at h
  cases hvalid : j.validateRefreshToken jwt now token with
  | error err =>
    rw [hvalid] at h
    cases h
  | ok claims =>
    have huser := validateRefreshToken_userID hvalid
    cases htoken : j.generateTokenWithPolicies jwt now claims.userID claims.username claims.roles
        claims.policies with
    | error err =>
      simp only [hvalid, htoken, bind, Except.bind] at h
      cases h
    | ok newToken =>
      cases hrefresh : j.generateRefreshTokenWithPolicies jwt now claims.userID claims.username
          claims.roles claims.policies with
      | error err =>
        simp only [hvalid, htoken, hrefresh, bind, Except.bind] at h
        cases h
      | ok newRefresh =>
        simp only [hvalid, htoken, hrefresh, bind, Except.bind, pure, Except.pure] at h
        cases h
        exact ⟨⟨_, _, _, _, huser, htoken⟩, ⟨_, _, _, _, huser, hrefresh⟩⟩

end JWTService

/-! ### Runs -/

inductive AuthRequest where
  | login (body : Option LoginRequest)
  /-- The body of `/auth/refresh`: the refresh token. -/
  | refresh (body : Option GoString)
  /-- Any route behind `JWTAuth`. -/
  | access (path authHeader : GoString)

structure TimedRequest where
  now : Time
  request : AuthRequest

/-- A token that was returned; `byLogin` if it was by a login and not by an exchange. -/
structure ReturnedToken where
  kind : TokenKind
  token : GoString
  time : Time
  byLogin : Bool

inductive AuthAnswer where
  | reply (r : LoginReply)
  | passage (p : Passage)

namespace JWTAuth

variable (m : JWTAuth)

/-- The tokens of a reply. -/
def returned (now : Time) (byLogin : Bool) : LoginReply → List ReturnedToken
  | .tokens token refreshToken _ =>
    [⟨.access, token, now, byLogin⟩, ⟨.refresh, refreshToken, now, byLogin⟩]
  | .error _ _ => []

/-- The server has no state of its own; the state is the history of the tokens returned. -/
def sessions : Machine (List ReturnedToken) TimedRequest AuthAnswer where
  step history i :=
    match i.request with
    | .login body =>
      let r := AuthHandler.login m.jwt m.jwtService i.now body
      (history ++ returned i.now true r, .reply r)
    | .refresh body =>
      let r := AuthHandler.refresh m.jwt m.jwtService i.now body
      (history ++ returned i.now false r, .reply r)
    | .access path authHeader => (history, .passage (m.handle i.now path authHeader))

/-- No token returned as a refresh token is accepted as an access token, and no token
returned as an access token as a refresh token. -/
def KindsApart (history : List ReturnedToken) (i : TimedRequest) : Prop :=
  match i.request with
  | .login _ => True
  | .refresh body => ∀ token ∈ body, (∃ e ∈ history, e.kind = .access ∧ e.token = token) →
      ∀ pair, m.jwtService.refreshToken m.jwt i.now token ≠ .ok pair
  | .access path authHeader => ∀ token ∈ m.presented path authHeader,
      (∃ e ∈ history, e.kind = .refresh ∧ e.token = token) →
      ∀ claims, m.jwtService.validateToken m.jwt i.now token ≠ .ok claims

/-- A protected request with a token a login returned is accepted for no longer than the
lifetime of an access token after the login. -/
def AccessEnds (history : List ReturnedToken) (i : TimedRequest) : Prop :=
  match i.request with
  | .access path authHeader => ∀ token ∈ m.presented path authHeader,
      ∀ claims, m.jwtService.validateToken m.jwt i.now token = .ok claims →
      ∀ e ∈ history, e.byLogin → e.token = token → i.now < e.time + m.jwtService.tokenExpiry
  | _ => True

/-- A token presented as one of the other kind was returned in a second that has yet to
come, or its lifetime has passed. -/
def OutOfWindow (history : List ReturnedToken) (i : TimedRequest) : Prop :=
  match i.request with
  | .login _ => True
  | .refresh body => ∀ token ∈ body, ∀ e ∈ history, e.kind = .access → e.token = token →
      ¬ JWTService.Lives e.time m.jwtService.tokenExpiry i.now
  | .access path authHeader => ∀ token ∈ m.presented path authHeader,
      ∀ e ∈ history, e.kind = .refresh → e.token = token →
      ¬ JWTService.Lives e.time m.jwtService.refreshExpiry i.now

/-- Every token of the history was issued, at its time and as one of its kind. -/
def Recorded (history : List ReturnedToken) : Prop :=
  ∀ e ∈ history, m.jwtService.Issues m.jwt e.time e.kind e.token

variable {m}

theorem login_returned {now : Time} {body : Option LoginRequest} {e : ReturnedToken}
    (he : e ∈ returned now true (AuthHandler.login m.jwt m.jwtService now body)) :
    m.jwtService.Issues m.jwt e.time e.kind e.token := by
  unfold AuthHandler.login at he
  cases body with
  | none => cases he
  | some req =>
    dsimp only at he
    split_ifs at he with hempty
    · cases he
    · have huser : req.userID ≠ [] := fun h => hempty (Or.inl h)
      cases htoken : m.jwtService.generateToken m.jwt now req.userID req.username
          [AuthHandler.defaultUserRole] with
      | error err =>
        rw [htoken] at he
        cases he
      | ok token =>
        cases hrefresh : m.jwtService.generateRefreshToken m.jwt now req.userID req.username
            [AuthHandler.defaultUserRole] with
        | error err =>
          rw [htoken, hrefresh] at he
          cases he
        | ok refreshToken =>
          rw [htoken, hrefresh] at he
          simp only [returned, List.mem_cons, List.not_mem_nil, or_false] at he
          rcases he with rfl | rfl
          · exact ⟨_, _, _, _, huser, htoken⟩
          · exact ⟨_, _, _, _, huser, hrefresh⟩

theorem refresh_returned {now : Time} {body : Option GoString} {e : ReturnedToken}
    (he : e ∈ returned now false (AuthHandler.refresh m.jwt m.jwtService now body)) :
    m.jwtService.Issues m.jwt e.time e.kind e.token := by
  unfold AuthHandler.refresh at he
  cases body with
  | none => cases he
  | some token =>
    dsimp only at he
    split_ifs at he with hempty
    · cases he
    · cases hpair : m.jwtService.refreshToken m.jwt now token with
      | error err =>
        rw [hpair] at he
        dsimp only at he
        split_ifs at he
        · cases he
        · cases he
        · cases he
      | ok pair =>
        rw [hpair] at he
        have hissues := JWTService.refreshToken_issues hpair
        simp only [returned, List.mem_cons, List.not_mem_nil, or_false] at he
        rcases he with rfl | rfl
        · exact hissues.1
        · exact hissues.2

theorem recorded_step (history : List ReturnedToken) (i : TimedRequest)
    (h : m.Recorded history) : m.Recorded (m.sessions.step history i).1 := by
  obtain ⟨now, request⟩ := i
  intro e he
  cases request with
  | login body =>
    rcases List.mem_append.mp he with he | he
    · exact h e he
    · exact login_returned he
  | refresh body =>
    rcases List.mem_append.mp he with he | he
    · exact h e he
    · exact refresh_returned he
  | access path authHeader => exact h e he

theorem apart_and_ends_iff (hjwt : m.jwt.Documented) {history : List ReturnedToken}
    (h : m.Recorded history) (i : TimedRequest) :
    m.KindsApart history i ∧ m.AccessEnds history i ↔ m.OutOfWindow history i := by
  obtain ⟨now, request⟩ := i
  cases request with
  | login body => exact iff_of_true ⟨trivial, trivial⟩ trivial
  | refresh body =>
    constructor
    · rintro ⟨hapart, -⟩ token htoken e he hkind rfl hlives
      have hissued : m.jwtService.Issues m.jwt e.time .access e.token := hkind ▸ h e he
      obtain ⟨pair, hpair⟩ := (JWTService.refreshToken_iff hjwt hissued now).mpr hlives
      exact hapart e.token htoken ⟨e, he, hkind, rfl⟩ pair hpair
    · refine fun hout => ⟨?_, trivial⟩
      rintro token htoken ⟨e, he, hkind, rfl⟩ pair hpair
      have hissued : m.jwtService.Issues m.jwt e.time .access e.token := hkind ▸ h e he
      exact hout e.token htoken e he hkind rfl
        ((JWTService.refreshToken_iff hjwt hissued now).mp ⟨pair, hpair⟩)
  | access path authHeader =>
    constructor
    · rintro ⟨hapart, -⟩ token htoken e he hkind rfl hlives
      have hissued : m.jwtService.Issues m.jwt e.time .refresh e.token := hkind ▸ h e he
      obtain ⟨claims, hclaims⟩ := (JWTService.validateToken_iff hjwt hissued now).mpr hlives
      exact hapart e.token htoken ⟨e, he, hkind, rfl⟩ claims hclaims
    · intro hout
      constructor
      · rintro token htoken ⟨e, he, hkind, rfl⟩ claims hclaims
        have hissued : m.jwtService.Issues m.jwt e.time .refresh e.token := hkind ▸ h e he
        exact hout e.token htoken e he hkind rfl
          ((JWTService.validateToken_iff hjwt hissued now).mp ⟨claims, hclaims⟩)
      · rintro token htoken claims hclaims e he - rfl
        have hlives := (JWTService.validateToken_iff hjwt (h e he) now).mp ⟨claims, hclaims⟩
        cases hkind : e.kind with
        | access =>
          rw [hkind] at hlives
          exact lt_of_lt_of_le hlives.2 (newNumericDate_le _)
        | refresh =>
          rw [hkind] at hlives
          exact absurd hlives (hout e.token htoken e he hkind rfl)

/-- In every run the kinds stay apart, and access ends with the lifetime of the access
token, iff no token is presented as one of the other kind in its lifetime. -/
theorem token_kinds_apart_iff (hjwt : m.jwt.Documented) (run : List TimedRequest) :
    m.sessions.Along (fun history i => m.KindsApart history i ∧ m.AccessEnds history i) [] run ↔
      m.sessions.Along m.OutOfWindow [] run := by
  have hnil : m.Recorded [] := fun _ he => nomatch he
  exact @Machine.along_congr _ _ _ m.sessions _ _ m.Recorded
    (fun history i h => recorded_step history i h) (fun _ i h => apart_and_ends_iff hjwt h i) _ hnil
    run

/-- A library whose tokens are the claims with the key for a signature. -/
def plainJWT : JWT where
  signedString key claims := .ok (str "HS256." ++ (claims ++ (str "." ++ key)))
  verified key token :=
    let signed := trimPrefix token (str "HS256.")
    if hasPrefix token (str "HS256.") ∧ hasSuffix signed (str "." ++ key) then
      some (trimSuffix signed (str "." ++ key))
    else none
  numericDate
    | .num lit =>
      if lit.head? = some Json.minus then some (-(decimalValue lit.tail : ℤ) * Manager.second)
      else some ((decimalValue lit : ℤ) * Manager.second)
    | _ => none

theorem plainJWT_documented : plainJWT.Documented where
  signs key claims := ⟨_, rfl⟩
  verifies key claims token h := by
    cases h
    have hstarts (s : Bytes) : hasPrefix (str "HS256." ++ s) (str "HS256.") :=
      List.isPrefixOf_iff_prefix.mpr (List.prefix_append _ _)
    have hsuffix (s : Bytes) : hasSuffix (s ++ (str "." ++ key)) (str "." ++ key) :=
      List.isSuffixOf_iff_suffix.mpr (List.suffix_append _ _)
    have htrim : trimPrefix (str "HS256." ++ (claims ++ (str "." ++ key))) (str "HS256.") =
        claims ++ (str "." ++ key) := by
      rw [trimPrefix, if_pos (hstarts _), List.drop_left]
    refine ⟨(fun h => by cases h), ?_⟩
    simp only [plainJWT, htrim]
    rw [if_pos ⟨hstarts _, hsuffix _⟩, trimSuffix, if_pos (hsuffix _), List.length_append,
      Nat.add_sub_cancel, List.take_left]
  dates t := by
    simp only [plainJWT, numericDateJson, newNumericDate]
    cases hseconds : t / Manager.second with
    | ofNat n =>
      have hdigits : (decimal n).head? ≠ some Json.minus := by
        intro hminus
        have hdigit := isDigit_of_mem_decimal _ (List.mem_of_head? hminus)
        exact absurd hdigit (by decide)
      dsimp only
      rw [if_neg hdigits, decimalValue_decimal]
      rfl
    | negSucc n =>
      dsimp only
      rw [List.head?_cons, if_pos rfl, List.tail_cons, decimalValue_decimal]
      rfl

def plainAuth : JWTAuth where
  jwt := plainJWT
  jwtService :=
    { secretKey := str "secret", tokenExpiry := 2 * Manager.second
      refreshExpiry := 5 * Manager.second, issuer := str "konsul" }
  publicPaths := .compile [str "/login"]

def aliceLogin : TimedRequest :=
  ⟨0, .login (some { userID := str "1", username := str "alice", password := [] })⟩

/-- The refresh token Alice gets. -/
def aliceRefresh : GoString :=
  match plainAuth.jwtService.generateRefreshToken plainJWT 0 (str "1") (str "alice")
      [AuthHandler.defaultUserRole] with
  | .ok token => token
  | .error _ => []

/-- Alice presents it on a protected route. -/
def presentRefresh (now : Time) : TimedRequest :=
  ⟨now, .access (str "/kv/k") (str "Bearer " ++ aliceRefresh)⟩

/-- A refresh token is not accepted once it has expired. -/
theorem token_kinds_apart_expired :
    plainAuth.sessions.Along
      (fun history i => plainAuth.KindsApart history i ∧ plainAuth.AccessEnds history i) []
      [aliceLogin, presentRefresh (10 * Manager.second)] := by
  refine (token_kinds_apart_iff plainJWT_documented _).mpr ⟨trivial, ?_, trivial⟩
  intro token _ e he hkind _ hlives
  have htime : e.time = 0 := by
    rcases List.mem_cons.mp he with rfl | he
    · rfl
    · rcases List.mem_cons.mp he with rfl | he
      · rfl
      · cases he
  rw [htime] at hlives
  exact absurd hlives.2 (by decide)

/-- Within its lifetime it is. -/
theorem refresh_token_accepted :
    ¬ plainAuth.sessions.Along plainAuth.KindsApart []
      [aliceLogin, presentRefresh Manager.second] := by
  rintro ⟨-, hapart, -⟩
  have hissued : plainAuth.jwtService.Issues plainJWT 0 .refresh aliceRefresh :=
    ⟨_, _, _, _, List.cons_ne_nil _ _, rfl⟩
  have hlives : JWTService.Lives 0 (plainAuth.jwtService.lifetime .refresh) Manager.second := by
    constructor
    · decide
    · decide
  obtain ⟨claims, hclaims⟩ :=
    (JWTService.validateToken_iff plainJWT_documented hissued Manager.second).mpr hlives
  exact hapart aliceRefresh rfl ⟨⟨.refresh, aliceRefresh, 0, true⟩,
    List.mem_cons_of_mem _ (List.mem_cons_self ..), rfl, rfl⟩ claims hclaims

end JWTAuth

end Konsul
