import Konsul.HealthCheck.Manager
import Konsul.Lib.JsonRecord

/-!
# Access and refresh tokens (internal/auth/jwt.go)

`JWT` is what the token library does apart from the time claims: it signs the
JSON text of the claims and gives it back where the signature is that of the
key. `Documented` is what its users rely on. The audience and the identifier of
the registered claims are never set.
-/

namespace Konsul

open GoLib

/-- `Claims` and `RefreshClaims` are declared with the same fields and tags. -/
structure RegisteredClaims where
  issuer : GoString
  subject : GoString
  expiresAt : Option Time
  notBefore : Option Time
  issuedAt : Option Time
  deriving DecidableEq

structure TokenClaims where
  userID : GoString
  username : GoString
  roles : List GoString
  policies : List GoString
  registered : RegisteredClaims
  deriving DecidableEq

abbrev Claims := TokenClaims
abbrev RefreshClaims := TokenClaims

/-- The token library. -/
structure JWT where
  /-- `NewWithClaims(SigningMethodHS256, claims).SignedString(key)`. -/
  signedString : Bytes → Bytes → Except GoError GoString
  /-- The claims of a token that the key verifies with an HMAC method. -/
  verified : Bytes → GoString → Option Bytes
  /-- `NumericDate.UnmarshalJSON` of a value other than null. -/
  numericDate : Json → Option Time

/-- A number of whole seconds as a JSON number. -/
def numericDateJson (t : Time) : Json :=
  .num (match t / Manager.second with
    | .ofNat n => decimal n
    | .negSucc n => Json.minus :: decimal (n + 1))

/-- The time `NewNumericDate` keeps: whole seconds. -/
def newNumericDate (t : Time) : Time := t / Manager.second * Manager.second

namespace JWT

/-- Signing works, a signed token is text that its key verifies, and a date is read
as it was written. -/
structure Documented (jwt : JWT) : Prop where
  signs : ∀ key claims, ∃ token, jwt.signedString key claims = .ok token
  verifies : ∀ key claims token, jwt.signedString key claims = .ok token →
    token ≠ [] ∧ jwt.verified key token = some claims
  dates : ∀ t, jwt.numericDate (numericDateJson t) = some (newNumericDate t)

variable (jwt : JWT)

/-! ### Claims as JSON text -/

def dateCodec : Json.Codec (Option Time) where
  zero := none
  write
    | some t => numericDateJson t
    | none => .null
  read
    | _, .null => some none
    | _, j => (jwt.numericDate j).map some

def claimsFields : List (Json.Field TokenClaims) :=
  [.of (str "user_id") .string (fun _ => false) (·.userID) (fun c v => { c with userID := v }),
    .of (str "username") .string (fun _ => false) (·.username) (fun c v => { c with username := v }),
    .of (str "roles") (.list .string) (fun _ => false) (·.roles) (fun c v => { c with roles := v }),
    .of (str "policies") (.list .string) List.isEmpty (·.policies)
      (fun c v => { c with policies := v }),
    .of (str "iss") .string List.isEmpty (·.registered.issuer)
      (fun c v => { c with registered := { c.registered with issuer := v } }),
    .of (str "sub") .string List.isEmpty (·.registered.subject)
      (fun c v => { c with registered := { c.registered with subject := v } }),
    .of (str "exp") jwt.dateCodec Option.isNone (·.registered.expiresAt)
      (fun c v => { c with registered := { c.registered with expiresAt := v } }),
    .of (str "nbf") jwt.dateCodec Option.isNone (·.registered.notBefore)
      (fun c v => { c with registered := { c.registered with notBefore := v } }),
    .of (str "iat") jwt.dateCodec Option.isNone (·.registered.issuedAt)
      (fun c v => { c with registered := { c.registered with issuedAt := v } })]

def claimsCodec : Json.Codec TokenClaims :=
  .record jwt.claimsFields ⟨[], [], [], [], ⟨[], [], none, none, none⟩⟩

/-! ### Validation of a token -/

/-- What `errors.Is` tells apart. -/
inductive ParseError where
  | expired
  | other

/-- The time claims: `exp` and `nbf`. -/
def timeError (now : Time) (c : RegisteredClaims) : Option ParseError :=
  if ∃ t ∈ c.expiresAt, ¬ now < t then some .expired
  else if ∃ t ∈ c.notBefore, now < t then some .other
  else none

/-- `ParseWithClaims` with a key function that insists on an HMAC method. -/
def parseWithClaims (key : Bytes) (now : Time) (tokenString : GoString) :
    Except ParseError TokenClaims :=
  match (jwt.verified key tokenString).bind jwt.claimsCodec.unmarshal with
  | none => .error .other
  | some claims =>
    match timeError now claims.registered with
    | some err => .error err
    | none => .ok claims

end JWT

/-! ### The service -/

def ErrTokenExpired : GoError := .sentinel (str "auth") (str "token has expired")
def ErrTokenInvalid : GoError := .sentinel (str "auth") (str "token is invalid")
def ErrTokenMissing : GoError := .sentinel (str "auth") (str "token is missing")

structure JWTService where
  secretKey : Bytes
  tokenExpiry : Duration
  refreshExpiry : Duration
  issuer : GoString

namespace JWTService

variable (jwt : JWT) (j : JWTService)

/-- The claims of a token that lives for `expiry`. -/
def newClaims (now : Time) (expiry : Duration) (userID username : GoString)
    (roles policies : List GoString) : TokenClaims :=
  { userID, username, roles, policies
    registered :=
      { issuer := j.issuer
        subject := userID
        expiresAt := some (newNumericDate (now + expiry))
        notBefore := some (newNumericDate now)
        issuedAt := some (newNumericDate now) } }

def generateTokenWithPolicies (now : Time) (userID username : GoString)
    (roles policies : List GoString) : Except GoError GoString :=
  jwt.signedString j.secretKey
    (jwt.claimsCodec.marshal (j.newClaims now j.tokenExpiry userID username roles policies))

def generateToken (now : Time) (userID username : GoString) (roles : List GoString) :
    Except GoError GoString :=
  j.generateTokenWithPolicies jwt now userID username roles []

def generateRefreshTokenWithPolicies (now : Time) (userID username : GoString)
    (roles policies : List GoString) : Except GoError GoString :=
  jwt.signedString j.secretKey
    (jwt.claimsCodec.marshal (j.newClaims now j.refreshExpiry userID username roles policies))

def generateRefreshToken (now : Time) (userID username : GoString) (roles : List GoString) :
    Except GoError GoString :=
  j.generateRefreshTokenWithPolicies jwt now userID username roles []

/-- The part `ValidateToken` and `ValidateRefreshToken` share. -/
def parse (now : Time) (tokenString : GoString) : Except GoError TokenClaims :=
  if tokenString = [] then .error ErrTokenMissing
  else
    match jwt.parseWithClaims j.secretKey now tokenString with
    | .error .expired => .error ErrTokenExpired
    | .error .other => .error ErrTokenInvalid
    | .ok claims => .ok claims

def validateToken (now : Time) (tokenString : GoString) : Except GoError Claims :=
  j.parse jwt now tokenString

def validateRefreshToken (now : Time) (tokenString : GoString) : Except GoError RefreshClaims := do
  let claims ← j.parse jwt now tokenString
  let claims :=
    if claims.userID = [] ∧ claims.registered.subject ≠ [] then
      { claims with userID := claims.registered.subject }
    else claims
  if claims.userID = [] then throw ErrTokenInvalid
  return claims

def refreshToken (now : Time) (refreshTokenString : GoString) :
    Except GoError (GoString × GoString) := do
  let claims ← j.validateRefreshToken jwt now refreshTokenString
  let newToken ← j.generateTokenWithPolicies jwt now claims.userID claims.username claims.roles
    claims.policies
  let newRefreshToken ← j.generateRefreshTokenWithPolicies jwt now claims.userID claims.username
    claims.roles claims.policies
  return (newToken, newRefreshToken)

end JWTService

/-! ### What is read of a token that was issued -/

/-- The claims once they went through JSON text. -/
def TokenClaims.clean (c : TokenClaims) : TokenClaims :=
  { userID := Utf8.toValid c.userID
    username := Utf8.toValid c.username
    roles := c.roles.map Utf8.toValid
    policies := c.policies.map Utf8.toValid
    registered :=
      { issuer := Utf8.toValid c.registered.issuer
        subject := Utf8.toValid c.registered.subject
        expiresAt := c.registered.expiresAt.map newNumericDate
        notBefore := c.registered.notBefore.map newNumericDate
        issuedAt := c.registered.issuedAt.map newNumericDate } }

theorem newNumericDate_le (t : Time) : newNumericDate t ≤ t := by
  have hfloor (n : ℤ) : n / 1000000000 * 1000000000 ≤ n := by omega
  exact hfloor t

@[simp] theorem newNumericDate_idem (t : Time) :
    newNumericDate (newNumericDate t) = newNumericDate t := by
  have hwhole (n : ℤ) : n / 1000000000 * 1000000000 / 1000000000 * 1000000000 =
      n / 1000000000 * 1000000000 := by omega
  exact hwhole t

theorem wf_numericDateJson (t : Time) : (numericDateJson t).WF := by
  unfold numericDateJson
  cases t / Manager.second with
  | ofNat n => exact ⟨n, Or.inl rfl⟩
  | negSucc n => exact ⟨n + 1, Or.inr rfl⟩

namespace JWT

variable {jwt : JWT}

theorem dateCodec_lawful (h : jwt.Documented) :
    jwt.dateCodec.Lawful (Option.map newNumericDate) 0 where
  wf t := by
    cases t with
    | none => trivial
    | some t => exact wf_numericDateJson t
  depth_le t := by
    cases t with
    | none => exact le_rfl
    | some t => exact le_rfl
  read_write t := by
    cases t with
    | none => rfl
    | some t =>
      have hdate : jwt.numericDate (numericDateJson t) = some (newNumericDate t) := h.dates t
      have hread : jwt.dateCodec.read none (numericDateJson t) =
          (jwt.numericDate (numericDateJson t)).map some := rfl
      exact hread.trans (by rw [hdate]; rfl)

theorem isNone_map (t : Option Time) (h : t.isNone) : t.map newNumericDate = none := by
  rw [Option.isNone_iff_eq_none.mp h]
  rfl

theorem claimsCodec_lawful (h : jwt.Documented) :
    jwt.claimsCodec.Lawful TokenClaims.clean 2 := by
  have hstring := Json.Codec.string_lawful
  have hstrings := Json.Codec.list_lawful hstring
  have hdate := dateCodec_lawful h
  have hdistinct : Json.Distinct jwt.claimsFields := Json.distinct_of_names
    (["user_id", "username", "roles", "policies", "iss", "sub", "exp", "nbf", "iat"].map str) rfl
    (by decide)
  have hbounded : ∀ f ∈ jwt.claimsFields, f.Bounded 1 := by
    intro f hf
    simp only [claimsFields, List.mem_cons, List.not_mem_nil, or_false] at hf
    rcases hf with rfl | rfl | rfl | rfl | rfl | rfl | rfl | rfl | rfl
    · exact Json.Field.of_bounded hstring (Nat.zero_le 1)
    · exact Json.Field.of_bounded hstring (Nat.zero_le 1)
    · exact Json.Field.of_bounded hstrings le_rfl
    · exact Json.Field.of_bounded hstrings le_rfl
    · exact Json.Field.of_bounded hstring (Nat.zero_le 1)
    · exact Json.Field.of_bounded hstring (Nat.zero_le 1)
    · exact Json.Field.of_bounded hdate (Nat.zero_le 1)
    · exact Json.Field.of_bounded hdate (Nat.zero_le 1)
    · exact Json.Field.of_bounded hdate (Nat.zero_le 1)
  refine Json.Codec.record_lawful hdistinct hbounded fun c => ?_
  refine ⟨_, Json.Field.of_copies hstring c rfl (fun _ h => by cases h) (fun _ => rfl), ?_⟩
  refine ⟨_, Json.Field.of_copies hstring c rfl (fun _ h => by cases h) (fun _ => rfl), ?_⟩
  refine ⟨_, Json.Field.of_copies hstrings c rfl (fun _ h => by cases h) (fun _ => rfl), ?_⟩
  refine ⟨_, Json.Field.of_copies hstrings c rfl Json.isEmpty_map (fun _ => rfl), ?_⟩
  refine ⟨_, Json.Field.of_copies hstring c rfl Json.isEmpty_toValid (fun _ => rfl), ?_⟩
  refine ⟨_, Json.Field.of_copies hstring c rfl Json.isEmpty_toValid (fun _ => rfl), ?_⟩
  refine ⟨_, Json.Field.of_copies hdate c rfl isNone_map (fun _ => rfl), ?_⟩
  refine ⟨_, Json.Field.of_copies hdate c rfl isNone_map (fun _ => rfl), ?_⟩
  refine ⟨_, Json.Field.of_copies hdate c rfl isNone_map (fun _ => rfl), ?_⟩
  rfl

end JWT

end Konsul
