import Konsul.Auth.JWT
import Konsul.Lib.Strings

/-!
# Bearer tokens (internal/middleware/jwt.go)

`JWTAuth` lets a public path pass, and any other request whose header carries a
token that `ValidateToken` accepts. The claims go on with the request.
-/

namespace Konsul

open GoLib

/-- The look-up structures built from the configured paths. -/
structure PublicPaths where
  exact : List GoString
  prefixes : List GoString

namespace PublicPaths

def add (p : PublicPaths) (path : GoString) : PublicPaths :=
  let path := trimSpace path
  if path = [] then p
  else if hasSuffix path (str "/*") then
    { p with prefixes := p.prefixes ++ [trimSuffix path (str "*")] }
  else { p with exact := path :: p.exact }

def compile (publicPaths : List GoString) : PublicPaths := publicPaths.foldl add ⟨[], []⟩

def admits (p : PublicPaths) (path : GoString) : Bool :=
  decide (path ∈ p.exact) || p.prefixes.any (hasPrefix path ·)

end PublicPaths

/-- What a middleware makes of a request: it goes on, with the claims of its token if
one was asked for, or is answered with an error. -/
inductive Passage where
  | next (claims : Option Claims)
  | stop (status : ℕ) (error : GoString)

structure JWTAuth where
  jwt : JWT
  jwtService : JWTService
  publicPaths : PublicPaths

namespace JWTAuth

/-- The token of an authorization header, or the error it is answered with. -/
def bearer (authHeader : GoString) : Except GoString GoString :=
  if authHeader = [] then .error (str "missing authorization header")
  else
    match split 0x20 authHeader with
    | [scheme, token] =>
      if scheme = str "Bearer" then .ok token
      else .error (str "invalid authorization header format")
    | _ => .error (str "invalid authorization header format")

def refusal (err : GoError) : GoString :=
  if err = ErrTokenExpired then str "token expired"
  else if err = ErrTokenMissing then str "token missing"
  else str "invalid token"

def handle (m : JWTAuth) (now : Time) (path authHeader : GoString) : Passage :=
  if m.publicPaths.admits path then .next none
  else
    match bearer authHeader with
    | .error error => .stop 401 error
    | .ok token =>
      match m.jwtService.validateToken m.jwt now token with
      | .error err => .stop 401 (refusal err)
      | .ok claims => .next (some claims)

/-- The string a request presents as an access token. -/
def presented (m : JWTAuth) (path authHeader : GoString) : Option GoString :=
  if m.publicPaths.admits path then none else (bearer authHeader).toOption

end JWTAuth

end Konsul
