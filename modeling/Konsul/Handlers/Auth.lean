import Konsul.Middleware.JWT

/-!
# Login and refresh (internal/handlers/auth.go)

A body of `none` is one `BodyParser` refuses. The password is not looked at.
-/

namespace Konsul

open GoLib

structure LoginRequest where
  userID : GoString
  username : GoString
  password : GoString

inductive LoginReply where
  | tokens (token refreshToken : GoString) (expiresIn : ℕ)
  | error (status : ℕ) (error : GoString)

namespace AuthHandler

variable (jwt : JWT) (jwtService : JWTService) (now : Time)

def defaultUserRole : GoString := str "user"

def login (body : Option LoginRequest) : LoginReply :=
  match body with
  | none => .error 400 (str "invalid request body")
  | some req =>
    if req.userID = [] ∨ req.username = [] then
      .error 400 (str "user_id and username are required")
    else
      match jwtService.generateToken jwt now req.userID req.username [defaultUserRole] with
      | .error _ => .error 500 (str "failed to generate token")
      | .ok token =>
        match jwtService.generateRefreshToken jwt now req.userID req.username [defaultUserRole] with
        | .error _ => .error 500 (str "failed to generate refresh token")
        | .ok refreshToken => .tokens token refreshToken (15 * 60)

/-- The body is the refresh token. -/
def refresh (body : Option GoString) : LoginReply :=
  match body with
  | none => .error 400 (str "invalid request body")
  | some refreshToken =>
    if refreshToken = [] then .error 400 (str "refresh_token is required")
    else
      match jwtService.refreshToken jwt now refreshToken with
      | .error err =>
        if err = ErrTokenExpired then .error 401 (str "refresh token expired")
        else if err = ErrTokenInvalid then .error 401 (str "invalid refresh token")
        else .error 500 (str "failed to refresh token")
      | .ok (newToken, newRefreshToken) => .tokens newToken newRefreshToken (15 * 60)

end AuthHandler

end Konsul
