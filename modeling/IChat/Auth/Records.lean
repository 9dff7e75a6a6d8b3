import Mathlib.Data.Nat.Notation
import Mathlib.Data.List.Basic

/-!
# Accounts and their tokens

The rows of `users`, `refresh_tokens` and `auth_tokens`. Moments are milliseconds; the raw tokens
stay outside of the tables, which hold their hashes.
-/

namespace IChat.Auth

/-- A row of `users`. -/
structure User where
  id : ℕ
  username : String
  email : String
  passwordHash : String
  emailVerified : Bool
  isActive : Bool
  deriving DecidableEq, Repr

/-- A row of `refresh_tokens`. -/
structure RefreshToken where
  userId : ℕ
  tokenHash : String
  expiresAt : ℕ
  revokedAt : Option ℕ
  deriving DecidableEq, Repr

/-- `PURPOSE_EMAIL_VERIFICATION`, `PURPOSE_PASSWORD_RESET` and `PURPOSE_ACCOUNT_DELETION`. -/
inductive Purpose
  | emailVerification | passwordReset | accountDeletion
  deriving DecidableEq, Repr

/-- The text of a purpose in the database and in the keys of Redis. -/
def Purpose.value : Purpose → String
  | .emailVerification => "email_verification"
  | .passwordReset => "password_reset"
  | .accountDeletion => "account_deletion"

/-- A row of `auth_tokens`. -/
structure AuthToken where
  userId : ℕ
  purpose : Purpose
  tokenHash : String
  sentToEmail : String
  expiresAt : ℕ
  usedAt : Option ℕ
  revokedAt : Option ℕ
  createdAt : ℕ
  deriving DecidableEq, Repr

/-- The token is neither used nor revoked: the condition of `uq_auth_tokens_active_purpose`. -/
def AuthToken.Active (token : AuthToken) : Prop := token.usedAt = none ∧ token.revokedAt = none

instance (token : AuthToken) : Decidable token.Active :=
  inferInstanceAs (Decidable (_ ∧ _))

end IChat.Auth
