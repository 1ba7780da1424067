import Apanel.Library.Text
import Mathlib.Data.Char
import Mathlib.Data.List.Dedup
import Mathlib.Data.List.Lex
import Mathlib.Data.List.Sort

/-!
# Accounts

Users, and the identifiers they log in with (`app/services/auth_service.py`). A username is stored
stripped and an email stripped and in lower case; both are compared in lower case, and the
identifiers of two users must not collide, neither within a column nor across the two.
-/

namespace Apanel

inductive UserRole
  | admin
  | user
  deriving DecidableEq

inductive UserStatus
  | invited
  | active
  | disabled
  deriving DecidableEq

inductive AccountError
  | setupNotReady
  | setupAlreadyCompleted
  | invalidSetupToken
  | adminAlreadyExists
  | multipleResultsFound
  | invalidRequest
  | invalidInvitation
  | invalidTokenFile
  | tokenFileMismatch
  | interrupted
  deriving DecidableEq

section Identifiers

variable (casing : Lowercase)

def normalizeIdentifier (value : List Char) : List Char := casing.lower (strip value)

/-- A row of `users`. -/
structure User where
  id : ℕ
  username : List Char
  email : List Char
  role : UserRole
  status : UserStatus
  invitedBy : Option ℕ
  deriving DecidableEq

/-- The identifiers a registration reserves, in the order of their locks. -/
def loginIdentifiers (username email : List Char) : List (List Char) :=
  [normalizeIdentifier casing username, normalizeIdentifier casing email].dedup.insertionSort (· ≤ ·)

/-- What the database compares a login with. -/
def User.logins (user : User) : List (List Char) :=
  [casing.lower user.username, casing.lower user.email]

/-- The conflict query of `_reserve_login_identifiers`. -/
def loginConflict (users : List User) (identifiers : List (List Char)) : Bool :=
  users.any fun user => (user.logins casing).any fun login => identifiers.elem login

/-- `_create_first_admin_locked`. -/
def createFirstAdminLocked (users : List User) (id : ℕ) (username email : List Char) :
    Except AccountError User :=
  match users.filter (·.role = .admin) with
  | [] =>
    if loginConflict casing users (loginIdentifiers casing username email) then
      .error .invalidRequest
    else
      .ok
        { id
          username := strip username
          email := normalizeIdentifier casing email
          role := .admin
          status := .active
          invitedBy := none }
  | [_] => .error .adminAlreadyExists
  | _ :: _ :: _ => .error .multipleResultsFound

end Identifiers

end Apanel
