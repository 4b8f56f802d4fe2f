/-
The primitives of `utils/authn.py`: names, password records, lockout.

Functions of Python's library that no program can be read for are parameters: the key
derivation, the token digest and the Unicode table behind `str.lower`.  Everything the
module builds on them is here.  Times are rationals where the source has floats.

A record says whether it is a bootstrap placeholder by its first characters, and the two
facts the manager rests on are at the end: a placeholder verifies no password, and no
record of a password is a placeholder.
-/
import Mathlib.Data.Rat.Defs
import Mathlib.Algebra.Order.Ring.Rat
import CyClaw.Lib.PyText

namespace CyClaw.Auth

open PyText

abbrev Text := List Char
abbrev Bytes := List UInt8

def scryptN : Int := 2 ^ 17
def scryptR : Int := 8
def scryptP : Int := 1
def scryptDklen : Nat := 32

/-- The library functions the module calls. -/
structure Env where
  /-- `str.lower` -/
  lower : Text → Text
  /-- `hashlib.scrypt` with the module's key length, or nothing where it raises. -/
  scrypt : Text → Bytes → Int → Int → Int → Option Bytes
  /-- The parameters of current policy are valid. -/
  scrypt_policy : ∀ password salt, (scrypt password salt scryptN scryptR scryptP).isSome = true
  /-- `hashlib.sha256(...).hexdigest()`, of a token. -/
  hashToken : Text → Text
  /-- `repr` of a string, for a message. -/
  repr : Text → Text

/-! ### Names -/

inductive Role where
  | admin
  | operator
  | audit
deriving DecidableEq, Repr

def Role.name : Role → String
  | .admin => "admin"
  | .operator => "operator"
  | .audit => "audit"

inductive PolicyError where
  | role
  | username
  | passwordTooShort
  | passwordTooLong
deriving DecidableEq, Repr

def PolicyError.message : PolicyError → String
  | .role => "role must be one of admin, audit, operator"
  | .username =>
      "username must be 1-32 chars, start alphanumeric, and contain only a-z 0-9 . _ -"
  | .passwordTooShort => "password must be at least 12 characters"
  | .passwordTooLong => "password must be at most 1024 characters"

/-- `username.strip().lower()` -/
def canonical (env : Env) (username : Text) : Text := env.lower (strip username)

/-- `validate_role` -/
def validateRole (env : Env) (role : Text) : Except PolicyError Role :=
  let name := env.lower (strip role)
  if name = "admin".toList then .ok .admin
  else if name = "operator".toList then .ok .operator
  else if name = "audit".toList then .ok .audit
  else .error .role

def isSlugStart (c : Char) : Bool := c.isLower || c.isDigit

def isSlugChar (c : Char) : Bool := c.isLower || c.isDigit || c == '_' || c == '.' || c == '-'

/-- `validate_username`; the canonical form has no trailing newline for `$` to stop before. -/
def validateUsername (env : Env) (username : Text) : Except PolicyError Text :=
  match canonical env username with
  | [] => .error .username
  | c :: t =>
      if isSlugStart c && t.all isSlugChar && t.length ≤ 31 then .ok (c :: t) else .error .username

/-! ### Password records -/

/-- `validate_password` -/
def validatePassword (password : Text) : Except PolicyError Text :=
  if password.length < 12 then .error .passwordTooShort
  else if password.length > 1024 then .error .passwordTooLong
  else .ok password

def b64Alphabet : Text :=
  "ABCDEFGHIJKLMNOPQRSTUVWXYZabcdefghijklmnopqrstuvwxyz0123456789+/".toList

def b64Char (n : Nat) : Char := b64Alphabet.getD n '='

/-- `_b64` -/
def b64 : Bytes → Text
  | [] => []
  | [a] => [b64Char (a.toNat / 4), b64Char (a.toNat % 4 * 16), '=', '=']
  | [a, b] =>
      [b64Char (a.toNat / 4), b64Char (a.toNat % 4 * 16 + b.toNat / 16),
        b64Char (b.toNat % 16 * 4), '=']
  | a :: b :: c :: t =>
      b64Char (a.toNat / 4) :: b64Char (a.toNat % 4 * 16 + b.toNat / 16) ::
        b64Char (b.toNat % 16 * 4 + c.toNat / 64) :: b64Char (c.toNat % 64) :: b64 t

def b64Value (c : Char) : Option Nat :=
  if c ∈ b64Alphabet then some (b64Alphabet.idxOf c) else none

/-- `_unb64`: whole groups of four, padding only at the end. -/
def unb64 : Text → Option Bytes
  | [] => some []
  | [a, b, '=', '='] =>
      (b64Value a).bind fun x => (b64Value b).map fun y => [UInt8.ofNat (x * 4 + y / 16)]
  | [a, b, c, '='] =>
      (b64Value a).bind fun x => (b64Value b).bind fun y => (b64Value c).map fun z =>
        [UInt8.ofNat (x * 4 + y / 16), UInt8.ofNat (y % 16 * 16 + z / 4)]
  | a :: b :: c :: d :: t =>
      (b64Value a).bind fun x => (b64Value b).bind fun y => (b64Value c).bind fun z =>
        (b64Value d).bind fun w => (unb64 t).map fun bs =>
          UInt8.ofNat (x * 4 + y / 16) :: UInt8.ofNat (y % 16 * 16 + z / 4) ::
            UInt8.ofNat (z % 4 * 64 + w) :: bs
  | _ => none

/-- Decimal digits, single underscores between them. -/
def digitsValue : Nat → Text → Option Nat
  | _, [] => none
  | n, [c] => if c.isDigit then some (n * 10 + (c.toNat - 48)) else none
  | n, c :: d :: t =>
      if c.isDigit then
        if d = '_' then digitsValue (n * 10 + (c.toNat - 48)) t
        else digitsValue (n * 10 + (c.toNat - 48)) (d :: t)
      else none

/-- `int(text)`, of ASCII digits. -/
def pyInt (t : Text) : Option Int :=
  match strip t with
  | '-' :: ds => (digitsValue 0 ds).map fun n => -(n : Int)
  | '+' :: ds => (digitsValue 0 ds).map fun n => (n : Int)
  | ds => (digitsValue 0 ds).map fun n => (n : Int)

/-- `hash_password`, with the salt it draws. -/
def hashPassword (env : Env) (salt : Bytes) (password : Text) : Except PolicyError Text :=
  match validatePassword password with
  | .error e => .error e
  | .ok _ =>
      let derived := (env.scrypt password salt scryptN scryptR scryptP).getD []
      .ok ("scrypt$131072$8$1$".toList ++ b64 salt ++ '$' :: b64 derived)

def pendingPrefix : Text := "pending$".toList

/-- `is_pending_password_record` -/
def isPendingPasswordRecord (record : Text) : Bool := pendingPrefix.isPrefixOf record

/-- `hash_pending_placeholder`, with the secret and the salt it draws; the secret is long
enough for the policy. -/
def hashPendingPlaceholder (env : Env) (salt : Bytes) (secret : Text) : Except PolicyError Text :=
  (hashPassword env salt secret).map (pendingPrefix ++ ·)

/-- `record.split("$")` -/
def splitFields (record : Text) : List Text := record.splitOn '$'

/-- The rest of `verify_password` once the fields are read. -/
def verifyFields (env : Env) (password : Text) (n r p : Int) (salt expected : Bytes) : Bool × Bool :=
  if n > scryptN || r > scryptR || p > scryptP || expected.length != scryptDklen then (false, false)
  else
    match env.scrypt password salt n r p with
    | none => (false, false)
    | some derived =>
        let ok := derived == expected
        (ok, ok && (n < scryptN || r < scryptR || p < scryptP))

/-- `verify_password`: whether the password is right, and whether its record should be renewed. -/
def verifyPassword (env : Env) (password record : Text) : Bool × Bool :=
  if isPendingPasswordRecord record then (false, false)
  else
    match splitFields record with
    | [algo, n, r, p, salt, expected] =>
        if algo ≠ "scrypt".toList then (false, false)
        else
          match pyInt n, pyInt r, pyInt p, unb64 salt, unb64 expected with
          | some n, some r, some p, some salt, some expected =>
              verifyFields env password n r p salt expected
          | _, _, _, _, _ => (false, false)
    | _ => (false, false)

/-! ### Lockout -/

/-- `lockout_delay_sec` -/
def lockoutDelaySec (failedCount : Nat) : ℚ :=
  if failedCount < 5 then 0 else min (2 * 2 ^ min (failedCount - 5) 32) 900

/-- `is_locked` -/
def isLocked (lockedUntilTs : Option ℚ) (now : ℚ) : Bool :=
  match lockedUntilTs with
  | none => false
  | some t => t ≠ 0 && now < t

/-- `next_lock_until` -/
def nextLockUntil (failedCount : Nat) (now : ℚ) : ℚ := now + lockoutDelaySec failedCount

/-! ### Placeholders -/

theorem verifyPassword_pending {env : Env} {password record : Text}
    (h : isPendingPasswordRecord record = true) : verifyPassword env password record = (false, false) := by
  rw [verifyPassword, if_pos h]

/-- The record of a password is no placeholder. -/
theorem hashPassword_not_pending {env : Env} {salt : Bytes} {password record : Text}
    (h : hashPassword env salt password = .ok record) : isPendingPasswordRecord record = false := by
  rw [hashPassword] at h
  split at h
  · cases h
  · simp only [Except.ok.injEq] at h
    rw [← h]
    rfl

theorem hashPendingPlaceholder_pending {env : Env} {salt : Bytes} {secret record : Text}
    (h : hashPendingPlaceholder env salt secret = .ok record) :
    isPendingPasswordRecord record = true := by
  rw [hashPendingPlaceholder] at h
  cases hpw : hashPassword env salt secret with
  | error e =>
      rw [hpw] at h
      cases h
  | ok x =>
      rw [hpw, Except.map, Except.ok.injEq] at h
      rw [← h, isPendingPasswordRecord, List.isPrefixOf_iff_prefix]
      exact List.prefix_append _ _

end CyClaw.Auth
