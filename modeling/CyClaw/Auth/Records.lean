/-
Password records, whatever text is stored.

A record that verifies is one of `hash_password`'s shape with no cost above policy
(`Verified`), and the record of a password verifies it (`verifyPassword_hashPassword`), since base64
reads what it writes (`unb64_b64`).  A placeholder calls `verify_password` for the record behind it,
so a record with more of the prefix than the stack has room for raises RecursionError, and only such
a one does.

`int`, the key derivation and the room on the stack are parameters; `Auth.verifyPassword` is what is
left where there is room.
-/
import CyClaw.Auth.Primitives

namespace CyClaw.Auth.Records

open PyText

/-- A derived key. -/
abbrev Key := { bytes : Bytes // bytes.length = scryptDklen }

inductive ScryptError where
  | valueError
  | memoryError
  | overflowError
deriving DecidableEq

structure Library where
  int : Text → Option ℤ
  int_n : int "131072".toList = some scryptN
  int_r : int "8".toList = some scryptR
  int_p : int "1".toList = some scryptP
  /-- `hashlib.scrypt` with the module's key length. -/
  scrypt : Text → Bytes → ℤ → ℤ → ℤ → Except ScryptError Key
  /-- How many more calls of `verify_password` may be under way when it reads this record. -/
  room : Text → ℕ

inductive HashError where
  | policy (e : PolicyError)
  | scrypt (e : ScryptError)

section Passwords

variable (lib : Library)

/-- The record of a key that was derived at current policy. -/
def recordOf (salt : Bytes) (derived : Key) : Text :=
  ['$'].intercalate ["scrypt".toList, "131072".toList, "8".toList, "1".toList, b64 salt, b64 derived.1]

def hashPassword (password : Text) (salt : Bytes) : Except HashError Text :=
  match validatePassword password with
  | .error e => .error (.policy e)
  | .ok _ =>
      match lib.scrypt password salt scryptN scryptR scryptP with
      | .error e => .error (.scrypt e)
      | .ok derived => .ok (recordOf salt derived)

/-- The costs and keys that a record names. -/
structure Fields where
  n : ℤ
  r : ℤ
  p : ℤ
  salt : Bytes
  expected : Bytes

def readFields : List Text → Option Fields
  | [algo, n, r, p, salt, expected] =>
      if algo ≠ "scrypt".toList then none
      else do
        let n ← lib.int n
        let r ← lib.int r
        let p ← lib.int p
        let salt ← unb64 salt
        let expected ← unb64 expected
        return ⟨n, r, p, salt, expected⟩
  | _ => none

/-- Above policy, or cut short. -/
def Fields.forged (f : Fields) : Bool :=
  f.n > scryptN || f.r > scryptR || f.p > scryptP || f.expected.length != scryptDklen

def Fields.weaker (f : Fields) : Bool := f.n < scryptN || f.r < scryptR || f.p < scryptP

/-- `verify_password` of a record that is no placeholder. -/
def verifyRecord (password record : Text) : Bool × Bool :=
  match readFields lib (splitFields record) with
  | none => (false, false)
  | some f =>
      if f.forged then (false, false)
      else
        match lib.scrypt password f.salt f.n f.r f.p with
        | .error _ => (false, false)
        | .ok derived => (derived.1 == f.expected, derived.1 == f.expected && f.weaker)

/-- The calls under way raise RecursionError where there is no room for this one. -/
structure RecursionError where

/-- `verify_password`, with so many calls of it under way; a record has no more prefixes than characters. -/
def verifyNested (password : Text) : ℕ → ℕ → Text → Except RecursionError (Bool × Bool)
  | fuel + 1, depth, record =>
      if isPendingPasswordRecord record then
        (verifyNested password fuel (depth + 1) (record.drop pendingPrefix.length)).map fun _ => (false, false)
      else if depth ≤ lib.room record then .ok (verifyRecord lib password record)
      else .error ⟨⟩
  | 0, depth, record => if depth ≤ lib.room record then .ok (verifyRecord lib password record) else .error ⟨⟩

def verifyPassword (password record : Text) : Except RecursionError (Bool × Bool) :=
  verifyNested lib password record.length 0 record

end Passwords

/-! ### base64 -/

theorem b64Value_b64Char : ∀ n < 64, b64Value (b64Char n) = some n := by decide +kernel

theorem b64Char_ne : ∀ n < 64, b64Char n ≠ '=' ∧ b64Char n ≠ '$' := by decide +kernel

theorem dollar_not_mem_b64 (bytes : Bytes) : '$' ∉ b64 bytes := by
  induction bytes using b64.induct with
  | case1 => exact List.not_mem_nil
  | case2 a =>
    have ha := a.toNat_lt
    simp [b64, Ne.symm (b64Char_ne (a.toNat / 4) (by omega)).2, Ne.symm (b64Char_ne (a.toNat % 4 * 16) (by omega)).2]
  | case3 a b =>
    have ha := a.toNat_lt
    have hb := b.toNat_lt
    simp [b64, Ne.symm (b64Char_ne (a.toNat / 4) (by omega)).2,
      Ne.symm (b64Char_ne (a.toNat % 4 * 16 + b.toNat / 16) (by omega)).2, Ne.symm (b64Char_ne (b.toNat % 16 * 4) (by omega)).2]
  | case4 a b c t ih =>
    have ha := a.toNat_lt
    have hb := b.toNat_lt
    have hc := c.toNat_lt
    simp [b64, ih, Ne.symm (b64Char_ne (a.toNat / 4) (by omega)).2,
      Ne.symm (b64Char_ne (a.toNat % 4 * 16 + b.toNat / 16) (by omega)).2,
      Ne.symm (b64Char_ne (b.toNat % 16 * 4 + c.toNat / 64) (by omega)).2, Ne.symm (b64Char_ne (c.toNat % 64) (by omega)).2]

theorem ofNat_toNat {n : ℕ} {a : UInt8} (h : n = a.toNat) : UInt8.ofNat n = a := by
  rw [h, UInt8.ofNat_toNat]

/-- **base64 reads what it writes.** -/
theorem unb64_b64 (bytes : Bytes) : unb64 (b64 bytes) = some bytes := by
  induction bytes using b64.induct with
  | case1 => rfl
  | case2 a =>
    have ha := a.toNat_lt
    rw [b64, unb64, b64Value_b64Char _ (by omega), b64Value_b64Char _ (by omega)]
    simp only [Option.bind_some, Option.map_some]
    rw [ofNat_toNat (a := a) (by omega)]
  | case3 a b =>
    have ha := a.toNat_lt
    have hb := b.toNat_lt
    have hne := (b64Char_ne (b.toNat % 16 * 4) (by omega)).1
    rw [b64, unb64, b64Value_b64Char _ (by omega), b64Value_b64Char _ (by omega), b64Value_b64Char _ (by omega)]
    · simp only [Option.bind_some, Option.map_some]
      rw [ofNat_toNat (a := a) (by omega), ofNat_toNat (a := b) (by omega)]
    · exact fun h => hne h
  | case4 a b c t ih =>
    have ha := a.toNat_lt
    have hb := b.toNat_lt
    have hc := c.toNat_lt
    have hne := (b64Char_ne (c.toNat % 64) (by omega)).1
    rw [b64, unb64, b64Value_b64Char _ (by omega), b64Value_b64Char _ (by omega), b64Value_b64Char _ (by omega),
      b64Value_b64Char _ (by omega), ih]
    · simp only [Option.bind_some, Option.map_some]
      rw [ofNat_toNat (a := a) (by omega), ofNat_toNat (a := b) (by omega), ofNat_toNat (a := c) (by omega)]
    · exact fun _ h _ => hne h
    · exact fun h _ => hne h

/-! ### Records of passwords -/

section Records

variable {lib : Library} {password record inner : Text} {salt : Bytes} {derived : Key} {k fuel depth : ℕ}

theorem splitFields_recordOf : splitFields (recordOf salt derived) =
    ["scrypt".toList, "131072".toList, "8".toList, "1".toList, b64 salt, b64 derived.1] := by
  refine List.splitOn_intercalate '$' ?_ (List.cons_ne_nil _ _)
  intro field hfield
  simp only [List.mem_cons, List.not_mem_nil, or_false] at hfield
  rcases hfield with rfl | rfl | rfl | rfl | rfl | rfl
  · decide
  · decide
  · decide
  · decide
  · exact dollar_not_mem_b64 salt
  · exact dollar_not_mem_b64 derived.1

theorem isPending_recordOf : isPendingPasswordRecord (recordOf salt derived) = false := by
  rw [recordOf, List.intercalate_cons_cons]
  rfl

theorem verifyRecord_recordOf (h : lib.scrypt password salt scryptN scryptR scryptP = .ok derived) :
    verifyRecord lib password (recordOf salt derived) = (true, false) := by
  have hfields : readFields lib (splitFields (recordOf salt derived)) =
      some ⟨scryptN, scryptR, scryptP, salt, derived.1⟩ := by
    rw [splitFields_recordOf, readFields, if_neg (by decide), lib.int_n, lib.int_r, lib.int_p, unb64_b64, unb64_b64]
    rfl
  have hforged : Fields.forged ⟨scryptN, scryptR, scryptP, salt, derived.1⟩ = false := by
    simp [Fields.forged, derived.2]
  rw [verifyRecord, hfields]
  simp only [hforged, h, Bool.false_eq_true, if_false]
  simp [Fields.weaker]

/-! ### Placeholders -/

/-- The record has the prefix so many times, and then this one that has it no more. -/
structure Nested (k : ℕ) (record inner : Text) : Prop where
  record_eq : record = (List.replicate k pendingPrefix).flatten ++ inner
  inner : isPendingPasswordRecord inner = false

theorem Nested.pending_succ (h : Nested (k + 1) record inner) : isPendingPasswordRecord record = true := by
  rw [h.record_eq, List.replicate_succ, List.flatten_cons, List.append_assoc]
  exact List.isPrefixOf_iff_prefix.mpr (List.prefix_append _ _)

theorem exists_nested (record : Text) : ∃ k inner, Nested k record inner ∧ k ≤ record.length := by
  induction hn : record.length using Nat.strong_induction_on generalizing record with
  | _ n ih =>
    by_cases hpending : isPendingPasswordRecord record = true
    · obtain ⟨rest, rfl⟩ := List.isPrefixOf_iff_prefix.mp hpending
      have hlength : (pendingPrefix ++ rest).length = rest.length + 8 := by
        rw [List.length_append, Nat.add_comm]
        rfl
      obtain ⟨k, inner, hnested, hle⟩ := ih rest.length (by omega) rest rfl
      refine ⟨k + 1, inner, ⟨?_, hnested.inner⟩, by omega⟩
      rw [List.replicate_succ, List.flatten_cons, List.append_assoc, ← hnested.record_eq]
    · exact ⟨0, record, ⟨rfl, Bool.eq_false_iff.mpr hpending⟩, Nat.zero_le _⟩

theorem verifyNested_nested (h : Nested k record inner) (hfuel : k ≤ fuel) : verifyNested lib password fuel depth record =
    if depth + k ≤ lib.room inner then .ok (if k = 0 then verifyRecord lib password record else (false, false)) else .error ⟨⟩ := by
  induction k generalizing fuel depth record with
  | zero =>
    have hrecord : record = inner := h.record_eq
    subst hrecord
    cases fuel with
    | zero => rfl
    | succ fuel =>
      rw [verifyNested, if_neg (by rw [h.inner]; exact Bool.false_ne_true)]
      rfl
  | succ k ih =>
    obtain ⟨fuel, rfl⟩ : ∃ n, fuel = n + 1 := ⟨fuel - 1, by omega⟩
    have hrecord : record = pendingPrefix ++ ((List.replicate k pendingPrefix).flatten ++ inner) := by
      rw [h.record_eq, List.replicate_succ, List.flatten_cons, List.append_assoc]
    rw [verifyNested, if_pos h.pending_succ, hrecord, List.drop_left, ih ⟨rfl, h.inner⟩ (Nat.le_of_succ_le_succ hfuel),
      Nat.add_right_comm, Nat.add_assoc, if_neg (Nat.succ_ne_zero k)]
    split
    · rfl
    · rfl

/-- A placeholder pays for the record behind it, and verifies nothing. -/
theorem verifyPassword_nested (h : Nested k record inner) : verifyPassword lib password record =
    if k ≤ lib.room inner then .ok (if k = 0 then verifyRecord lib password record else (false, false)) else .error ⟨⟩ := by
  have hlength : k ≤ record.length := by
    have hprefix : pendingPrefix.length = 8 := rfl
    rw [h.record_eq, List.length_append, List.length_flatten, List.map_replicate, List.sum_replicate_nat, hprefix]
    omega
  rw [verifyPassword, verifyNested_nested h hlength, Nat.zero_add]

/-- The record of a password verifies it. -/
theorem verifyPassword_raises (h : Nested k record inner) (hroom : ¬ k ≤ lib.room inner) :
    verifyPassword lib password record = .error ⟨⟩ := by
  rw [verifyPassword_nested h, if_neg hroom]

theorem verifyPassword_hashPassword (h : hashPassword lib password salt = .ok record) :
    verifyPassword lib password record = .ok (true, false) := by
  unfold hashPassword at h
  split at h
  · cases h
  split at h
  · cases h
  · rename_i derived hscrypt
    obtain rfl := Except.ok.inj h
    have hnested : Nested 0 (recordOf salt derived) (recordOf salt derived) := ⟨rfl, isPending_recordOf⟩
    rw [verifyPassword_nested hnested, if_pos (Nat.zero_le _), if_pos rfl, verifyRecord_recordOf hscrypt]

theorem verifyFields_eq {env : Env} {n r p : ℤ} {expected : Bytes}
    (hscrypt : ∀ password salt n r p, env.scrypt password salt n r p = (lib.scrypt password salt n r p).toOption.map Subtype.val) :
    (if Fields.forged ⟨n, r, p, salt, expected⟩ then (false, false)
      else
        match lib.scrypt password salt n r p with
        | .error _ => (false, false)
        | .ok derived => (derived.1 == expected, derived.1 == expected && Fields.weaker ⟨n, r, p, salt, expected⟩)) =
      verifyFields env password n r p salt expected := by
  rw [verifyFields, hscrypt]
  by_cases hforged : Fields.forged ⟨n, r, p, salt, expected⟩ = true
  · have hforged' := hforged
    simp only [Fields.forged, Bool.or_eq_true, decide_eq_true_eq] at hforged'
    rw [if_pos hforged, if_pos (by simpa using hforged')]
  · have hforged' := hforged
    simp only [Fields.forged, Bool.or_eq_true, decide_eq_true_eq] at hforged'
    rw [if_neg hforged, if_neg (by simpa using hforged')]
    cases lib.scrypt password salt n r p with
    | error e => rfl
    | ok derived => rfl

/-- Where there is room it is what the rest of the module takes it for. -/
theorem verifyPassword_eq {env : Env} (hint : lib.int = pyInt)
    (hscrypt : ∀ password salt n r p, env.scrypt password salt n r p = (lib.scrypt password salt n r p).toOption.map Subtype.val)
    (h : Nested k record inner) (hroom : k ≤ lib.room inner) :
    verifyPassword lib password record = .ok (Auth.verifyPassword env password record) := by
  rw [verifyPassword_nested h, if_pos hroom]
  refine congrArg Except.ok ?_
  cases k with
  | zero =>
    have hrecord : record = inner := h.record_eq
    subst hrecord
    rw [if_pos rfl, Auth.verifyPassword, if_neg (by rw [h.inner]; exact Bool.false_ne_true), verifyRecord]
    generalize splitFields record = fields
    -- Only a record of six fields is read.
    rcases fields with _ | ⟨algo, _ | ⟨n, _ | ⟨r, _ | ⟨p, _ | ⟨salt, _ | ⟨expected, _ | ⟨_, _⟩⟩⟩⟩⟩⟩⟩ <;> try rfl
    simp only [readFields, hint]
    by_cases halgo : algo = "scrypt".toList
    · rw [if_neg (not_not.mpr halgo), if_neg (not_not.mpr halgo)]
      rcases pyInt n with _ | n
      · rfl
      rcases pyInt r with _ | r
      · rfl
      rcases pyInt p with _ | p
      · rfl
      rcases unb64 salt with _ | salt
      · rfl
      rcases unb64 expected with _ | expected
      · rfl
      exact verifyFields_eq hscrypt
    · rw [if_pos halgo, if_pos halgo]
  | succ k => rw [if_neg (Nat.succ_ne_zero k), verifyPassword_pending h.pending_succ]

end Records

/-! ### What a record that verifies is -/

/-- The record names costs within policy, and the key that is derived with them. -/
structure Matches (lib : Library) (password record : Text) (f : Fields) : Prop where
  shape : ∃ n r p salt hash, record = ['$'].intercalate ["scrypt".toList, n, r, p, salt, hash] ∧ lib.int n = some f.n ∧
    lib.int r = some f.r ∧ lib.int p = some f.p ∧ unb64 salt = some f.salt ∧ unb64 hash = some f.expected
  policy : f.n ≤ scryptN ∧ f.r ≤ scryptR ∧ f.p ≤ scryptP
  length : f.expected.length = scryptDklen
  derived : ∃ key, lib.scrypt password f.salt f.n f.r f.p = .ok key ∧ key.1 = f.expected

/-- **A password is right only for a record of its own**, and a record is renewed only when it is weaker. -/
structure Checked (lib : Library) (password record : Text) (ok needsRehash : Bool) : Prop where
  sound : ok = true → ∃ f, Matches lib password record f ∧
    (needsRehash = true → f.n < scryptN ∨ f.r < scryptR ∨ f.p < scryptP)
  rehash : needsRehash = true → ok = true
  pending : isPendingPasswordRecord record = true → ok = false

theorem readFields_some {lib : Library} {record : Text} {f : Fields} (h : readFields lib (splitFields record) = some f) :
    ∃ n r p salt hash, record = ['$'].intercalate ["scrypt".toList, n, r, p, salt, hash] ∧ lib.int n = some f.n ∧
      lib.int r = some f.r ∧ lib.int p = some f.p ∧ unb64 salt = some f.salt ∧ unb64 hash = some f.expected := by
  have hrecord : ['$'].intercalate (splitFields record) = record := List.intercalate_splitOn '$'
  unfold readFields at h
  split at h
  · rename_i algo n r p salt hash heq
    by_cases halgo : algo = "scrypt".toList
    · rw [if_neg (not_not.mpr halgo)] at h
      simp only [Option.bind_eq_bind, Option.bind_eq_some_iff, Option.pure_def, Option.some.injEq] at h
      obtain ⟨n', hn, r', hr, p', hp, salt', hsalt, expected, hexpected, rfl⟩ := h
      rw [heq, halgo] at hrecord
      exact ⟨n, r, p, salt, hash, hrecord.symm, hn, hr, hp, hsalt, hexpected⟩
    · rw [if_pos halgo] at h
      cases h
  · cases h

theorem checked_verifyRecord {lib : Library} {password record : Text} (h : isPendingPasswordRecord record = false) :
    Checked lib password record (verifyRecord lib password record).1 (verifyRecord lib password record).2 := by
  have hpending : ∀ ok : Bool, isPendingPasswordRecord record = true → ok = false := by
    intro ok hpending
    rw [h] at hpending
    cases hpending
  unfold verifyRecord
  split
  · exact ⟨fun h => (by cases h), fun h => (by cases h), hpending false⟩
  · rename_i f hfields
    by_cases hforged : f.forged = true
    · rw [if_pos hforged]
      exact ⟨fun h => (by cases h), fun h => (by cases h), hpending false⟩
    · rw [if_neg hforged]
      split
      · exact ⟨fun h => (by cases h), fun h => (by cases h), hpending false⟩
      · rename_i derived hscrypt
        simp only [Fields.forged, Bool.or_eq_true, decide_eq_true_eq, bne_iff_ne, ne_eq, not_or, not_lt, not_not] at hforged
        obtain ⟨⟨⟨hn, hr⟩, hp⟩, hlength⟩ := hforged
        refine ⟨fun hok => ⟨f, ⟨readFields_some hfields, ⟨hn, hr, hp⟩, hlength, derived, hscrypt, by simpa using hok⟩, ?_⟩, ?_,
          hpending _⟩
        · intro hrehash
          simpa [Fields.weaker, or_assoc] using (Bool.and_eq_true_iff.mp hrehash).2
        · exact fun hrehash => (Bool.and_eq_true_iff.mp hrehash).1

/-- **Exactly where the stack has room for the placeholders.** -/
theorem passwords_checked (lib : Library) :
    (∀ password salt record, hashPassword lib password salt = .ok record →
      verifyPassword lib password record = .ok (true, false)) ∧
    ∀ password record, (∃ ok needsRehash, verifyPassword lib password record = .ok (ok, needsRehash) ∧
      Checked lib password record ok needsRehash) ↔ ∀ k inner, Nested k record inner → k ≤ lib.room inner := by
  refine ⟨fun password salt record => verifyPassword_hashPassword, fun password record => ⟨?_, fun hroom => ?_⟩⟩
  · rintro ⟨ok, needsRehash, hverify, -⟩ k inner hnested
    by_contra hroom
    rw [verifyPassword_raises hnested hroom] at hverify
    cases hverify
  · obtain ⟨k, inner, hnested, -⟩ := exists_nested record
    refine ⟨_, _, by rw [verifyPassword_nested hnested, if_pos (hroom k inner hnested)], ?_⟩
    cases k with
    | zero =>
      have hrecord : record = inner := hnested.record_eq
      rw [if_pos rfl]
      exact checked_verifyRecord (hrecord ▸ hnested.inner)
    | succ k =>
      rw [if_neg (Nat.succ_ne_zero k)]
      exact ⟨fun h => (by cases h), fun h => (by cases h), fun _ => rfl⟩

/-- An interpreter that nests a thousand calls, a hundred of which are under way. -/
def sampleLibrary : Library where
  int := pyInt
  int_n := by decide
  int_r := by decide
  int_p := by decide
  scrypt _ _ _ _ _ := .ok ⟨List.replicate scryptDklen 0, rfl⟩
  room _ := 900

/-- A record that is nothing but the prefix, a thousand times. -/
theorem placeholder_raises :
    verifyPassword sampleLibrary "correct horse".toList (List.replicate 1000 pendingPrefix).flatten = .error ⟨⟩ ∧
      ¬ ∃ ok needsRehash, verifyPassword sampleLibrary "correct horse".toList (List.replicate 1000 pendingPrefix).flatten =
        .ok (ok, needsRehash) ∧
          Checked sampleLibrary "correct horse".toList (List.replicate 1000 pendingPrefix).flatten ok needsRehash := by
  have hnested : Nested 1000 (List.replicate 1000 pendingPrefix).flatten [] := ⟨(List.append_nil _).symm, rfl⟩
  have hraises : verifyPassword sampleLibrary "correct horse".toList (List.replicate 1000 pendingPrefix).flatten = .error ⟨⟩ := by
    have hroom : ¬ 1000 ≤ sampleLibrary.room [] := show ¬ 1000 ≤ 900 by omega
    exact verifyPassword_raises hnested hroom
  refine ⟨hraises, ?_⟩
  rintro ⟨ok, needsRehash, hverify, -⟩
  rw [hraises] at hverify
  cases hverify

end CyClaw.Auth.Records
