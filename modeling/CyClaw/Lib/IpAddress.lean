/-
The texts of IP addresses, as `ipaddress.ip_address` reads them.

`ipAddress` says which texts are addresses and of which version.  Which addresses are public is
the business of a registry, and stays open.

A version 6 text begins with a colon or a hexadecimal digit (`head_of_v6`), for its first group
is read unless nothing stands before a leading `::`.
-/
import Mathlib.Algebra.Group.Nat.Defs
import Mathlib.Data.List.Basic
import Mathlib.Data.Nat.Notation

namespace IpAddress

abbrev Text := List Char

inductive Ip where
  | v4 (n : ℕ)
  | v6 (n : ℕ) (scope : Option Text)
deriving DecidableEq

def Ip.isV6 : Ip → Bool
  | .v4 _ => false
  | .v6 _ _ => true

/-- `IPv4Address._parse_octet`. -/
def octet (t : Text) : Option ℕ :=
  if t = [] ∨ ¬ t.all Char.isDigit ∨ 3 < t.length then none
  else if t ≠ ['0'] ∧ t.head? = some '0' then none
  else
    let n := Nat.ofDigitChars 10 t 0
    if 255 < n then none else some n

/-- `IPv4Address._ip_int_from_string`. -/
def ipv4 (t : Text) : Option ℕ :=
  let octets := t.splitOn '.'
  if octets.length ≠ 4 then none else (octets.mapM octet).map fun ns => ns.foldl (fun n o => 256 * n + o) 0

def isHex (c : Char) : Bool := c.isDigit || ('a' ≤ c && c ≤ 'f') || ('A' ≤ c && c ≤ 'F')

def hexValue (c : Char) : ℕ :=
  if c.isDigit then c.toNat - '0'.toNat else if c ≤ 'F' then c.toNat - 'A'.toNat + 10 else c.toNat - 'a'.toNat + 10

/-- `IPv6Address._parse_hextet`. -/
def hextet (t : Text) : Option ℕ :=
  if t = [] ∨ ¬ t.all isHex ∨ 4 < t.length then none else some (t.foldl (fun n c => 16 * n + hexValue c) 0)

/-- The groups, where the last may be written as an IPv4 address. -/
def groups (t : Text) : Option (List Text) :=
  let parts := t.splitOn ':'
  if parts.length < 3 then none
  else match parts.getLast? with
    | some last =>
        if '.' ∈ last then
          (ipv4 last).map fun n => parts.dropLast ++ [Nat.toDigits 16 (n / 65536), Nat.toDigits 16 (n % 65536)]
        else some parts
    | none => none

/-- Where groups are left out: the empty ones but for the first and the last. -/
def skips (parts : List Text) : List ℕ :=
  (List.range parts.length).filter fun i => 0 < i && i + 1 < parts.length && parts[i]? = some []

/-- The groups on one side of a `::`; on the outer side of a `::` there may be nothing. -/
def side (outer : Option Text) (parts : List Text) : Option (List Text) :=
  if outer ≠ some [] then some parts else if parts.length = 1 then some [] else none

/-- All eight groups. -/
def filled (parts : List Text) : Option (List Text) :=
  if 9 < parts.length then none
  else match skips parts with
    | [] => if parts.length ≠ 8 ∨ parts.head? = some [] ∨ parts.getLast? = some [] then none else some parts
    | [i] =>
        (side parts.head? (parts.take i)).bind fun high =>
          (side parts.getLast? (parts.drop (i + 1))).bind fun low =>
            if 8 ≤ high.length + low.length then none
            else some (high ++ List.replicate (8 - (high.length + low.length)) ['0'] ++ low)
    | _ => none

/-- `IPv6Address._ip_int_from_string`. -/
def ipv6 (t : Text) : Option ℕ :=
  ((groups t).bind filled).bind fun parts => (parts.mapM hextet).map fun hs => hs.foldl (fun n h => 65536 * n + h) 0

/-- `IPv6Address._split_scope_id`. -/
def splitScope (t : Text) : Option (Text × Option Text) :=
  if '%' ∉ t then some (t, none)
  else
    let scope := (t.dropWhile (· ≠ '%')).drop 1
    if scope = [] ∨ '%' ∈ scope then none else some (t.takeWhile (· ≠ '%'), some scope)

/-- `ipaddress.ip_address`, `none` where it raises. -/
def ipAddress (t : Text) : Option Ip :=
  match ipv4 t with
  | some n => some (.v4 n)
  | none =>
      if '/' ∈ t then none
      else (splitScope t).bind fun (address, scope) => (ipv6 address).map fun n => .v6 n scope

/-! ### How a version 6 text begins -/

theorem splitOn_head {c sep : Char} (cs : Text) (hc : c ≠ sep) : ∃ rest, ((c :: cs).splitOn sep).head? = some (c :: rest) := by
  rw [List.splitOn_cons_eq_if_modifyHead, if_neg (by simpa using hc)]
  cases hsplit : cs.splitOn sep with
  | nil => exact absurd hsplit (List.splitOn_ne_nil sep cs)
  | cons first rest => exact ⟨first, rfl⟩

theorem groups_head {c : Char} {cs : Text} {parts : List Text} (h : groups (c :: cs) = some parts) (hc : c ≠ ':') :
    ∃ rest, parts.head? = some (c :: rest) := by
  obtain ⟨rest, hhead⟩ := splitOn_head cs hc
  unfold groups at h
  generalize (c :: cs).splitOn ':' = all at h hhead
  rw [Option.ite_none_left_eq_some] at h
  obtain ⟨hlength, h⟩ := h
  split at h
  · split at h
    · -- The last group is not the first.
      obtain ⟨n, -, rfl⟩ := Option.map_eq_some_iff.mp h
      cases all with
      | nil => cases hhead
      | cons a tail =>
        cases tail with
        | nil => exact absurd (show 1 < 3 by omega) hlength
        | cons b tail => exact ⟨rest, hhead⟩
    · obtain rfl := Option.some.inj h
      exact ⟨rest, hhead⟩
  · cases h

theorem hextet_head {c : Char} {cs : Text} {n : ℕ} (h : hextet (c :: cs) = some n) : isHex c = true := by
  unfold hextet at h
  rw [Option.ite_none_left_eq_some] at h
  obtain ⟨hgood, -⟩ := h
  rw [not_or, not_or, not_not, List.all_cons, Bool.and_eq_true] at hgood
  exact hgood.2.1.1

theorem side_eq {outer : Option Text} {parts parts' : List Text} (h : side outer parts = some parts')
    (houter : outer ≠ some []) : parts' = parts := by
  unfold side at h
  rw [if_pos houter] at h
  exact (Option.some.inj h).symm

/-- The first group is read, unless it is empty. -/
theorem filled_head {parts all : List Text} {first : Text} (h : filled parts = some all)
    (hfirst : parts.head? = some first) (hne : first ≠ []) : all.head? = some first := by
  have houter : parts.head? ≠ some [] := by
    rw [hfirst]
    exact fun heq => hne (Option.some.inj heq)
  unfold filled at h
  rw [Option.ite_none_left_eq_some] at h
  obtain ⟨-, h⟩ := h
  split at h
  · rw [Option.ite_none_left_eq_some] at h
    obtain ⟨-, heq⟩ := h
    obtain rfl := Option.some.inj heq
    exact hfirst
  · rename_i i hskips
    obtain ⟨high, hhigh, h⟩ := Option.bind_eq_some_iff.mp h
    obtain ⟨low, -, h⟩ := Option.bind_eq_some_iff.mp h
    rw [Option.ite_none_left_eq_some] at h
    obtain ⟨-, heq⟩ := h
    obtain rfl := Option.some.inj heq
    obtain rfl := side_eq hhigh houter
    have hi : i ∈ skips parts := by
      rw [hskips]
      exact List.mem_singleton_self i
    have hpos : 0 < i := by
      have hboth := (List.mem_filter.mp hi).2
      simp only [Bool.and_eq_true, decide_eq_true_eq] at hboth
      exact hboth.1.1
    obtain ⟨j, rfl⟩ := Nat.exists_eq_succ_of_ne_zero (Nat.pos_iff_ne_zero.mp hpos)
    cases parts with
    | nil => cases hfirst
    | cons a rest => exact hfirst
  · cases h

theorem ipv6_head {c : Char} {cs : Text} {n : ℕ} (h : ipv6 (c :: cs) = some n) (hc : c ≠ ':') : isHex c = true := by
  obtain ⟨all, hall, hread⟩ := Option.bind_eq_some_iff.mp h
  obtain ⟨parts, hgroups, hfilled⟩ := Option.bind_eq_some_iff.mp hall
  obtain ⟨rest, hhead⟩ := groups_head hgroups hc
  have hfirst := filled_head hfilled hhead (List.cons_ne_nil c rest)
  obtain ⟨ns, hns, -⟩ := Option.map_eq_some_iff.mp hread
  cases all with
  | nil => cases hfirst
  | cons first others =>
    obtain rfl := Option.some.inj hfirst
    rw [List.mapM_cons, Option.bind_eq_bind, Option.bind_eq_some_iff] at hns
    obtain ⟨m, hm, -⟩ := hns
    exact hextet_head hm

/-- **A version 6 text begins with a colon or a hexadecimal digit.** -/
theorem head_of_v6 {c : Char} {cs : Text} {ip : Ip} (h : ipAddress (c :: cs) = some ip) (hip : ip.isV6 = true) (hc : c ≠ ':') :
    isHex c = true := by
  unfold ipAddress at h
  split at h
  · obtain rfl := Option.some.inj h
    cases hip
  · rw [Option.ite_none_left_eq_some] at h
    obtain ⟨-, h⟩ := h
    obtain ⟨⟨address, scope⟩, hscope, haddress⟩ := Option.bind_eq_some_iff.mp h
    obtain ⟨n, hn, -⟩ := Option.map_eq_some_iff.mp haddress
    unfold splitScope at hscope
    split at hscope
    · obtain ⟨rfl, -⟩ := Prod.mk.inj (Option.some.inj hscope)
      exact ipv6_head hn hc
    · rw [Option.ite_none_left_eq_some] at hscope
      obtain ⟨-, heq⟩ := hscope
      obtain ⟨rfl, -⟩ := Prod.mk.inj (Option.some.inj heq)
      rw [List.takeWhile_cons] at hn
      split at hn
      · exact ipv6_head hn hc
      · rename_i hpercent
        -- Nothing stands before the scope, and nothing is no address.
        cases hn

end IpAddress
