/-
Version 4 networks, as `ipaddress.ip_network` reads them.

A network is its lowest address and the length of its prefix, and both are written in its text
(`ipv4Network_withPrefixlen`).  The text of an address reads back as that address
(`ipv4_dotted`).

`quad` reads four numbers in digits of any script, with leading zeros or without.  It agrees with
`ipv4` where that reads an address (`quad_of_ipv4`), and it reads more.
-/
import CyClaw.Lib.Fallible
import CyClaw.Lib.IpAddress
import CyClaw.Lib.PyText

namespace IpAddress

/-! ### Addresses -/

/-- `str` of a version 4 address. -/
def dotted (n : ℕ) : Text :=
  ['.'].intercalate ([n / 16777216, n / 65536 % 256, n / 256 % 256, n % 256].map (Nat.toDigits 10))

/-- A number written in the digits that `digit` knows. -/
def number (digit : Char → Option ℕ) (t : Text) : Option ℕ :=
  if t = [] then none else (t.mapM digit).map fun ds => ds.foldl (fun n d => 10 * n + d) 0

/-- The address that four numbers name. -/
def quad (digit : Char → Option ℕ) (t : Text) : Option ℕ :=
  let numbers := t.splitOn '.'
  if numbers.length ≠ 4 then none
  else (numbers.mapM fun x => (number digit x).filter (· ≤ 255)).map fun ns => ns.foldl (fun n o => 256 * n + o) 0

theorem octet_le {t : Text} {o : ℕ} (h : octet t = some o) : o ≤ 255 := by
  unfold octet at h
  rw [Option.ite_none_left_eq_some, Option.ite_none_left_eq_some, Option.ite_none_left_eq_some] at h
  obtain ⟨-, -, hle, heq⟩ := h
  obtain rfl := Option.some.inj heq
  exact Nat.le_of_not_lt hle

theorem octet_toDigits : ∀ k < 256, octet (Nat.toDigits 10 k) = some k := by decide +kernel

theorem foldl_lt (os : List ℕ) (h : ∀ o ∈ os, o ≤ 255) (n : ℕ) :
    os.foldl (fun n o => 256 * n + o) n < (n + 1) * 256 ^ os.length := by
  induction os generalizing n with
  | nil => simp
  | cons o os ih =>
    rw [List.forall_mem_cons] at h
    have hrest := ih h.2 (256 * n + o)
    have hle : (256 * n + o + 1) * 256 ^ os.length ≤ ((n + 1) * 256) * 256 ^ os.length :=
      Nat.mul_le_mul_right _ (by omega)
    rw [List.length_cons, Nat.pow_succ', ← Nat.mul_assoc]
    exact Nat.lt_of_lt_of_le hrest hle

theorem ipv4_lt {t : Text} {n : ℕ} (h : ipv4 t = some n) : n < 2 ^ 32 := by
  unfold ipv4 at h
  rw [Option.ite_none_left_eq_some] at h
  obtain ⟨hfour, h⟩ := h
  obtain ⟨os, hos, rfl⟩ := Option.map_eq_some_iff.mp h
  have hread := Fallible.mapM_eq_some.mp hos
  have hback : List.Forall₂ (fun o x => o ≤ 255 ∧ octet x = some o) os (t.splitOn '.') :=
    List.Forall₂.flip (hread.imp fun x o hx => ⟨octet_le hx, hx⟩)
  have hle : ∀ o ∈ os, o ≤ 255 := ((List.forall₂_and_left _ _).mp hback).1
  have hlt := foldl_lt os hle 0
  rw [← hread.length_eq, not_not.mp hfour] at hlt
  exact hlt

theorem mem_dotted {n : ℕ} {c : Char} (h : c ∈ dotted n) : c.isDigit = true ∨ c = '.' := by
  obtain hdot | ⟨x, hx, hc⟩ := PyText.mem_intercalate h
  · exact Or.inr (List.mem_singleton.mp hdot)
  · obtain ⟨k, -, rfl⟩ := List.mem_map.mp hx
    exact Or.inl (Nat.isDigit_of_mem_toDigits (by decide) (by decide) hc)

theorem dot_notMem_toDigits (k : ℕ) : '.' ∉ Nat.toDigits 10 k :=
  fun h => absurd (Nat.isDigit_of_mem_toDigits (by decide) (by decide) h) (by decide)

/-- **The text of an address is read as that address.** -/
theorem ipv4_dotted {n : ℕ} (h : n < 2 ^ 32) : ipv4 (dotted n) = some n := by
  have hsplit : (dotted n).splitOn '.' = [n / 16777216, n / 65536 % 256, n / 256 % 256, n % 256].map (Nat.toDigits 10) := by
    refine List.splitOn_intercalate '.' ?_ (List.cons_ne_nil _ _)
    intro x hx
    obtain ⟨k, -, rfl⟩ := List.mem_map.mp hx
    exact dot_notMem_toDigits k
  have hread : ([n / 16777216, n / 65536 % 256, n / 256 % 256, n % 256].map (Nat.toDigits 10)).mapM octet =
      some [n / 16777216, n / 65536 % 256, n / 256 % 256, n % 256] := by
    refine Fallible.mapM_eq_some.mpr (List.forall₂_map_left_iff.mpr (List.forall₂_same.mpr fun k hk => octet_toDigits k ?_))
    simp only [List.mem_cons, List.not_mem_nil, or_false] at hk
    omega
  unfold ipv4
  simp only [hsplit, hread, Option.map_some, List.foldl_cons, List.foldl_nil, List.length_map, List.length_cons,
    List.length_nil, ne_eq, not_true_eq_false, if_false, Option.some.injEq]
  omega

theorem ipAddress_of_ipv4 {t : Text} {n : ℕ} (h : ipv4 t = some n) : ipAddress t = some (.v4 n) := by
  unfold ipAddress
  rw [h]

theorem ipv4_of_ipAddress {t : Text} {n : ℕ} (h : ipAddress t = some (.v4 n)) : ipv4 t = some n := by
  unfold ipAddress at h
  split at h
  · rename_i m hm
    obtain rfl := Ip.v4.inj (Option.some.inj h)
    exact hm
  · rw [Option.ite_none_left_eq_some] at h
    obtain ⟨-, h⟩ := h
    obtain ⟨x, -, hx⟩ := Option.bind_eq_some_iff.mp h
    obtain ⟨m, -, hm⟩ := Option.map_eq_some_iff.mp hx
    cases hm

section Digits

variable {digit : Char → Option ℕ}

theorem mapM_digit (hdigit : ∀ c : Char, c.isDigit = true → digit c = some (c.toNat - 48)) {t : Text}
    (ht : t.all Char.isDigit = true) : t.mapM digit = some (t.map fun c => c.toNat - 48) :=
  Fallible.mapM_eq_some.mpr (List.forall₂_map_right_iff.mpr
    (List.forall₂_same.mpr fun c hc => hdigit c (List.all_eq_true.mp ht c hc)))

theorem number_of_octet (hdigit : ∀ c : Char, c.isDigit = true → digit c = some (c.toNat - 48)) {t : Text} {o : ℕ}
    (h : octet t = some o) : number digit t = some o := by
  unfold octet at h
  rw [Option.ite_none_left_eq_some, Option.ite_none_left_eq_some, Option.ite_none_left_eq_some] at h
  obtain ⟨hgood, -, -, heq⟩ := h
  rw [not_or, not_or, not_not] at hgood
  obtain ⟨hne, hall, -⟩ := hgood
  unfold number
  rw [if_neg hne, mapM_digit hdigit hall, ← heq, Option.map_some, Nat.ofDigitChars_eq_foldl, List.foldl_map]
  rfl

theorem quad_of_ipv4 (hdigit : ∀ c : Char, c.isDigit = true → digit c = some (c.toNat - 48)) {t : Text} {n : ℕ}
    (h : ipv4 t = some n) : quad digit t = some n := by
  unfold ipv4 at h
  rw [Option.ite_none_left_eq_some] at h
  obtain ⟨hfour, h⟩ := h
  obtain ⟨os, hos, heq⟩ := Option.map_eq_some_iff.mp h
  have hnumbers : (t.splitOn '.').mapM (fun x => (number digit x).filter (· ≤ 255)) = some os := by
    refine Fallible.mapM_eq_some.mpr ((Fallible.mapM_eq_some.mp hos).imp ?_)
    intro x o hx
    rw [number_of_octet hdigit hx, Option.filter_some, if_pos (decide_eq_true (octet_le hx))]
  unfold quad
  rw [if_neg hfour, hnumbers, Option.map_some, heq]

end Digits

/-! ### Networks -/

/-- A network, with no bit set behind its prefix. -/
@[ext] structure Network where
  address : ℕ
  prefixlen : ℕ
  prefixlen_le : prefixlen ≤ 32
  address_lt : address < 2 ^ 32
  masked : 2 ^ (32 - prefixlen) ∣ address

/-- `n & netmask`. -/
def underMask (p n : ℕ) : ℕ := n / 2 ^ (32 - p) * 2 ^ (32 - p)

theorem underMask_le (p n : ℕ) : underMask p n ≤ n := Nat.div_mul_le_self n _

/-- The network of an address. -/
def Network.around (n p : ℕ) (hn : n < 2 ^ 32) (hp : p ≤ 32) : Network where
  address := underMask p n
  prefixlen := p
  prefixlen_le := hp
  address_lt := Nat.lt_of_le_of_lt (underMask_le p n) hn
  masked := Nat.dvd_mul_left _ _

/-- `address in network`. -/
def Network.contains (net : Network) (n : ℕ) : Bool := underMask net.prefixlen n = net.address

def Network.broadcastAddress (net : Network) : ℕ := net.address + (2 ^ (32 - net.prefixlen) - 1)

def Network.subnetOf (net other : Network) : Bool :=
  other.address ≤ net.address && net.broadcastAddress ≤ other.broadcastAddress

/-- `with_prefixlen`. -/
def Network.withPrefixlen (net : Network) : Text := dotted net.address ++ '/' :: Nat.toDigits 10 net.prefixlen

/-- `_prefix_from_prefix_string`, where a text longer than 4300 digits is no number. -/
def prefixFromPrefixString (most : ℕ) (t : Text) : Option ℕ :=
  if t = [] ∨ ¬ t.all Char.isDigit ∨ 4300 < t.length then none
  else (some (Nat.ofDigitChars 10 t 0)).filter (· ≤ most)

/-- `IPv4Network._prefix_from_ip_int`. -/
def prefixFromIpInt (n : ℕ) : Option ℕ :=
  let trailingZeroes := ((List.range 32).takeWhile fun i => !n.testBit i).length
  if n / 2 ^ trailingZeroes = 2 ^ (32 - trailingZeroes) - 1 then some (32 - trailingZeroes) else none

/-- `IPv4Network._make_netmask`: a length, or a netmask, or a hostmask. -/
def prefixOf (t : Text) : Option ℕ :=
  (prefixFromPrefixString 32 t).or
    ((ipv4 t).bind fun n => (prefixFromIpInt n).or (prefixFromIpInt (2 ^ 32 - 1 - n)))

/-- The prefix length in the parts of a text about its slashes. -/
def prefixlenOf : List Text → Option ℕ
  | [_] => some 32
  | [_, mask] => prefixOf mask
  | _ => none

theorem prefixFromIpInt_le {n p : ℕ} (h : prefixFromIpInt n = some p) : p ≤ 32 := by
  unfold prefixFromIpInt at h
  rw [Option.ite_none_right_eq_some] at h
  rw [← Option.some.inj h.2]
  exact Nat.sub_le 32 _

theorem prefixOf_le {t : Text} {p : ℕ} (h : prefixOf t = some p) : p ≤ 32 := by
  unfold prefixOf at h
  obtain h | ⟨-, h⟩ := Option.or_eq_some_iff.mp h
  · unfold prefixFromPrefixString at h
    rw [Option.ite_none_left_eq_some] at h
    exact of_decide_eq_true (Option.filter_eq_some_iff.mp h.2).2
  · obtain ⟨n, -, h⟩ := Option.bind_eq_some_iff.mp h
    obtain h | ⟨-, h⟩ := Option.or_eq_some_iff.mp h
    · exact prefixFromIpInt_le h
    · exact prefixFromIpInt_le h

theorem prefixlenOf_le {parts : List Text} {p : ℕ} (h : prefixlenOf parts = some p) : p ≤ 32 := by
  unfold prefixlenOf at h
  split at h
  · rw [← Option.some.inj h]
  · exact prefixOf_le h
  · cases h

/-- `IPv4Network(t, strict)`, `none` where it raises. -/
def ipv4Network (strict : Bool) (t : Text) : Option Network :=
  let parts := t.splitOn '/'
  match hn : ipv4 (parts.headD []), hp : prefixlenOf parts with
  | some n, some p =>
      if strict && underMask p n != n then none else some (Network.around n p (ipv4_lt hn) (prefixlenOf_le hp))
  | _, _ => none

/-- `ipaddress.ip_network`; of a version 6 network nothing is kept. -/
inductive IpNetwork where
  | v4 (net : Network)
  | v6

/-- `ip_network(t, strict=False)`, `none` where it raises. -/
def ipNetwork (t : Text) : Option IpNetwork :=
  match ipv4Network false t with
  | some net => some (.v4 net)
  | none =>
      match t.splitOn '/' with
      | [a] => ((splitScope a).bind fun x => ipv6 x.1).map fun _ => .v6
      | [a, mask] =>
          ((splitScope a).bind fun x => ipv6 x.1).bind fun _ => (prefixFromPrefixString 128 mask).map fun _ => .v6
      | _ => none

theorem underMask_address (net : Network) : underMask net.prefixlen net.address = net.address :=
  Nat.div_mul_cancel net.masked

theorem prefixOf_toDigits {p : ℕ} (h : p ≤ 32) : prefixOf (Nat.toDigits 10 p) = some p := by
  have hdigits : (Nat.toDigits 10 p).all Char.isDigit = true :=
    List.all_eq_true.mpr fun c hc => Nat.isDigit_of_mem_toDigits (by decide) (by decide) hc
  have hlength : (Nat.toDigits 10 p).length ≤ 2 := (Nat.length_toDigits_le_iff (by decide) (by decide)).mpr (by omega)
  have hgood : ¬ (Nat.toDigits 10 p = [] ∨ ¬ (Nat.toDigits 10 p).all Char.isDigit = true ∨
      4300 < (Nat.toDigits 10 p).length) := by
    rintro (hnil | hall | hlong)
    · exact List.ne_nil_of_length_pos Nat.length_toDigits_pos hnil
    · exact hall hdigits
    · omega
  unfold prefixOf prefixFromPrefixString
  rw [if_neg hgood, Nat.ofDigitChars_ten_toDigits, Option.filter_some, if_pos (decide_eq_true h), Option.some_or]

theorem slash_notMem_toDigits (k : ℕ) : '/' ∉ Nat.toDigits 10 k :=
  fun h => absurd (Nat.isDigit_of_mem_toDigits (by decide) (by decide) h) (by decide)

theorem splitOn_withPrefixlen (net : Network) :
    net.withPrefixlen.splitOn '/' = [dotted net.address, Nat.toDigits 10 net.prefixlen] := by
  have hdotted : '/' ∉ dotted net.address := by
    intro h
    obtain hdigit | hdot := mem_dotted h
    · exact absurd hdigit (by decide)
    · exact absurd hdot (by decide)
  have hjoin : net.withPrefixlen = ['/'].intercalate [dotted net.address, Nat.toDigits 10 net.prefixlen] := by
    rw [List.intercalate_cons_cons, List.intercalate_singleton, List.append_assoc]
    rfl
  rw [hjoin]
  refine List.splitOn_intercalate '/' ?_ (List.cons_ne_nil _ _)
  rintro x hx
  obtain rfl | hx := List.mem_cons.mp hx
  · exact hdotted
  · rw [List.mem_singleton.mp hx]
    exact slash_notMem_toDigits _

/-- **The text of a network is read as that network**, with host bits allowed or not. -/
theorem ipv4Network_withPrefixlen (strict : Bool) (net : Network) : ipv4Network strict net.withPrefixlen = some net := by
  have hn : ipv4 ((net.withPrefixlen.splitOn '/').headD []) = some net.address := by
    rw [splitOn_withPrefixlen]
    exact ipv4_dotted net.address_lt
  have hp : prefixlenOf (net.withPrefixlen.splitOn '/') = some net.prefixlen := by
    rw [splitOn_withPrefixlen]
    exact prefixOf_toDigits net.prefixlen_le
  unfold ipv4Network
  dsimp only
  split
  · rename_i n p hn' hp'
    obtain rfl := Option.some.inj (hn.symm.trans hn')
    obtain rfl := Option.some.inj (hp.symm.trans hp')
    rw [underMask_address, bne_self_eq_false, Bool.and_false, if_neg Bool.false_ne_true]
    exact congrArg some (Network.ext (underMask_address net) rfl)
  · rename_i hno
    exact absurd hp (hno _ _ hn)

end IpAddress
