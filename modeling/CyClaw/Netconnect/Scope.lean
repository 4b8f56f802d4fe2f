/-
The address scope of the passive network connector, `agentic/netconnect/scope.py`.

What is configured is accepted entry by entry, in canonical form, and read once more when the
policy is made of it.  That reading never fails, and the addresses it lets through are those in
the networks that were configured (`contains_iff`).
-/
import CyClaw.Lib.Ipv4Network

namespace CyClaw.Netconnect

open IpAddress PyText

/-- `ALLOWED_PARENT_CIDRS`. -/
def allowedParentCidrs : List Text :=
  ["10.0.0.0/8".toList, "172.16.0.0/12".toList, "192.168.0.0/16".toList, "127.0.0.0/8".toList]

/-- `_ALLOWED_PARENTS`. -/
def allowedParents : List Network := allowedParentCidrs.filterMap (ipv4Network true)

/-- An entry of a configured list: a text, or something else with its `repr`. -/
inductive CidrEntry where
  | str (raw : Text)
  | other (repr : Text)
deriving DecidableEq

/-- `NetConnectConfigError` with its details. -/
inductive NetConnectConfigError where
  | empty (received : CidrEntry)
  | invalid (cidr : Text)
  | notVersion4 (cidr : Text)
  | outside (cidr : Text) (allowedParents : List Text)
deriving DecidableEq

/-- One round of `normalize_allowed_cidrs`: the canonical text of an entry. -/
def canonicalCidr : CidrEntry → Except NetConnectConfigError Text
  | .other repr => .error (.empty (.other repr))
  | .str raw =>
      if strip raw = [] then .error (.empty (.str raw))
      else match ipNetwork (strip raw) with
        | none => .error (.invalid raw)
        | some .v6 => .error (.notVersion4 raw)
        | some (.v4 network) =>
            if allowedParents.any network.subnetOf then .ok network.withPrefixlen
            else .error (.outside raw allowedParentCidrs)

def normalizeStep (normalized : List Text) (entry : CidrEntry) : Except NetConnectConfigError (List Text) :=
  (canonicalCidr entry).map fun canonical => if canonical ∈ normalized then normalized else normalized ++ [canonical]

/-- `normalize_allowed_cidrs`. -/
def normalizeAllowedCidrs (values : List CidrEntry) : Except NetConnectConfigError (List Text) :=
  values.foldlM normalizeStep []

structure ScopePolicy where
  networks : List Network

/-- What making a policy raises. -/
inductive ScopeError where
  | config (e : NetConnectConfigError)
  /-- `IPv4Network` of a canonical text. -/
  | valueError

/-- `IPv4Network(value)`. -/
def strictNetwork (value : Text) : Except ScopeError Network :=
  (ipv4Network true value).elim (.error .valueError) .ok

/-- `ScopePolicy.from_cidrs`. -/
def ScopePolicy.fromCidrs (cidrs : List Text) : Except ScopeError ScopePolicy :=
  ((normalizeAllowedCidrs (cidrs.map .str)).mapError .config).bind fun normalized =>
    (normalized.mapM strictNetwork).map .mk

/-- `ScopePolicy.contains`. -/
def ScopePolicy.contains (scope : ScopePolicy) (value : Text) : Bool :=
  match ipAddress value with
  | some (.v4 n) => scope.networks.any (·.contains n)
  | _ => false

/-- The address is in one of the networks that are written in the list. -/
def Inside (values : List CidrEntry) (n : ℕ) : Prop :=
  ∃ raw network, .str raw ∈ values ∧ ipNetwork (strip raw) = some (.v4 network) ∧ network.contains n = true

/-! ### Canonical texts -/

theorem canonicalCidr_eq_ok {entry : CidrEntry} {t : Text} :
    canonicalCidr entry = .ok t ↔ ∃ raw network, entry = .str raw ∧ strip raw ≠ [] ∧
      ipNetwork (strip raw) = some (.v4 network) ∧ allowedParents.any network.subnetOf = true ∧ network.withPrefixlen = t := by
  constructor
  · intro h
    unfold canonicalCidr at h
    split at h
    · cases h
    · rename_i raw
      split at h
      · cases h
      · rename_i hne
        split at h
        · cases h
        · cases h
        · rename_i network hnetwork
          split at h
          · rename_i hparent
            exact ⟨raw, network, rfl, hne, hnetwork, hparent, Except.ok.inj h⟩
          · cases h
  · rintro ⟨raw, network, rfl, hne, hnetwork, hparent, rfl⟩
    unfold canonicalCidr
    dsimp only
    rw [if_neg hne, hnetwork]
    dsimp only
    rw [if_pos hparent]

theorem isSpace_withPrefixlen {network : Network} {c : Char} (h : c ∈ network.withPrefixlen) : isSpace c = false := by
  have hdigit : c.isDigit = true → isSpace c = false := by
    intro hc
    have hrange := isDigit_iff.mp hc
    by_contra hspace
    rw [Bool.not_eq_false] at hspace
    simp only [isSpace, Bool.or_eq_true, Bool.and_eq_true, decide_eq_true_eq, beq_iff_eq] at hspace
    omega
  obtain hc | hc := List.mem_append.mp h
  · obtain hc | rfl := mem_dotted hc
    · exact hdigit hc
    · decide
  · obtain rfl | hc := List.mem_cons.mp hc
    · decide
    · exact hdigit (Nat.isDigit_of_mem_toDigits (by decide) (by decide) hc)

theorem strip_withPrefixlen (network : Network) : strip network.withPrefixlen = network.withPrefixlen :=
  strip_eq_self (fun _ hc => isSpace_withPrefixlen (List.mem_of_mem_head? hc))
    fun _ hc => isSpace_withPrefixlen (List.mem_of_getLast? hc)

theorem withPrefixlen_ne_nil (network : Network) : network.withPrefixlen ≠ [] :=
  List.append_ne_nil_of_right_ne_nil _ (List.cons_ne_nil _ _)

/-- A canonical text is accepted as it is. -/
theorem canonicalCidr_withPrefixlen {network : Network} (h : allowedParents.any network.subnetOf = true) :
    canonicalCidr (.str network.withPrefixlen) = .ok network.withPrefixlen := by
  refine canonicalCidr_eq_ok.mpr ⟨network.withPrefixlen, network, rfl, ?_, ?_, h, rfl⟩
  · rw [strip_withPrefixlen]
    exact withPrefixlen_ne_nil network
  · rw [strip_withPrefixlen]
    unfold ipNetwork
    rw [ipv4Network_withPrefixlen]

/-! ### What is accepted -/

theorem mem_foldlM_normalizeStep {values : List CidrEntry} {normalized cidrs : List Text}
    (h : values.foldlM normalizeStep normalized = .ok cidrs) (t : Text) :
    t ∈ cidrs ↔ t ∈ normalized ∨ ∃ entry ∈ values, canonicalCidr entry = .ok t := by
  induction values generalizing normalized with
  | nil =>
    obtain rfl := Except.ok.inj h
    simp
  | cons entry values ih =>
    rw [Fallible.foldlM_cons] at h
    obtain ⟨normalized', hstep, hrest⟩ := Fallible.bind_eq_ok.mp h
    obtain ⟨canonical, hcanonical, rfl⟩ := Fallible.map_eq_ok.mp hstep
    have hstays : t ∈ (if canonical ∈ normalized then normalized else normalized ++ [canonical]) ↔
        t ∈ normalized ∨ canonical = t := by
      split
      · rename_i hmem
        exact ⟨Or.inl, fun ht => ht.elim id fun heq => heq ▸ hmem⟩
      · rw [List.mem_append, List.mem_singleton, eq_comm]
    rw [ih hrest, hstays, List.exists_mem_cons_iff, hcanonical, Except.ok.injEq, or_assoc]

theorem mem_normalizeAllowedCidrs {values : List CidrEntry} {cidrs : List Text} (h : normalizeAllowedCidrs values = .ok cidrs)
    (t : Text) : t ∈ cidrs ↔ ∃ entry ∈ values, canonicalCidr entry = .ok t := by
  rw [mem_foldlM_normalizeStep h]
  exact or_iff_right List.not_mem_nil

theorem returns_normalizeAllowedCidrs {values : List CidrEntry} :
    Fallible.Returns (normalizeAllowedCidrs values) ↔ ∀ entry ∈ values, Fallible.Returns (canonicalCidr entry) := by
  have hstep : ∀ normalized entry, Fallible.Returns (normalizeStep normalized entry) ↔ Fallible.Returns (canonicalCidr entry) :=
    fun _ _ => Fallible.returns_map
  exact Fallible.foldlM_returns hstep [] values

/-- Each text that is accepted is that of a network that is written in the list, and no network
there is left out. -/
theorem mem_cidrs {values : List CidrEntry} {cidrs : List Text} (h : normalizeAllowedCidrs values = .ok cidrs) (t : Text) :
    t ∈ cidrs ↔ ∃ raw network, .str raw ∈ values ∧ ipNetwork (strip raw) = some (.v4 network) ∧
      allowedParents.any network.subnetOf = true ∧ network.withPrefixlen = t := by
  rw [mem_normalizeAllowedCidrs h]
  constructor
  · rintro ⟨entry, hentry, hcanonical⟩
    obtain ⟨raw, network, rfl, -, hnetwork, hparent, ht⟩ := canonicalCidr_eq_ok.mp hcanonical
    exact ⟨raw, network, hentry, hnetwork, hparent, ht⟩
  · rintro ⟨raw, network, hentry, hnetwork, hparent, ht⟩
    obtain ⟨t', hcanonical⟩ := returns_normalizeAllowedCidrs.mp ⟨cidrs, h⟩ _ hentry
    obtain ⟨raw', network', heq, hne, -⟩ := canonicalCidr_eq_ok.mp hcanonical
    obtain rfl := CidrEntry.str.inj heq
    exact ⟨_, hentry, canonicalCidr_eq_ok.mpr ⟨raw, network, rfl, hne, hnetwork, hparent, ht⟩⟩

/-- The accepted list is accepted once more. -/
theorem normalizeAllowedCidrs_again {values : List CidrEntry} {cidrs : List Text}
    (h : normalizeAllowedCidrs values = .ok cidrs) :
    ∃ cidrs', normalizeAllowedCidrs (cidrs.map .str) = .ok cidrs' ∧ ∀ t, t ∈ cidrs' ↔ t ∈ cidrs := by
  have hcanonical : ∀ t ∈ cidrs, canonicalCidr (.str t) = .ok t := by
    intro t ht
    obtain ⟨raw, network, -, -, hparent, rfl⟩ := (mem_cidrs h t).mp ht
    exact canonicalCidr_withPrefixlen hparent
  obtain ⟨cidrs', hcidrs'⟩ := returns_normalizeAllowedCidrs.mpr fun entry (hentry : entry ∈ cidrs.map .str) => by
    obtain ⟨t, ht, rfl⟩ := List.mem_map.mp hentry
    exact ⟨t, hcanonical t ht⟩
  refine ⟨cidrs', hcidrs', fun t => ?_⟩
  rw [mem_normalizeAllowedCidrs hcidrs']
  constructor
  · rintro ⟨entry, hentry, ht⟩
    obtain ⟨t', ht', rfl⟩ := List.mem_map.mp hentry
    rw [hcanonical t' ht'] at ht
    exact Except.ok.inj ht ▸ ht'
  · exact fun ht => ⟨.str t, List.mem_map_of_mem ht, hcanonical t ht⟩

/-- **A policy can be made of an accepted list, and lets through the addresses in its networks.** -/
theorem exists_fromCidrs {values : List CidrEntry} {cidrs : List Text} (h : normalizeAllowedCidrs values = .ok cidrs) :
    ∃ scope, ScopePolicy.fromCidrs cidrs = .ok scope ∧ ∀ n, scope.networks.any (·.contains n) = true ↔ Inside values n := by
  obtain ⟨cidrs', hcidrs', hmem⟩ := normalizeAllowedCidrs_again h
  have hnetwork : ∀ t ∈ cidrs', ∃ network : Network, network.withPrefixlen = t ∧ strictNetwork t = .ok network := by
    intro t ht
    obtain ⟨raw, network, -, -, -, rfl⟩ := (mem_cidrs h t).mp ((hmem t).mp ht)
    exact ⟨network, rfl, by rw [strictNetwork, ipv4Network_withPrefixlen, Option.elim_some]⟩
  obtain ⟨networks, hnetworks⟩ := Fallible.mapM_ok fun t ht => (hnetwork t ht).imp fun _ hn => hn.2
  refine ⟨⟨networks⟩, ?_, fun n => ?_⟩
  · rw [ScopePolicy.fromCidrs, hcidrs']
    show (cidrs'.mapM strictNetwork).map ScopePolicy.mk = _
    rw [hnetworks]
    rfl
  · rw [List.any_eq_true]
    constructor
    · rintro ⟨network, hin, hcontains⟩
      obtain ⟨t, ht, hread⟩ := Fallible.mem_mapM hnetworks hin
      obtain ⟨raw, network', hraw, hnetwork', -, rfl⟩ := (mem_cidrs h t).mp ((hmem t).mp ht)
      rw [strictNetwork, ipv4Network_withPrefixlen, Option.elim_some] at hread
      obtain rfl := Except.ok.inj hread
      exact ⟨raw, network', hraw, hnetwork', hcontains⟩
    · rintro ⟨raw, network, hraw, hread, hcontains⟩
      obtain ⟨t, ht⟩ := returns_normalizeAllowedCidrs.mp ⟨cidrs, h⟩ _ hraw
      obtain ⟨raw', network', heq, -, hread', hparent, rfl⟩ := canonicalCidr_eq_ok.mp ht
      obtain rfl := CidrEntry.str.inj heq
      obtain rfl := IpNetwork.v4.inj (Option.some.inj (hread.symm.trans hread'))
      have hin : network.withPrefixlen ∈ cidrs' :=
        (hmem _).mpr ((mem_cidrs h _).mpr ⟨raw, network, hraw, hread, hparent, rfl⟩)
      obtain ⟨network', hin', hread'⟩ := Fallible.mem_of_mapM hnetworks hin
      rw [strictNetwork, ipv4Network_withPrefixlen, Option.elim_some] at hread'
      exact ⟨network, Except.ok.inj hread' ▸ hin', hcontains⟩

end CyClaw.Netconnect
