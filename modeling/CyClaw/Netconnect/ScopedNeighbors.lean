/-
What the neighbour listing lets out.

The addresses it returns are in the configured networks, in their numeric order and not more than
`max_neighbors`, the hardware addresses are in one form, and no neighbour in scope is missing unless
the list was cut.  An interface that `ip_address` reads is rewritten or left out, and one that it
refuses is taken for a name (`scopeInterface_eq`).  But four numbers with a leading zero, or in digits
beyond ASCII, are refused as well: so the listing tells no address outside the networks just when no
neighbour it returns has such an interface (`scoped_iff`).
-/
import CyClaw.Lib.TopK
import CyClaw.Netconnect.Neighbors

namespace CyClaw.Netconnect

open IpAddress PyText

variable {u : CharTables}

/-! ### Hardware addresses -/

/-- Six pairs of lower-case hexadecimal digits with a colon between any two. -/
def IsMac (t : Text) : Prop := pairsShaped lowerHex (· = ':') 5 t = true

theorem pairsShaped_pairs (n : ℕ) {t : Text} (hlength : t.length = 2 * (n + 1)) (ht : t.all lowerHex = true) :
    pairsShaped lowerHex (· = ':') n ([':'].intercalate (pairs t)) = true := by
  induction n generalizing t with
  | zero =>
    obtain ⟨a, b, rfl⟩ := List.length_eq_two.mp hlength
    simpa [pairs, pairsShaped] using ht
  | succ n ih =>
    obtain ⟨a, t, rfl⟩ := List.exists_cons_of_length_pos (l := t) (by omega)
    rw [List.length_cons] at hlength
    obtain ⟨b, t, rfl⟩ := List.exists_cons_of_length_pos (l := t) (by omega)
    rw [List.length_cons] at hlength
    rw [List.all_cons, List.all_cons, Bool.and_eq_true, Bool.and_eq_true] at ht
    obtain ⟨ha, hb, ht⟩ := ht
    have hrest := ih (by omega) ht
    obtain ⟨c, d, t, rfl⟩ : ∃ c d t', t = c :: d :: t' := by
      obtain ⟨c, t, rfl⟩ := List.exists_cons_of_length_pos (l := t) (by omega)
      rw [List.length_cons] at hlength
      obtain ⟨d, t, rfl⟩ := List.exists_cons_of_length_pos (l := t) (by omega)
      exact ⟨c, d, t, rfl⟩
    rw [pairs, pairs, List.intercalate_cons_cons, ← pairs]
    simp only [List.cons_append, List.nil_append, pairsShaped, ha, hb, hrest, decide_true, Bool.and_self]

theorem replace_dash (t : Text) : replace ['-'] [':'] t = t.map fun c => if c = '-' then ':' else c := by
  induction t with
  | nil => rfl
  | cons c t ih =>
    have hstep : replace ['-'] [':'] (c :: t) =
        if ['-'].isPrefixOf (c :: t) then [':'] ++ replace ['-'] [':'] t else c :: replace ['-'] [':'] t := rfl
    have hprefix : ['-'].isPrefixOf (c :: t) = decide (c = '-') := by
      simp [List.isPrefixOf, Bool.beq_eq_decide_eq, eq_comm]
    rw [hstep, hprefix, ih, List.map_cons]
    by_cases hc : c = '-'
    · rw [if_pos (decide_eq_true hc), if_pos hc, List.singleton_append]
    · rw [if_neg (by simpa using hc), if_neg hc]

theorem lowerHex_of_isHex {c : Char} (h : isHex c = true) (hc : c.isUpper = false) : lowerHex c = true := by
  have hupper : ¬ ('A' ≤ c ∧ c ≤ 'F') := by
    rintro ⟨hA, hF⟩
    have hbounds : 65 ≤ c.toNat ∧ c.toNat ≤ 90 := ⟨hA, Nat.le_trans hF (by decide)⟩
    rw [isUpper_iff.mpr hbounds] at hc
    cases hc
  unfold isHex at h
  unfold lowerHex
  simp only [Bool.or_eq_true, Bool.and_eq_true, decide_eq_true_eq] at h ⊢
  exact h.resolve_right hupper

theorem pairsShaped_replace (n : ℕ) {t : Text} (h : pairsShaped isHex (fun c => c = ':' || c = '-') n t = true)
    (ht : ∀ c ∈ t, c.isUpper = false) : pairsShaped lowerHex (· = ':') n (replace ['-'] [':'] t) = true := by
  have hkeeps : ∀ {c : Char}, isHex c = true → (if c = '-' then ':' else c) = c := by
    intro c hc
    refine if_neg ?_
    rintro rfl
    exact absurd hc (by decide)
  rw [replace_dash]
  fun_induction pairsShaped isHex (fun c => c = ':' || c = '-') n t with
  | case1 a b =>
    rw [Bool.and_eq_true] at h
    rw [List.map_cons, List.map_cons, List.map_nil, hkeeps h.1, hkeeps h.2, pairsShaped,
      lowerHex_of_isHex h.1 (ht a (by simp)), lowerHex_of_isHex h.2 (ht b (by simp)), Bool.and_self]
  | case2 n a b c t ih =>
    simp only [Bool.and_eq_true] at h
    obtain ⟨⟨⟨ha, hb⟩, hc⟩, hrest⟩ := h
    have hsep : (if c = '-' then ':' else c) = ':' := by
      obtain hc | hc := Bool.or_eq_true _ _ ▸ hc
      · rw [of_decide_eq_true hc, if_neg (by decide)]
      · rw [of_decide_eq_true hc, if_pos rfl]
    rw [List.map_cons, List.map_cons, List.map_cons, hkeeps ha, hkeeps hb, hsep, pairsShaped,
      lowerHex_of_isHex ha (ht a (by simp)), lowerHex_of_isHex hb (ht b (by simp)),
      ih hrest fun d hd => ht d (by simp [hd])]
    rfl
  | case3 => cases h

/-- A hardware address that is kept is in the one form. -/
theorem isMac_of_normalizeMac {raw m : Text} (h : normalizeMac u raw = some m) : IsMac m := by
  unfold normalizeMac at h
  dsimp only at h
  rw [Option.ite_none_left_eq_some] at h
  obtain ⟨-, h⟩ := h
  split at h
  · rename_i hplain
    rw [← Option.some.inj h]
    exact pairsShaped_pairs 5 hplain.1 hplain.2
  · rw [Option.ite_none_left_eq_some] at h
    obtain ⟨hshaped, heq⟩ := h
    rw [← Option.some.inj heq]
    rw [Bool.not_eq_true, Bool.not_eq_false'] at hshaped
    exact pairsShaped_replace 5 hshaped (u.not_isUpper_lower _)

/-! ### What the lines tell -/

/-- What every record satisfies. -/
structure Neighbor.Recorded (r : Neighbor) : Prop where
  ip : ∃ n, ipv4 r.ip = some n
  mac : ∀ m, r.mac = some m → IsMac m

theorem recorded {ip interface state : Text} {mac : Option Text} {r : Neighbor} (h : record u ip mac interface state = some r) :
    r.Recorded := by
  unfold record at h
  split at h
  · rename_i n hip
    rw [← Option.some.inj h]
    refine ⟨⟨n, ipv4_dotted (ipv4_lt (ipv4_of_ipAddress hip))⟩, ?_⟩
    intro m hm
    obtain ⟨raw, -, hraw⟩ := Option.bind_eq_some_iff.mp hm
    exact isMac_of_normalizeMac hraw
  · cases h

theorem recorded_windowsLines {interface : Text} {lines : List Text} {r : Neighbor} (h : r ∈ windowsLines u interface lines) :
    r.Recorded := by
  induction lines generalizing interface with
  | nil => cases h
  | cons line lines ih =>
    unfold windowsLines at h
    split at h
    · exact ih h
    · split at h
      · obtain h | h := List.mem_append.mp h
        · exact recorded (Option.mem_toList.mp h)
        · exact ih h
      · exact ih h

theorem recorded_linuxLine {line : Text} {r : Neighbor} (h : linuxLine u line = some r) : r.Recorded := by
  unfold linuxLine at h
  dsimp only at h
  split at h
  · cases h
  · exact recorded h

theorem recorded_darwinLine {line : Text} {r : Neighbor} (h : darwinLine u line = some r) : r.Recorded := by
  unfold darwinLine at h
  split at h
  · exact recorded h
  · cases h

theorem recorded_neighborLines {text systemName : Text} {lines : List Neighbor}
    (h : neighborLines u text systemName = .ok lines) : ∀ r ∈ lines, r.Recorded := by
  intro r hr
  unfold neighborLines at h
  dsimp only at h
  split at h
  · rw [← Except.ok.inj h] at hr
    exact recorded_windowsLines hr
  · split at h
    · rw [← Except.ok.inj h] at hr
      obtain ⟨line, -, hline⟩ := List.mem_filterMap.mp hr
      exact recorded_linuxLine hline
    · split at h
      · rw [← Except.ok.inj h] at hr
        obtain ⟨line, -, hline⟩ := List.mem_filterMap.mp hr
        exact recorded_darwinLine hline
      · cases h

/-! ### Neighbours told twice -/

theorem mem_foldl_setDefault {records unique : List Neighbor} {r : Neighbor} (h : r ∈ records.foldl setDefault unique) :
    r ∈ unique ∨ r ∈ records := by
  induction records generalizing unique with
  | nil => exact Or.inl h
  | cons item records ih =>
    obtain h | h := ih h
    · unfold setDefault at h
      split at h
      · exact Or.inl h
      · obtain h | h := List.mem_append.mp h
        · exact Or.inl h
        · exact Or.inr (List.mem_cons.mpr (Or.inl (List.mem_singleton.mp h)))
    · exact Or.inr (List.mem_cons_of_mem item h)

theorem exists_key_setDefault (unique : List Neighbor) (item : Neighbor) : ∃ r ∈ setDefault unique item, r.key = item.key := by
  unfold setDefault
  split
  · rename_i hany
    obtain ⟨r, hr, hkey⟩ := List.any_eq_true.mp hany
    exact ⟨r, hr, of_decide_eq_true hkey⟩
  · exact ⟨item, List.mem_append_right _ (List.mem_singleton_self item), rfl⟩

theorem mem_setDefault {unique : List Neighbor} {r : Neighbor} (h : r ∈ unique) (item : Neighbor) : r ∈ setDefault unique item := by
  unfold setDefault
  split
  · exact h
  · exact List.mem_append_left _ h

theorem subset_foldl_setDefault {records unique : List Neighbor} {r : Neighbor} (h : r ∈ unique) :
    r ∈ records.foldl setDefault unique := by
  induction records generalizing unique with
  | nil => exact h
  | cons item records ih => exact ih (mem_setDefault h item)

/-- One neighbour stays of those with one key. -/
theorem exists_key {records : List Neighbor} {item : Neighbor} (unique : List Neighbor) (h : item ∈ records) :
    ∃ r ∈ records.foldl setDefault unique, r.key = item.key := by
  induction records generalizing unique with
  | nil => cases h
  | cons first records ih =>
    obtain rfl | h := List.mem_cons.mp h
    · obtain ⟨r, hr, hkey⟩ := exists_key_setDefault unique item
      have hstays : r ∈ records.foldl setDefault (setDefault unique item) := subset_foldl_setDefault hr
      exact ⟨r, hstays, hkey⟩
    · exact ih (setDefault unique first) h

/-! ### Interfaces -/

/-- An interface in four numbers of which `ip_address` makes nothing, and that name an address outside. -/
def Unread (u : CharTables) (values : List CidrEntry) (interface : Text) : Prop :=
  ipAddress interface = none ∧ ∃ n, quad u.decimal interface = some n ∧ ¬ Inside values n

/-- The policy lets through the addresses in the networks of the list. -/
def ScopePolicy.Of (scope : ScopePolicy) (values : List CidrEntry) : Prop :=
  ∀ n, scope.networks.any (·.contains n) = true ↔ Inside values n

variable {scope : ScopePolicy} {values : List CidrEntry}

theorem ScopePolicy.Of.contains_iff (h : scope.Of values) {t : Text} {n : ℕ} (hn : ipv4 t = some n) :
    scope.contains t = true ↔ Inside values n := by
  rw [← h n]
  unfold ScopePolicy.contains
  rw [ipAddress_of_ipv4 hn]

theorem quad_nil (digit : Char → Option ℕ) : quad digit [] = none := rfl

/-- An interface that is let out is nothing, or an address in scope, or what `ip_address` refuses. -/
theorem scopeInterface_eq (h : scope.Of values) (raw : Text) :
    scopeInterface scope raw = [] ∨ (∃ n, ipv4 (scopeInterface scope raw) = some n ∧ Inside values n) ∨
      ipAddress raw = none ∧ scopeInterface scope raw = raw := by
  unfold scopeInterface
  split
  · exact Or.inl rfl
  · split
    · rename_i hnone
      exact Or.inr (Or.inr ⟨hnone, rfl⟩)
    · rename_i n hn
      have hread := ipv4_dotted (ipv4_lt (ipv4_of_ipAddress hn))
      split
      · rename_i hcontains
        exact Or.inr (Or.inl ⟨n, hread, (h.contains_iff hread).mp hcontains⟩)
      · exact Or.inl rfl
    · exact Or.inl rfl

/-- **An interface tells an address outside the networks just when it is one that is not read.** -/
theorem scopeInterface_inside_iff (h : scope.Of values) (raw : Text) :
    (∀ n, quad u.decimal (scopeInterface scope raw) = some n → Inside values n) ↔ ¬ Unread u values raw := by
  constructor
  · rintro hinside ⟨hnone, n, hn, hout⟩
    have hraw : scopeInterface scope raw = raw := by
      unfold scopeInterface
      rw [hnone]
      split
      · rename_i hnil
        exact hnil.symm
      · rfl
    rw [hraw] at hinside
    exact hout (hinside n hn)
  · intro hread n hn
    obtain hnil | ⟨m, hm, hinside⟩ | ⟨hnone, hraw⟩ := scopeInterface_eq h raw
    · rw [hnil, quad_nil] at hn
      cases hn
    · obtain rfl := Option.some.inj ((quad_of_ipv4 u.decimal_of_isDigit hm).symm.trans hn)
      exact hinside
    · by_contra hout
      exact hread ⟨hnone, n, hraw ▸ hn, hout⟩

theorem isUpper_lower_ascii (t : Text) : ∀ c ∈ t.map Char.toLower, c.isUpper = false := by
  intro c hc
  obtain ⟨d, -, rfl⟩ := List.mem_map.mp hc
  rw [Bool.eq_false_iff]
  intro hupper
  rw [isUpper_iff, toNat_toLower] at hupper
  split at hupper <;> omega

/-! ### The listing -/

/-- The neighbours that the output of the command tells. -/
def Host.told (u : CharTables) (host : Host) : List Neighbor :=
  match host.ran with
  | .exited _ stdout => ((neighborLines u stdout host.systemName).toOption).getD []
  | _ => []

/-- Those of them that are told first. -/
def Host.observed (u : CharTables) (host : Host) : List Neighbor := (host.told u).foldl setDefault []

/-- How many neighbours in scope stand before this one in the sort. -/
def before (scope : ScopePolicy) (observed : List Neighbor) (r : Neighbor) : ℕ :=
  (inScope scope observed).countP fun r' => r'.sortKey < (r.scoped scope).sortKey

/-- What a listing of the neighbours in the networks is. -/
structure Scoped (u : CharTables) (values : List CidrEntry) (scope : ScopePolicy) (maxNeighbors : ℕ) (told : List Neighbor)
    (report : NeighborReport) : Prop where
  atMost : report.neighbors.length ≤ maxNeighbors
  inside : ∀ r ∈ report.neighbors, ∃ n, ipv4 r.ip = some n ∧ Inside values n
  /-- No interface names an address outside, however its numbers are written. -/
  interface : ∀ r ∈ report.neighbors, ∀ n, quad u.decimal r.interface = some n → Inside values n
  mac : ∀ r ∈ report.neighbors, ∀ m, r.mac = some m → IsMac m
  sorted : report.neighbors.Pairwise fun a b => ∀ m n, ipv4 a.ip = some m → ipv4 b.ip = some n → m ≤ n
  complete : report.truncated = false → ∀ r ∈ told, ∀ n, ipv4 r.ip = some n → Inside values n →
    ∃ r' ∈ report.neighbors, r'.ip = r.ip ∧ r'.mac = r.mac ∧ r'.interface = scopeInterface scope r.interface

instance : Std.Total Neighbor.le := ⟨fun _ _ => le_total _ _⟩

instance : IsTrans Neighbor Neighbor.le := ⟨fun _ _ _ => le_trans⟩

variable {host : Host} {report : NeighborReport} {client : NetClient} {observed : List Neighbor} {r : Neighbor}

theorem arpNeighbors_eq_ok (h : client.arpNeighbors u host = .ok report) :
    client.report host.systemName (host.observed u) = report ∧ ∀ r ∈ host.told u, r.Recorded := by
  unfold NetClient.arpNeighbors at h
  split at h
  · cases h
  · split at h
    · cases h
    · split at h
      · cases h
      · split at h
        · cases h
        · cases h
        · rename_i returncode stdout hran
          split at h
          · cases h
          · obtain ⟨observed, hobserved, hreport⟩ := Fallible.map_eq_ok.mp h
            obtain ⟨lines, hlines, rfl⟩ := Fallible.map_eq_ok.mp hobserved
            have htold : host.told u = lines := by
              unfold Host.told
              rw [hran]
              dsimp only
              rw [hlines]
              rfl
            unfold Host.observed
            rw [htold]
            exact ⟨hreport, recorded_neighborLines hlines⟩

theorem mem_inScope {r' : Neighbor} : r' ∈ inScope scope observed ↔ ∃ r ∈ observed, scope.contains r.ip = true ∧ r.scoped scope = r' := by
  unfold inScope
  rw [List.mem_map]
  constructor
  · rintro ⟨r, hr, heq⟩
    obtain ⟨hmem, hcontains⟩ := List.mem_filter.mp hr
    exact ⟨r, hmem, hcontains, heq⟩
  · rintro ⟨r, hmem, hcontains, heq⟩
    exact ⟨r, List.mem_filter.mpr ⟨hmem, hcontains⟩, heq⟩

theorem mem_report {platform : Text} (h : r ∈ (client.report platform observed).neighbors) : r ∈ inScope client.scope observed :=
  (List.mem_insertionSort Neighbor.le).mp (List.mem_of_mem_take h)

theorem ip_le_of_le {a b : Neighbor} (h : a.le b) {m n : ℕ} (hm : ipv4 a.ip = some m) (hn : ipv4 b.ip = some n) : m ≤ n := by
  unfold Neighbor.le Neighbor.sortKey at h
  rw [hm, hn, Prod.Lex.toLex_le_toLex] at h
  obtain hlt | ⟨heq, -⟩ := h
  · exact Nat.le_of_lt hlt
  · exact Nat.le_of_eq heq

/-- The whole list is returned if it was not cut. -/
theorem mem_report_of_not_truncated {platform : Text} (h : (client.report platform observed).truncated = false)
    (hr : r ∈ inScope client.scope observed) : r ∈ (client.report platform observed).neighbors := by
  have hlength : ¬ (client.report platform observed).neighbors.length <
      ((inScope client.scope observed).insertionSort Neighbor.le).length := of_decide_eq_false h
  unfold NetClient.report at hlength ⊢
  dsimp only at hlength ⊢
  rw [List.length_take] at hlength
  rw [List.take_of_length_le (by omega)]
  exact (List.mem_insertionSort Neighbor.le).mpr hr

/-- Which interfaces are returned. -/
theorem exists_mem_report {platform : Text} (p : Text → Prop) :
    (∃ r ∈ (client.report platform observed).neighbors, p r.interface) ↔
      ∃ r ∈ observed, client.scope.contains r.ip = true ∧ before client.scope observed r < client.maxNeighbors ∧
        p (scopeInterface client.scope r.interface) := by
  have hsorted : ((inScope client.scope observed).insertionSort Neighbor.le).Pairwise fun a b => a.sortKey ≤ b.sortKey :=
    List.pairwise_insertionSort Neighbor.le _
  have hcut := TopK.exists_mem_take_iff hsorted client.maxNeighbors fun key => p (ofLex (ofLex key).2).1
  constructor
  · intro h
    obtain ⟨r', hr', hbefore, hp⟩ := hcut.mp h
    obtain ⟨r, hr, hcontains, rfl⟩ := mem_inScope.mp ((List.mem_insertionSort Neighbor.le).mp hr')
    rw [(List.perm_insertionSort Neighbor.le _).countP_eq] at hbefore
    exact ⟨r, hr, hcontains, hbefore, hp⟩
  · rintro ⟨r, hr, hcontains, hbefore, hp⟩
    refine hcut.mpr ⟨r.scoped client.scope, ?_, ?_, hp⟩
    · exact (List.mem_insertionSort Neighbor.le).mpr (mem_inScope.mpr ⟨r, hr, hcontains, rfl⟩)
    · rw [(List.perm_insertionSort Neighbor.le _).countP_eq]
      exact hbefore

section Report

variable {platform : Text} {told : List Neighbor}

/-- What is returned has been recorded, and its address is in scope. -/
theorem recorded_report (hof : client.scope.Of values) (hobserved : ∀ r ∈ observed, r.Recorded)
    (hr : r ∈ (client.report platform observed).neighbors) :
    (∃ n, ipv4 r.ip = some n ∧ Inside values n) ∧ ∀ m, r.mac = some m → IsMac m := by
  obtain ⟨r, hmem, hcontains, rfl⟩ := mem_inScope.mp (mem_report hr)
  obtain ⟨n, hn⟩ := (hobserved r hmem).ip
  exact ⟨⟨n, hn, (hof.contains_iff hn).mp hcontains⟩, (hobserved r hmem).mac⟩

theorem sorted_report :
    (client.report platform observed).neighbors.Pairwise fun a b => ∀ m n, ipv4 a.ip = some m → ipv4 b.ip = some n → m ≤ n :=
  ((List.pairwise_insertionSort Neighbor.le _).sublist (List.take_sublist _ _)).imp fun h _ _ hm hn => ip_le_of_le h hm hn

theorem complete_report (hof : client.scope.Of values)
    (h : (client.report platform (told.foldl setDefault [])).truncated = false) {n : ℕ} (hr : r ∈ told)
    (hn : ipv4 r.ip = some n) (hinside : Inside values n) :
    ∃ r' ∈ (client.report platform (told.foldl setDefault [])).neighbors,
      r'.ip = r.ip ∧ r'.mac = r.mac ∧ r'.interface = scopeInterface client.scope r.interface := by
  obtain ⟨first, hfirst, hkey⟩ := exists_key [] hr
  obtain ⟨hip, hrest⟩ := Prod.mk.inj hkey
  obtain ⟨hinterface, hmac⟩ := Prod.mk.inj hrest
  have hcontains : client.scope.contains first.ip = true := by
    rw [hip]
    exact (hof.contains_iff hn).mpr hinside
  refine ⟨first.scoped client.scope, mem_report_of_not_truncated h (mem_inScope.mpr ⟨first, hfirst, hcontains, rfl⟩), hip, hmac, ?_⟩
  exact congrArg (scopeInterface client.scope) hinterface

/-- No interface that is returned tells an address outside just when none that is not read is returned. -/
theorem interfaces_report (hof : client.scope.Of values) (hobserved : ∀ r ∈ observed, r.Recorded) :
    (∀ r ∈ (client.report platform observed).neighbors, ∀ n, quad u.decimal r.interface = some n → Inside values n) ↔
      ∀ r ∈ observed, (∃ n, ipv4 r.ip = some n ∧ Inside values n) → before client.scope observed r < client.maxNeighbors →
        ¬ Unread u values r.interface := by
  have hout : (∃ r ∈ (client.report platform observed).neighbors, ¬ ∀ n, quad u.decimal r.interface = some n → Inside values n) ↔
      ∃ r ∈ observed, client.scope.contains r.ip = true ∧ before client.scope observed r < client.maxNeighbors ∧
        ¬ ∀ n, quad u.decimal (scopeInterface client.scope r.interface) = some n → Inside values n :=
    exists_mem_report fun interface => ¬ ∀ n, quad u.decimal interface = some n → Inside values n
  constructor
  · rintro h r hr ⟨n, hn, hinside⟩ hbefore hunread
    have hcontains := (hof.contains_iff hn).mpr hinside
    obtain ⟨r', hr', hnot⟩ := hout.mpr ⟨r, hr, hcontains, hbefore,
      fun hall => (scopeInterface_inside_iff hof r.interface).mp hall hunread⟩
    exact hnot (h r' hr')
  · intro h r hr
    by_contra hnot
    obtain ⟨r', hr', hcontains, hbefore, hnot'⟩ := hout.mp ⟨r, hr, hnot⟩
    obtain ⟨n, hn⟩ := (hobserved r' hr').ip
    have hread := h r' hr' ⟨n, hn, (hof.contains_iff hn).mp hcontains⟩ hbefore
    exact hnot' ((scopeInterface_inside_iff hof r'.interface).mpr hread)

end Report

theorem init_eq_ok {allowedNetOps cidrs : List Text} {maxNeighbors : ℕ}
    (h : NetClient.init allowedNetOps maxNeighbors cidrs = .ok client) :
    ScopePolicy.fromCidrs cidrs = .ok client.scope ∧ client.maxNeighbors = maxNeighbors := by
  obtain ⟨scope, hscope, rfl⟩ := Fallible.map_eq_ok.mp h
  exact ⟨hscope, rfl⟩

/-- **Whatever the command has written, on whichever platform, the listing is of the neighbours in the
networks just when no neighbour it returns is on an interface that is not read.** -/
theorem scoped_iff {cidrs allowedNetOps : List Text} {maxNeighbors : ℕ} (hcidrs : normalizeAllowedCidrs values = .ok cidrs)
    (hclient : NetClient.init allowedNetOps maxNeighbors cidrs = .ok client) (hreport : client.arpNeighbors u host = .ok report) :
    Scoped u values client.scope maxNeighbors (host.told u) report ↔
      ∀ r ∈ host.observed u, (∃ n, ipv4 r.ip = some n ∧ Inside values n) →
        before client.scope (host.observed u) r < maxNeighbors → ¬ Unread u values r.interface := by
  obtain ⟨hscope, rfl⟩ := init_eq_ok hclient
  obtain ⟨scope, hscope', hof⟩ := exists_fromCidrs hcidrs
  obtain rfl := Except.ok.inj (hscope'.symm.trans hscope)
  obtain ⟨rfl, hrecorded⟩ := arpNeighbors_eq_ok hreport
  have hobserved : ∀ r ∈ host.observed u, r.Recorded :=
    fun r hr => hrecorded r ((mem_foldl_setDefault hr).resolve_left List.not_mem_nil)
  rw [← interfaces_report hof hobserved]
  constructor
  · exact fun h => h.interface
  · intro h
    exact {
      atMost := List.length_take_le _ _
      inside := fun r hr => (recorded_report hof hobserved hr).1
      interface := h
      mac := fun r hr => (recorded_report hof hobserved hr).2
      sorted := sorted_report
      complete := fun hcut r hr n hn hinside => complete_report hof hcut hr hn hinside }

/-- Tables that know ASCII only. -/
def asciiTables : CharTables where
  lower t := t.map Char.toLower
  upper t := t.map Char.toUpper
  decimal c := if c.isDigit then some (c.toNat - 48) else none
  word _ := false
  not_isUpper_lower := isUpper_lower_ascii
  decimal_of_isDigit _ h := if_pos h

def homeCidrs : List CidrEntry := [.str "192.168.0.0/16".toList]

/-- The client of that list. -/
def homeClient : NetClient where
  allowedNetOps := ["arp".toList]
  maxNeighbors := 512
  scope := ⟨[Network.around 3232235520 16 (by decide) (by decide)]⟩

def hostOf (systemName output : String) : Host where
  systemName := systemName.toList
  installed := true
  ran := .exited 0 output.toList

def router : Neighbor where
  ip := "192.168.1.1".toList
  mac := some "aa:bb:cc:dd:ee:ff".toList
  interface := "eth0".toList
  state := "reachable".toList

theorem scoped_router :
    Scoped asciiTables homeCidrs homeClient.scope 512
      ((hostOf "Linux" "192.168.1.1 dev eth0 lladdr aa:bb:cc:dd:ee:ff REACHABLE").told asciiTables)
      ⟨"Linux".toList, 1, 1, false, [router]⟩ := by
  have hcidrs : normalizeAllowedCidrs homeCidrs = .ok ["192.168.0.0/16".toList] := by decide +kernel
  have hclient : NetClient.init ["arp".toList] 512 ["192.168.0.0/16".toList] = .ok homeClient := rfl
  refine (scoped_iff hcidrs hclient (by decide +kernel)).mpr ?_
  have hobserved : (hostOf "Linux" "192.168.1.1 dev eth0 lladdr aa:bb:cc:dd:ee:ff REACHABLE").observed asciiTables = [router] := by
    decide +kernel
  rw [hobserved, List.forall_mem_singleton]
  rintro - - ⟨-, n, hn, -⟩
  have hname : quad asciiTables.decimal router.interface = none := by decide +kernel
  rw [hname] at hn
  cases hn

/-- A header with a leading zero, and `192.168.1.1` is listed on an interface that names `10.9.9.9`. -/
theorem leading_zero_leaks :
    normalizeAllowedCidrs homeCidrs = .ok ["192.168.0.0/16".toList] ∧
      NetClient.init ["arp".toList] 512 ["192.168.0.0/16".toList] = .ok homeClient ∧
      homeClient.arpNeighbors asciiTables
          (hostOf "Windows" "Interface: 010.9.9.9 --- 0x4\n  192.168.1.1  aa-bb-cc-dd-ee-ff  dynamic") =
        .ok ⟨"Windows".toList, 1, 1, false, [{ router with interface := "010.9.9.9".toList, state := "dynamic".toList }]⟩ ∧
      quad asciiTables.decimal "010.9.9.9".toList = some 168364297 ∧ ¬ Inside homeCidrs 168364297 ∧
      ¬ Scoped asciiTables homeCidrs homeClient.scope 512
        ((hostOf "Windows" "Interface: 010.9.9.9 --- 0x4\n  192.168.1.1  aa-bb-cc-dd-ee-ff  dynamic").told asciiTables)
        ⟨"Windows".toList, 1, 1, false, [{ router with interface := "010.9.9.9".toList, state := "dynamic".toList }]⟩ := by
  have hquad : quad asciiTables.decimal "010.9.9.9".toList = some 168364297 := by decide +kernel
  have hout : ¬ Inside homeCidrs 168364297 := by
    rintro ⟨raw, network, hraw, hnetwork, hcontains⟩
    obtain rfl := CidrEntry.str.inj (List.mem_singleton.mp hraw)
    have hread : ipNetwork (strip "192.168.0.0/16".toList) = some (.v4 (Network.around 3232235520 16 (by decide) (by decide))) := rfl
    obtain rfl := IpNetwork.v4.inj (Option.some.inj (hread.symm.trans hnetwork))
    exact absurd hcontains (by decide)
  refine ⟨by decide +kernel, rfl, by decide +kernel, hquad, hout, ?_⟩
  intro h
  exact hout (h.interface _ List.mem_cons_self 168364297 hquad)

end CyClaw.Netconnect
