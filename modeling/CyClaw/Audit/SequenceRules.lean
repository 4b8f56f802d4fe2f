/-
What `detect_sequences` finds.

The search through the escalations, from the place that bisection gives on and past those with the
same hash, is the plain rule: the earliest escalation in the window (`earliest_matchEscalation`).
What a finding says of its times is the same for every order of the rows, since the rows of a hash
are sorted and only their times count (`times_filter_sortByTs`).

Three kinds of rows make it raise, and so nothing is found: a time that is in no year once it is in
UTC, an event name that has no hash, and, where no repetition is asked for, a hash that only the
spend rows have.
-/
import CyClaw.Audit.SequenceDetect
import CyClaw.Lib.Fallible
import Mathlib.Data.List.Dedup
import Mathlib.Data.List.ReduceOption

namespace CyClaw.SequenceDetect

open Fallible

/-! ### What is to be found -/

/-- The audit rows that are joined. -/
def auditEvents (env : Env) (auditRows : List PyValue) : List Event :=
  auditRows.filterMap fun raw => (readAudit env raw).toOption.join

def spendEvents (env : Env) (spendRows : List PyValue) : List Event :=
  spendRows.filterMap fun raw => (readSpend env raw).toOption.bind SpendRow.event?

/-- The test holds, and does not raise. -/
def holds (x : Except Raised Bool) : Bool := x.toOption.getD false

def injectionsOf (env : Env) (auditRows : List PyValue) : List Event :=
  (auditEvents env auditRows).filter fun e => holds (isInjection e.row)

/-- Online RAG events of the audit log, and spends of queries. -/
def escalationsOf (env : Env) (auditRows spendRows : List PyValue) : List Escalation :=
  ((auditEvents env auditRows).filter fun e => holds (isOnlineRag env e.row)).map (⟨·, .audit⟩) ++
    (spendEvents env spendRows).map (⟨·, .spend⟩)

/-- The escalation has another hash, and is in `(t, t + window]`. -/
def InWindow (window : ℤ) (inj : Event) (e : Escalation) : Prop :=
  e.event.hash ≠ inj.hash ∧ inj.ts < e.ts ∧ e.ts ≤ inj.ts + window

/-- What is matched is an escalation in the window, and there is none before it. -/
structure Earliest (window : ℤ) (escalations : List Escalation) (inj : Event) (m : Option Escalation) : Prop where
  matched : m.isSome = true ↔ ∃ e ∈ escalations, InWindow window inj e
  earliest : ∀ e, m = some e → e ∈ escalations ∧ InWindow window inj e ∧
    ∀ e' ∈ escalations, InWindow window inj e' → e.ts ≤ e'.ts

/-- **The plain rule**: a finding for each injection that an escalation follows in the window, with the earliest. -/
def WindowRule (env : Env) (window : ℤ) (auditRows spendRows : List PyValue) (findings : List Finding) : Prop :=
  ∃ m : Event → Option Escalation,
    (∀ inj ∈ injectionsOf env auditRows, Earliest window (escalationsOf env auditRows spendRows) inj (m inj)) ∧
      (findings.filter fun f => f.rule = .windowInjectionToEscalation).Perm
        ((injectionsOf env auditRows).filterMap fun inj => (m inj).map (windowFinding env inj))

def Finding.signature (f : Finding) : Rule × Option Text × Option Text × Option Text × ℕ :=
  (f.rule, f.queryHash, f.windowStart, f.windowEnd, f.count)

/-- The rows are searched, by the plain rule, and in any order to the same effect. -/
structure Searched (env : Env) (window minRepeat : ℤ) (auditRows spendRows : List PyValue) : Prop where
  plain : ∃ d, detectSequences env window minRepeat auditRows spendRows = .ok d ∧
    WindowRule env window auditRows spendRows d.findings
  anyOrder : ∀ d auditRows' spendRows', detectSequences env window minRepeat auditRows spendRows = .ok d →
    auditRows.Perm auditRows' → spendRows.Perm spendRows' →
      ∃ d', detectSequences env window minRepeat auditRows' spendRows' = .ok d' ∧
        (d.findings.map Finding.signature).Perm (d'.findings.map Finding.signature)

/-- Neither a list nor a dictionary. -/
def hashable : Option PyValue → Bool
  | some (.list _) => false
  | some (.dict _) => false
  | _ => true

/-- None of the rows makes it raise. -/
structure Readable (env : Env) (minRepeat : ℤ) (auditRows spendRows : List PyValue) : Prop where
  auditTimes : ∀ row, .dict row ∈ auditRows → ∃ ts, parseTs env (PyValue.get row "timestamp") = .ok ts
  spendTimes : ∀ row, .dict row ∈ spendRows → sourceOf env row = some "query".toList →
    ∃ ts, parseTs env (PyValue.get row "timestamp") = .ok ts
  names : ∀ e ∈ auditEvents env auditRows, hashable (PyValue.get e.row "event") = true
  repeats : minRepeat ≤ 0 → ∀ e ∈ spendEvents env spendRows, ∃ a ∈ auditEvents env auditRows, a.hash = e.hash

section Rules

variable {env : Env} {window minRepeat : ℤ} {auditRows spendRows auditRows' spendRows' : List PyValue} {inj : Event}
  {escalations : List Escalation} {l l' froms froms' tos tos' : List Event} {hash : Text} {rule : Rule} {kind : Kind}

/-! ### The window -/

theorem earliest_scanWindow (hsorted : escalations.Pairwise fun a b => a.ts ≤ b.ts) (hafter : ∀ e ∈ escalations, inj.ts < e.ts) :
    Earliest window escalations inj (scanWindow window inj escalations) := by
  induction escalations with
  | nil => exact ⟨by simp [scanWindow], fun e he => by cases he⟩
  | cons e es ih =>
    obtain ⟨hle, hes⟩ := List.pairwise_cons.mp hsorted
    have hrest := ih hes fun e' he' => hafter e' (List.mem_cons_of_mem e he')
    have hlt := hafter e List.mem_cons_self
    rw [scanWindow]
    by_cases hhash : e.event.hash = inj.hash
    · -- An escalation with the same hash is passed, in the window or not.
      rw [if_pos hhash]
      have hnot : ¬ InWindow window inj e := fun h => h.1 hhash
      constructor
      · rw [hrest.matched, List.exists_mem_cons_iff]
        simp [hnot]
      · intro m hm
        obtain ⟨hmem, hin, hmin⟩ := hrest.earliest m hm
        refine ⟨List.mem_cons_of_mem e hmem, hin, fun e' he' hin' => ?_⟩
        rcases List.mem_cons.mp he' with rfl | he'
        · exact absurd hin' hnot
        · exact hmin e' he' hin'
    · rw [if_neg hhash]
      by_cases hwindow : window < e.ts - inj.ts
      · -- And so is every later one outside.
        rw [if_pos hwindow]
        have hnone : ∀ e' ∈ e :: es, ¬ InWindow window inj e' := by
          rintro e' he' ⟨-, -, hin⟩
          have hlater : e.ts ≤ e'.ts := by
            rcases List.mem_cons.mp he' with rfl | he'
            · exact le_rfl
            · exact hle e' he'
          omega
        refine ⟨⟨fun h => (by cases h), ?_⟩, fun m hm => by cases hm⟩
        rintro ⟨e', he', hin⟩
        exact absurd hin (hnone e' he')
      · rw [if_neg hwindow]
        have hin : InWindow window inj e := ⟨hhash, hlt, by omega⟩
        refine ⟨⟨fun _ => ⟨e, List.mem_cons_self, hin⟩, fun _ => rfl⟩, ?_⟩
        rintro m hm
        obtain rfl := Option.some.inj hm
        refine ⟨List.mem_cons_self, hin, fun e' he' _ => ?_⟩
        rcases List.mem_cons.mp he' with rfl | he'
        · exact le_rfl
        · exact hle e' he'

theorem Earliest.of_mem {escalations' : List Escalation} {m : Option Escalation} (h : Earliest window escalations inj m)
    (hmem : ∀ e, InWindow window inj e → (e ∈ escalations ↔ e ∈ escalations')) : Earliest window escalations' inj m := by
  constructor
  · rw [h.matched]
    constructor
    · rintro ⟨e, he, hin⟩
      exact ⟨e, (hmem e hin).mp he, hin⟩
    · rintro ⟨e, he, hin⟩
      exact ⟨e, (hmem e hin).mpr he, hin⟩
  · intro e he
    obtain ⟨hin, hwindow, hmin⟩ := h.earliest e he
    exact ⟨(hmem e hwindow).mp hin, hwindow, fun e' he' hwindow' => hmin e' ((hmem e' hwindow').mpr he') hwindow'⟩

instance : Std.Total fun a b : Escalation => a.ts ≤ b.ts := ⟨fun a b => le_total a.ts b.ts⟩

instance : IsTrans Escalation fun a b => a.ts ≤ b.ts := ⟨fun _ _ _ hab hbc => le_trans hab hbc⟩

/-- **The fast search is the plain rule.** -/
theorem earliest_matchEscalation : Earliest window escalations inj (matchEscalation window (sortEscalations escalations) inj) := by
  have hsorted : (sortEscalations escalations).Pairwise fun a b => a.ts ≤ b.ts := List.pairwise_insertionSort _ _
  have hsplits := Bisect.splits_bisectRight (List.pairwise_map.mpr hsorted) inj.ts
  rw [matchEscalation]
  generalize Bisect.bisectRight ((sortEscalations escalations).map Escalation.ts) inj.ts = i at hsplits ⊢
  have hafter : ∀ e ∈ (sortEscalations escalations).drop i, inj.ts < e.ts := by
    intro e he
    refine hsplits.after e.ts ?_
    rw [← List.map_drop]
    exact List.mem_map_of_mem he
  refine (earliest_scanWindow (hsorted.sublist (List.drop_sublist i _)) hafter).of_mem fun e hin => ?_
  rw [← List.mem_insertionSort (fun a b : Escalation => a.ts ≤ b.ts) (l := escalations)]
  constructor
  · exact fun h => List.mem_of_mem_drop h
  · intro h
    change e ∈ sortEscalations escalations at h
    rw [← List.take_append_drop i (sortEscalations escalations)] at h
    refine (List.mem_append.mp h).resolve_left fun hbefore => ?_
    have hle := hsplits.before e.ts (by rw [← List.map_take]; exact List.mem_map_of_mem hbefore)
    exact absurd hin.2.1 (not_lt.mpr hle)

/-- There may be several that are the earliest, and they have one time. -/
theorem Earliest.ts_eq {m m' : Option Escalation} (h : Earliest window escalations inj m) (h' : Earliest window escalations inj m') :
    m.map Escalation.ts = m'.map Escalation.ts := by
  have hsome : m.isSome = m'.isSome := Bool.eq_iff_iff.mpr (h.matched.trans h'.matched.symm)
  cases m with
  | none =>
    cases m' with
    | none => rfl
    | some e' => cases hsome
  | some e =>
    cases m' with
    | none => cases hsome
    | some e' =>
      obtain ⟨hmem, hin, hmin⟩ := h.earliest e rfl
      obtain ⟨hmem', hin', hmin'⟩ := h'.earliest e' rfl
      exact congrArg some (le_antisymm (hmin e' hmem' hin') (hmin' e hmem hin))

/-! ### The times of the rows -/

def times (l : List Event) : List ℤ := l.map Event.ts

instance : Std.Total fun a b : Event => a.ts ≤ b.ts := ⟨fun a b => le_total a.ts b.ts⟩

instance : IsTrans Event fun a b => a.ts ≤ b.ts := ⟨fun _ _ _ hab hbc => le_trans hab hbc⟩

theorem sortByTs_perm (l : List Event) : (sortByTs l).Perm l := List.perm_insertionSort _ l

theorem times_sorted (p : Event → Bool) (l : List Event) : (times ((sortByTs l).filter p)).Pairwise (· ≤ ·) := by
  refine List.pairwise_map.mpr (List.Pairwise.filter p ?_)
  exact List.pairwise_insertionSort _ _

/-- Sorted, the times do not depend on the order. -/
theorem times_filter_sortByTs (p : Event → Bool) (h : l.Perm l') : times ((sortByTs l).filter p) = times ((sortByTs l').filter p) := by
  have hperm : (sortByTs l).Perm (sortByTs l') := (sortByTs_perm l).trans (h.trans (sortByTs_perm l').symm)
  exact ((hperm.filter p).map Event.ts).eq_of_pairwise' (times_sorted p l) (times_sorted p l')

theorem times_sortByTs (h : l.Perm l') : times (sortByTs l) = times (sortByTs l') := by
  simpa using times_filter_sortByTs (fun _ => true) h

theorem head?_times (l : List Event) : (times l).head? = l.head?.map Event.ts := List.head?_map

theorem head?_later (t : ℤ) (l : List Event) :
    ((times l).filter fun s => t < s).head? = (l.filter fun e => t < e.ts).head?.map Event.ts := by
  rw [times, List.filter_map, List.head?_map]
  rfl

theorem signature_chain (hfroms : times froms = times froms') (htos : times tos = times tos') :
    (chain env rule hash kind froms tos).map Finding.signature = (chain env rule hash kind froms' tos').map Finding.signature := by
  have hfirst : froms.head?.map Event.ts = froms'.head?.map Event.ts := by
    rw [← head?_times, hfroms, head?_times]
  unfold chain
  cases hf : froms.head? with
  | none =>
    rw [hf] at hfirst
    rw [Option.map_eq_none_iff.mp hfirst.symm]
  | some first =>
    rw [hf] at hfirst
    obtain ⟨first', hf', hts⟩ := Option.map_eq_some_iff.mp hfirst.symm
    rw [hf']
    have hlater : (tos.filter fun e => first.ts < e.ts).head?.map Event.ts =
        (tos'.filter fun e => first'.ts < e.ts).head?.map Event.ts := by
      rw [← head?_later, htos, head?_later, hts]
    simp only
    cases hl : (tos.filter fun e => first.ts < e.ts).head? with
    | none =>
      rw [hl] at hlater
      rw [Option.map_eq_none_iff.mp hlater.symm]
    | some later =>
      rw [hl] at hlater
      obtain ⟨later', hl', hts'⟩ := Option.map_eq_some_iff.mp hlater.symm
      rw [hl']
      simp [Finding.signature, finding, hts, hts']

theorem repeatHash_ok {found : List Finding} (h : repeatHash env minRepeat hash l = .ok found) :
    (l.length < minRepeat ∧ found = []) ∨ minRepeat ≤ l.length ∧ ∃ first last, l.head? = some first ∧ l.getLast? = some last ∧
      found = [finding env .repeatHash (some hash) first.ts last.ts (l.map fun e => safeEvent e.row .audit)] := by
  unfold repeatHash at h
  by_cases hmany : minRepeat ≤ l.length
  · rw [if_pos hmany] at h
    cases hhead : l.head? with
    | none => simp [hhead] at h
    | some first =>
      cases hlast : l.getLast? with
      | none => simp [hhead, hlast] at h
      | some last =>
        simp only [hhead, hlast, Except.ok.injEq] at h
        exact Or.inr ⟨hmany, first, last, rfl, rfl, h.symm⟩
  · rw [if_neg hmany] at h
    exact Or.inl ⟨not_le.mp hmany, (Except.ok.inj h).symm⟩

theorem signature_repeatHash {found found' : List Finding} (h : times l = times l')
    (hfound : repeatHash env minRepeat hash l = .ok found) (hfound' : repeatHash env minRepeat hash l' = .ok found') :
    found.map Finding.signature = found'.map Finding.signature := by
  have hlength : l.length = l'.length := by simpa [times] using congrArg List.length h
  have hhead : l.head?.map Event.ts = l'.head?.map Event.ts := by rw [← head?_times, h, head?_times]
  have hlast : l.getLast?.map Event.ts = l'.getLast?.map Event.ts := by
    rw [← List.getLast?_map, ← List.getLast?_map]
    exact congrArg List.getLast? h
  rcases repeatHash_ok hfound with ⟨hless, rfl⟩ | ⟨hmany, first, last, hfirst, hend, rfl⟩
  · rcases repeatHash_ok hfound' with ⟨-, rfl⟩ | ⟨hmany, -⟩
    · rfl
    · omega
  · rcases repeatHash_ok hfound' with ⟨hless, -⟩ | ⟨-, first', last', hfirst', hend', rfl⟩
    · omega
    · rw [hfirst, hfirst', Option.map_some, Option.map_some, Option.some.injEq] at hhead
      rw [hend, hend', Option.map_some, Option.map_some, Option.some.injEq] at hlast
      simp [Finding.signature, finding, hhead, hlast, hlength]

/-- It fails for no row, where none are asked for. -/
theorem repeatHash_returns : (∃ found, repeatHash env minRepeat hash l = .ok found) ↔ (minRepeat ≤ 0 → l ≠ []) := by
  constructor
  · rintro ⟨found, hfound⟩ hnone rfl
    rcases repeatHash_ok hfound with ⟨hless, -⟩ | ⟨-, first, last, hfirst, -⟩
    · simp only [List.length_nil] at hless
      omega
    · cases hfirst
  · intro h
    unfold repeatHash
    by_cases hmany : minRepeat ≤ l.length
    · cases l with
      | nil =>
        refine absurd rfl (h ?_)
        simpa using hmany
      | cons e es =>
        rw [if_pos hmany, List.head?_cons, List.getLast?_cons]
        exact ⟨_, rfl⟩
    · exact ⟨[], by rw [if_neg hmany]⟩

/-! ### Where nothing is raised -/

theorem inNames_returns {names : List String} {x : Option PyValue} : (∃ b, inNames names x = .ok b) ↔ hashable x = true := by
  rcases x with _ | x
  · exact ⟨fun _ => rfl, fun _ => ⟨_, rfl⟩⟩
  · cases x with
    | list => exact ⟨fun ⟨_, h⟩ => (by cases h), fun h => (by cases h)⟩
    | dict => exact ⟨fun ⟨_, h⟩ => (by cases h), fun h => (by cases h)⟩
    | _ => exact ⟨fun _ => rfl, fun _ => ⟨_, rfl⟩⟩

theorem isInjection_returns {row : Row} : (∃ b, isInjection row = .ok b) ↔ hashable (PyValue.get row "event") = true :=
  inNames_returns

theorem isOnlineRag_returns {row : Row} : (∃ b, isOnlineRag env row = .ok b) ↔ hashable (PyValue.get row "event") = true := by
  have hnames : (∃ b, inNames ragEvents (PyValue.get row "event") = .ok b) ↔ hashable (PyValue.get row "event") = true :=
    inNames_returns
  rw [← hnames]
  unfold isOnlineRag
  cases inNames ragEvents (PyValue.get row "event") with
  | error e => exact ⟨fun ⟨_, h⟩ => (by cases h), fun ⟨_, h⟩ => (by cases h)⟩
  | ok b => exact ⟨fun _ => ⟨b, rfl⟩, fun _ => ⟨_, rfl⟩⟩

theorem filterRows_ok {p : Row → Except Raised Bool} {es : List Event} (h : filterRows p es = .ok l) :
    l = (es.filter fun e => holds (p e.row)) ∧ ∀ e ∈ es, ∃ b, p e.row = .ok b := by
  induction es generalizing l with
  | nil =>
    obtain rfl := Except.ok.inj h
    exact ⟨rfl, fun e he => by cases he⟩
  | cons e es ih =>
    obtain ⟨b, hb, h⟩ := bind_eq_ok.mp h
    obtain ⟨rest, hrest, h⟩ := bind_eq_ok.mp h
    obtain ⟨rfl, hall⟩ := ih hrest
    refine ⟨?_, ?_⟩
    · rw [← Except.ok.inj h, List.filter_cons, hb]
      rfl
    · intro e' he'
      rcases List.mem_cons.mp he' with rfl | he'
      · exact ⟨b, hb⟩
      · exact hall e' he'

theorem filterRows_returns {p : Row → Except Raised Bool} {es : List Event} (h : ∀ e ∈ es, ∃ b, p e.row = .ok b) :
    filterRows p es = .ok (es.filter fun e => holds (p e.row)) := by
  induction es with
  | nil => rfl
  | cons e es ih =>
    obtain ⟨b, hb⟩ := h e List.mem_cons_self
    rw [filterRows, hb, ih fun e' he' => h e' (List.mem_cons_of_mem e he'), List.filter_cons, hb]
    rfl

theorem hashFindings_ok {aRows sRows : List Event} {found : List Finding} (h : hashFindings env minRepeat hash aRows sRows = .ok found) :
    (∀ e ∈ aRows, hashable (PyValue.get e.row "event") = true) ∧ ∃ repeated, repeatHash env minRepeat hash aRows = .ok repeated ∧
      found = repeated ++
        chain env .injectionThenOnlineRag hash .audit (aRows.filter fun e => holds (isInjection e.row))
          (aRows.filter fun e => holds (isOnlineRag env e.row)) ++
        chain env .injectionThenExternalSpend hash .spend (aRows.filter fun e => holds (isInjection e.row)) sRows ++
        chain env .hookDeniedThenSpend hash .spend (aRows.filter fun e => isHookDenied e.row) sRows := by
  obtain ⟨repeated, hrepeated, h⟩ := bind_eq_ok.mp h
  obtain ⟨injections, hinjections, h⟩ := bind_eq_ok.mp h
  obtain ⟨online, honline, h⟩ := bind_eq_ok.mp h
  obtain ⟨rfl, hnames⟩ := filterRows_ok hinjections
  obtain ⟨rfl, -⟩ := filterRows_ok honline
  exact ⟨fun e he => isInjection_returns.mp (hnames e he), repeated, hrepeated, (Except.ok.inj h).symm⟩

theorem hashFindings_returns {aRows sRows : List Event} : (∃ found, hashFindings env minRepeat hash aRows sRows = .ok found) ↔
    (minRepeat ≤ 0 → aRows ≠ []) ∧ ∀ e ∈ aRows, hashable (PyValue.get e.row "event") = true := by
  constructor
  · rintro ⟨found, hfound⟩
    obtain ⟨hnames, repeated, hrepeated, -⟩ := hashFindings_ok hfound
    exact ⟨repeatHash_returns.mp ⟨repeated, hrepeated⟩, hnames⟩
  · rintro ⟨hrows, hnames⟩
    obtain ⟨repeated, hrepeated⟩ : ∃ repeated, repeatHash env minRepeat hash aRows = .ok repeated := repeatHash_returns.mpr hrows
    rw [hashFindings, hrepeated, filterRows_returns fun e he => isInjection_returns.mpr (hnames e he),
      filterRows_returns fun e he => isOnlineRag_returns.mpr (hnames e he)]
    exact ⟨_, rfl⟩

theorem rule_chain {f : Finding} (h : f ∈ chain env rule hash kind froms tos) : f.rule = rule := by
  unfold chain at h
  split at h
  · cases h
  split at h
  · cases h
  · rw [List.mem_singleton.mp h]
    rfl

/-- The findings about a hash are not about the window. -/
theorem rule_hashFindings {aRows sRows : List Event} {found : List Finding} {f : Finding}
    (h : hashFindings env minRepeat hash aRows sRows = .ok found) (hf : f ∈ found) : f.rule ≠ .windowInjectionToEscalation := by
  obtain ⟨-, repeated, hrepeated, rfl⟩ := hashFindings_ok h
  simp only [List.mem_append] at hf
  rcases hf with ((hf | hf) | hf) | hf
  · rcases repeatHash_ok hrepeated with ⟨-, rfl⟩ | ⟨-, first, last, -, -, rfl⟩
    · cases hf
    · rw [List.mem_singleton.mp hf]
      exact Rule.noConfusion
  · rw [rule_chain hf]
    exact Rule.noConfusion
  · rw [rule_chain hf]
    exact Rule.noConfusion
  · rw [rule_chain hf]
    exact Rule.noConfusion

/-- What is found about a hash, as far as times go, does not depend on the order of the rows. -/
theorem signature_hashFindings {found found' : List Finding} (hfroms : froms.Perm froms') (htos : tos.Perm tos')
    (h : hashFindings env minRepeat hash (ofHash hash froms) (ofHash hash tos) = .ok found)
    (h' : hashFindings env minRepeat hash (ofHash hash froms') (ofHash hash tos') = .ok found') :
    found.map Finding.signature = found'.map Finding.signature := by
  obtain ⟨-, repeated, hrepeated, rfl⟩ := hashFindings_ok h
  obtain ⟨-, repeated', hrepeated', rfl⟩ := hashFindings_ok h'
  have hrows : ∀ p, times ((ofHash hash froms).filter p) = times ((ofHash hash froms').filter p) :=
    fun p => times_filter_sortByTs p (hfroms.filter _)
  have hspends : times (ofHash hash tos) = times (ofHash hash tos') := times_sortByTs (htos.filter _)
  simp only [List.map_append]
  rw [signature_repeatHash (times_sortByTs (hfroms.filter _)) hrepeated hrepeated', signature_chain (hrows _) (hrows _),
    signature_chain (hrows _) hspends, signature_chain (hrows _) hspends]

/-! ### All findings -/

/-- How many spends of queries have no hash. -/
def unjoinableOf (env : Env) (spendRows : List PyValue) : ℕ :=
  spendRows.countP fun raw => (readSpend env raw).toOption.any SpendRow.isUnjoinable

/-- The findings of the rules of a hash. -/
def byHash (env : Env) (minRepeat : ℤ) (auditRows spendRows : List PyValue) : List Finding :=
  (hashesOf (auditEvents env auditRows) (spendEvents env spendRows)).flatMap fun hash =>
    (hashFindings env minRepeat hash (ofHash hash (auditEvents env auditRows)) (ofHash hash (spendEvents env spendRows))).toOption.getD []

def windows (env : Env) (window : ℤ) (auditRows spendRows : List PyValue) : List Finding :=
  (injectionsOf env auditRows).filterMap fun inj =>
    (matchEscalation window (sortEscalations (escalationsOf env auditRows spendRows)) inj).map (windowFinding env inj)

theorem reduceOption_readAudit {events : List (Option Event)} (h : auditRows.mapM (readAudit env) = .ok events) :
    events.reduceOption = auditEvents env auditRows := by
  rw [List.reduceOption, filterMap_mapM h]
  refine List.filterMap_congr fun raw _ => ?_
  cases readAudit env raw with
  | error => rfl
  | ok e => rfl

theorem detectSequences_ok {d : Detection} (h : detectSequences env window minRepeat auditRows spendRows = .ok d) :
    (∀ raw ∈ auditRows, ∃ e, readAudit env raw = .ok e) ∧ (∀ raw ∈ spendRows, ∃ r, readSpend env raw = .ok r) ∧
      (∀ hash ∈ hashesOf (auditEvents env auditRows) (spendEvents env spendRows), ∃ found,
        hashFindings env minRepeat hash (ofHash hash (auditEvents env auditRows)) (ofHash hash (spendEvents env spendRows)) = .ok found) ∧
      d.findings.Perm (byHash env minRepeat auditRows spendRows ++ windows env window auditRows spendRows ++
        unjoinableFinding (unjoinableOf env spendRows)) := by
  obtain ⟨events, hevents, h⟩ := bind_eq_ok.mp h
  obtain ⟨rows, hrows, h⟩ := bind_eq_ok.mp h
  have hspend : rows.filterMap SpendRow.event? = spendEvents env spendRows := filterMap_mapM hrows _
  have hcount : rows.countP SpendRow.isUnjoinable = unjoinableOf env spendRows := countP_mapM hrows _
  simp only [reduceOption_readAudit hevents, hspend, hcount] at h
  obtain ⟨found, hfound, h⟩ := bind_eq_ok.mp h
  obtain ⟨injections, hinjections, h⟩ := bind_eq_ok.mp h
  obtain ⟨online, honline, h⟩ := bind_eq_ok.mp h
  obtain ⟨rfl, -⟩ := filterRows_ok hinjections
  obtain ⟨rfl, -⟩ := filterRows_ok honline
  refine ⟨fun raw hraw => ok_of_mapM hevents hraw, fun raw hraw => ok_of_mapM hrows hraw,
    fun hash hhash => ?_, ?_⟩
  · obtain ⟨l, hl⟩ := ok_of_mapM hfound hhash
    exact ⟨l, hl⟩
  rw [← Except.ok.inj h, flatten_mapM hfound]
  exact List.perm_insertionSort _ _

theorem mem_hashesOf {audit spend : List Event} : hash ∈ hashesOf audit spend ↔ ∃ e, (e ∈ audit ∨ e ∈ spend) ∧ e.hash = hash := by
  rw [hashesOf, List.mem_insertionSort, List.mem_dedup, List.mem_map]
  simp only [List.mem_append]

theorem mem_ofHash {e : Event} : e ∈ ofHash hash l ↔ e ∈ l ∧ e.hash = hash := by
  rw [ofHash, (sortByTs_perm _).mem_iff, List.mem_filter, decide_eq_true_eq]

theorem readAudit_returns : (∀ raw ∈ auditRows, ∃ e, readAudit env raw = .ok e) ↔
    ∀ row, .dict row ∈ auditRows → ∃ ts, parseTs env (PyValue.get row "timestamp") = .ok ts := by
  constructor
  · intro h row hrow
    obtain ⟨e, he⟩ := h _ hrow
    obtain ⟨ts, hts, -⟩ := map_eq_ok.mp he
    exact ⟨ts, hts⟩
  · intro h raw hraw
    cases raw with
    | dict row =>
      obtain ⟨ts, hts⟩ := h row hraw
      exact ⟨_, map_eq_ok.mpr ⟨ts, hts, rfl⟩⟩
    | _ => exact ⟨none, rfl⟩

theorem readSpend_returns : (∀ raw ∈ spendRows, ∃ r, readSpend env raw = .ok r) ↔
    ∀ row, .dict row ∈ spendRows → sourceOf env row = some "query".toList →
      ∃ ts, parseTs env (PyValue.get row "timestamp") = .ok ts := by
  constructor
  · intro h row hrow hsource
    obtain ⟨r, hr⟩ := h _ hrow
    have hagentic : sourceOf env row ≠ some "agentic".toList := by
      rw [hsource]
      decide
    rw [readSpend, if_neg hagentic, if_neg (not_not.mpr hsource)] at hr
    obtain ⟨ts, hts, -⟩ := map_eq_ok.mp hr
    exact ⟨ts, hts⟩
  · intro h raw hraw
    cases raw with
    | dict row =>
      rw [readSpend]
      split
      · exact ⟨_, rfl⟩
      split
      · exact ⟨_, rfl⟩
      · rename_i hsource
        obtain ⟨ts, hts⟩ := h row hraw (not_not.mp hsource)
        exact ⟨_, map_eq_ok.mpr ⟨ts, hts, rfl⟩⟩
    | _ => exact ⟨.skipped, rfl⟩

theorem readable_of_ok {d : Detection} (h : detectSequences env window minRepeat auditRows spendRows = .ok d) :
    Readable env minRepeat auditRows spendRows := by
  obtain ⟨haudit, hspend, hhashes, -⟩ := detectSequences_ok h
  refine ⟨readAudit_returns.mp haudit, readSpend_returns.mp hspend, fun e he => ?_, fun hnone e he => ?_⟩
  · have hhash : e.hash ∈ hashesOf (auditEvents env auditRows) (spendEvents env spendRows) :=
      mem_hashesOf.mpr ⟨e, Or.inl he, rfl⟩
    exact (hashFindings_returns.mp (hhashes e.hash hhash)).2 e (mem_ofHash.mpr ⟨he, rfl⟩)
  · have hhash : e.hash ∈ hashesOf (auditEvents env auditRows) (spendEvents env spendRows) :=
      mem_hashesOf.mpr ⟨e, Or.inr he, rfl⟩
    obtain ⟨a, ha⟩ := List.exists_mem_of_ne_nil _ ((hashFindings_returns.mp (hhashes e.hash hhash)).1 hnone)
    obtain ⟨hmem, heq⟩ := mem_ofHash.mp ha
    exact ⟨a, hmem, heq⟩

theorem ok_of_readable (h : Readable env minRepeat auditRows spendRows) :
    ∃ d, detectSequences env window minRepeat auditRows spendRows = .ok d := by
  obtain ⟨events, hevents⟩ := mapM_ok (readAudit_returns.mpr h.auditTimes)
  obtain ⟨rows, hrows⟩ := mapM_ok (readSpend_returns.mpr h.spendTimes)
  have hspend : rows.filterMap SpendRow.event? = spendEvents env spendRows := filterMap_mapM hrows _
  have hhashes : ∀ hash ∈ hashesOf (auditEvents env auditRows) (spendEvents env spendRows), ∃ found,
      hashFindings env minRepeat hash (ofHash hash (auditEvents env auditRows)) (ofHash hash (spendEvents env spendRows)) =
        .ok found := by
    intro hash hhash
    refine hashFindings_returns.mpr ⟨fun hnone => ?_, fun e he => h.names e (mem_ofHash.mp he).1⟩
    obtain ⟨e, he, rfl⟩ := mem_hashesOf.mp hhash
    obtain ⟨a, ha, heq⟩ : ∃ a ∈ auditEvents env auditRows, a.hash = e.hash := by
      rcases he with he | he
      · exact ⟨e, he, rfl⟩
      · exact h.repeats hnone e he
    exact List.ne_nil_of_mem (mem_ofHash.mpr ⟨ha, heq⟩)
  obtain ⟨found, hfound⟩ := mapM_ok hhashes
  have hinjections := filterRows_returns fun e he => isInjection_returns.mpr (h.names e he)
  have honline := filterRows_returns fun e he =>
    show ∃ b, isOnlineRag env e.row = .ok b from isOnlineRag_returns.mpr (h.names e he)
  unfold detectSequences
  simp only [hevents, hrows, reduceOption_readAudit hevents, hspend, bind, Except.bind, hfound, hinjections, honline]
  exact ⟨_, rfl⟩

theorem rule_windows {f : Finding} (h : f ∈ windows env window auditRows spendRows) : f.rule = .windowInjectionToEscalation := by
  obtain ⟨inj, -, h⟩ := List.mem_filterMap.mp h
  obtain ⟨e, -, rfl⟩ := Option.map_eq_some_iff.mp h
  rfl

theorem rule_byHash {f : Finding} (h : f ∈ byHash env minRepeat auditRows spendRows) : f.rule ≠ .windowInjectionToEscalation := by
  obtain ⟨hash, -, hf⟩ := List.mem_flatMap.mp h
  cases hfound : hashFindings env minRepeat hash (ofHash hash (auditEvents env auditRows)) (ofHash hash (spendEvents env spendRows)) with
  | error e =>
    rw [hfound] at hf
    cases hf
  | ok found =>
    rw [hfound] at hf
    exact rule_hashFindings hfound hf

theorem rule_unjoinableFinding {f : Finding} {n : ℕ} (h : f ∈ unjoinableFinding n) : f.rule ≠ .windowInjectionToEscalation := by
  unfold unjoinableFinding at h
  split at h
  · cases h
  · rw [List.mem_singleton.mp h]
    exact Rule.noConfusion

theorem windowRule {d : Detection} (h : detectSequences env window minRepeat auditRows spendRows = .ok d) :
    WindowRule env window auditRows spendRows d.findings := by
  obtain ⟨-, -, -, hperm⟩ := detectSequences_ok h
  refine ⟨matchEscalation window (sortEscalations (escalationsOf env auditRows spendRows)),
    fun inj _ => earliest_matchEscalation, (hperm.filter _).trans (List.Perm.of_eq ?_)⟩
  have hhash : (byHash env minRepeat auditRows spendRows).filter (fun f => f.rule = .windowInjectionToEscalation) = [] :=
    List.filter_eq_nil_iff.mpr fun f hf => by simpa using rule_byHash hf
  have hcount : (unjoinableFinding (unjoinableOf env spendRows)).filter (fun f => f.rule = .windowInjectionToEscalation) = [] :=
    List.filter_eq_nil_iff.mpr fun f hf => by simpa using rule_unjoinableFinding hf
  have hwindows : (windows env window auditRows spendRows).filter (fun f => f.rule = .windowInjectionToEscalation) =
      windows env window auditRows spendRows := List.filter_eq_self.mpr fun f hf => by simpa using rule_windows hf
  rw [List.filter_append, List.filter_append, hhash, hcount, hwindows, List.nil_append, List.append_nil]
  rfl

/-! ### In another order -/

theorem Readable.perm (h : Readable env minRepeat auditRows spendRows) (haudit : auditRows.Perm auditRows')
    (hspend : spendRows.Perm spendRows') : Readable env minRepeat auditRows' spendRows' where
  auditTimes row hrow := h.auditTimes row (haudit.mem_iff.mpr hrow)
  spendTimes row hrow := h.spendTimes row (hspend.mem_iff.mpr hrow)
  names e he := h.names e ((haudit.filterMap _).mem_iff.mpr he)
  repeats hnone e he := by
    obtain ⟨a, ha, heq⟩ := h.repeats hnone e ((hspend.filterMap _).mem_iff.mpr he)
    exact ⟨a, (haudit.filterMap _).mem_iff.mp ha, heq⟩

theorem signature_windowFinding (m : Option Escalation) : (m.map (windowFinding env inj)).map Finding.signature =
    (m.map Escalation.ts).map fun ts =>
      (.windowInjectionToEscalation, none, some (env.isoformat inj.ts), some (env.isoformat ts), 2) := by
  cases m with
  | none => rfl
  | some e => rfl

theorem signature_windows (haudit : auditRows.Perm auditRows') (hspend : spendRows.Perm spendRows') :
    ((windows env window auditRows spendRows).map Finding.signature).Perm
      ((windows env window auditRows' spendRows').map Finding.signature) := by
  have hescalations : (escalationsOf env auditRows spendRows).Perm (escalationsOf env auditRows' spendRows') :=
    (((haudit.filterMap _).filter _).map _).append ((hspend.filterMap _).map _)
  have hsame : ∀ inj, ((matchEscalation window (sortEscalations (escalationsOf env auditRows spendRows)) inj).map
      (windowFinding env inj)).map Finding.signature =
        ((matchEscalation window (sortEscalations (escalationsOf env auditRows' spendRows')) inj).map
          (windowFinding env inj)).map Finding.signature := by
    intro inj
    rw [signature_windowFinding, signature_windowFinding]
    exact congrArg _ (earliest_matchEscalation.ts_eq (earliest_matchEscalation.of_mem fun e _ => hescalations.mem_iff.symm))
  rw [windows, windows, List.map_filterMap, List.map_filterMap, List.filterMap_congr fun inj _ => hsame inj]
  exact ((haudit.filterMap _).filter _).filterMap _

theorem hashesOf_perm (hfroms : froms.Perm froms') (htos : tos.Perm tos') : (hashesOf froms tos).Perm (hashesOf froms' tos') := by
  have hnodup : ∀ l l', (hashesOf l l').Nodup := fun l l' => (List.perm_insertionSort _ _).nodup_iff.mpr (List.nodup_dedup _)
  refine (List.perm_ext_iff_of_nodup (hnodup _ _) (hnodup _ _)).mpr fun hash => ?_
  simp only [mem_hashesOf, hfroms.mem_iff, htos.mem_iff]

theorem signature_byHash (h : Readable env minRepeat auditRows spendRows) (haudit : auditRows.Perm auditRows')
    (hspend : spendRows.Perm spendRows') : ((byHash env minRepeat auditRows spendRows).map Finding.signature).Perm
      ((byHash env minRepeat auditRows' spendRows').map Finding.signature) := by
  have hevents : (auditEvents env auditRows).Perm (auditEvents env auditRows') := haudit.filterMap _
  have hspends : (spendEvents env spendRows).Perm (spendEvents env spendRows') := hspend.filterMap _
  obtain ⟨d, hd⟩ : ∃ d, detectSequences env 0 minRepeat auditRows spendRows = .ok d := ok_of_readable h
  obtain ⟨d', hd'⟩ : ∃ d', detectSequences env 0 minRepeat auditRows' spendRows' = .ok d' :=
    ok_of_readable (h.perm haudit hspend)
  obtain ⟨-, -, hfound, -⟩ := detectSequences_ok hd
  obtain ⟨-, -, hfound', -⟩ := detectSequences_ok hd'
  rw [byHash, byHash, List.map_flatMap, List.map_flatMap]
  refine ((hashesOf_perm hevents hspends).flatMap_right _).trans (List.Perm.of_eq (List.flatMap_congr fun hash hhash => ?_))
  obtain ⟨found, hf⟩ := hfound hash ((hashesOf_perm hevents hspends).mem_iff.mpr hhash)
  obtain ⟨found', hf'⟩ := hfound' hash hhash
  rw [hf, hf']
  exact signature_hashFindings hevents hspends hf hf'

theorem signature_detectSequences {d d' : Detection} (hd : detectSequences env window minRepeat auditRows spendRows = .ok d)
    (hd' : detectSequences env window minRepeat auditRows' spendRows' = .ok d') (haudit : auditRows.Perm auditRows')
    (hspend : spendRows.Perm spendRows') : (d.findings.map Finding.signature).Perm (d'.findings.map Finding.signature) := by
  obtain ⟨-, -, -, hperm⟩ := detectSequences_ok hd
  obtain ⟨-, -, -, hperm'⟩ := detectSequences_ok hd'
  have hcount : unjoinableOf env spendRows = unjoinableOf env spendRows' := hspend.countP_eq _
  refine (hperm.map _).trans (List.Perm.trans ?_ (hperm'.map _).symm)
  rw [List.map_append, List.map_append, List.map_append, List.map_append, hcount]
  exact ((signature_byHash (readable_of_ok hd) haudit hspend).append (signature_windows haudit hspend)).append (List.Perm.refl _)

end Rules

/-- **The search is the plain rule, and the order of the rows does not matter**, exactly where no row makes it raise. -/
theorem searched_iff_readable (env : Env) (window minRepeat : ℤ) (auditRows spendRows : List PyValue) :
    Searched env window minRepeat auditRows spendRows ↔ Readable env minRepeat auditRows spendRows := by
  constructor
  · intro h
    obtain ⟨d, hd, -⟩ := h.plain
    exact readable_of_ok hd
  · intro h
    constructor
    · obtain ⟨d, hd⟩ := ok_of_readable h
      exact ⟨d, hd, windowRule hd⟩
    · intro d auditRows' spendRows' hd haudit hspend
      obtain ⟨d', hd'⟩ := ok_of_readable (h.perm haudit hspend)
      exact ⟨d', hd', signature_detectSequences hd hd' haudit hspend⟩

/-- A clock that reads one time, five hours ahead of UTC on the first day there is. -/
def earlyEnv : Env where
  lower := id
  fromisoformat t := if t = "0001-01-01T00:00:00+05:00".toList then some ⟨0, some (5 * 3600 * 1000000)⟩ else none
  isoformat _ := []

/-- A row with that time raises, with nothing else in the logs. -/
theorem early_time_raises :
    detectSequences earlyEnv (15 * 60 * 1000000) 3
        [.dict [("timestamp".toList, .str "0001-01-01T00:00:00+05:00".toList)]] [] = .error .overflowError ∧
      ¬ Searched earlyEnv (15 * 60 * 1000000) 3
        [.dict [("timestamp".toList, .str "0001-01-01T00:00:00+05:00".toList)]] [] := by
  have hraises : detectSequences earlyEnv (15 * 60 * 1000000) 3
      [.dict [("timestamp".toList, .str "0001-01-01T00:00:00+05:00".toList)]] [] = .error .overflowError := by
    rfl
  refine ⟨hraises, fun h => ?_⟩
  obtain ⟨d, hd, -⟩ := h.plain
  rw [hraises] at hd
  cases hd

end CyClaw.SequenceDetect
