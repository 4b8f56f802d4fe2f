/-
What stands inside a string literal has no part in the guard's verdict.

The pass of `_strip_quoted` comes out of a literal where it is closed, whatever is in it,
and leaves a blank behind.  So two statements that differ in one literal are blanked to the
same two copies, and every check of `assert_read_only_sql` reads one of those, or the start
of the statement.  A literal that follows another one directly is read as a part of it.
-/
import Mathlib
import CyClaw.Sql.Lockstep

namespace CyClaw.Sql

open PyText Regex SqlLex

variable {uw : Char → Bool} {driver : Driver} {keep : Bool}

/-- A text as an SQL string literal. -/
def quote (s : List Char) : List Char := '\'' :: (double '\'' s ++ ['\''])

/-- `assert_read_only_sql` returns. -/
def accepts (uw : Char → Bool) (driver : Driver) (sql : List Char) : Prop :=
  ∃ c, assertReadOnlySql uw driver sql = .ok c

theorem quote_append (s q : List Char) : quote s ++ q = '\'' :: (double '\'' s ++ '\'' :: q) := by
  simp [quote]

/-! ### Regions that end stay as they are -/

/-- A region is its text with the closer doubled, and the closer once. -/
theorem quotedBody_iff {q : Char} {t n r : List Char} :
    quotedBody q t = some (n, r) ↔ t = double q n ++ q :: r ∧ r.head? ≠ some q := by
  constructor
  · intro h
    fun_induction quotedBody q t generalizing n r with
    | case1 => simp at h
    | case2 => simp_all [double]
    | case3 => simp at h
    | case4 t ih =>
        simp only [Option.map_eq_some_iff, Prod.exists, Prod.mk.injEq] at h
        obtain ⟨n', r', hb, rfl, rfl⟩ := h
        obtain ⟨ht, hr⟩ := ih hb
        exact ⟨by simp [double, ht], hr⟩
    | case5 d t hd =>
        simp only [Option.some.injEq, Prod.mk.injEq] at h
        obtain ⟨rfl, rfl⟩ := h
        exact ⟨rfl, by simpa using hd⟩
    | case6 c d t hc ih =>
        simp only [Option.map_eq_some_iff, Prod.exists, Prod.mk.injEq] at h
        obtain ⟨n', r', hb, rfl, rfl⟩ := h
        obtain ⟨ht, hr⟩ := ih hb
        exact ⟨by simp [double, hc, ht], hr⟩
  · rintro ⟨rfl, hr⟩
    induction n with
    | nil =>
        cases r with
        | nil => simp [double, quotedBody]
        | cons d r =>
            have hd : d ≠ q := by simpa using hr
            simp [double, quotedBody, hd]
    | cons c n ih =>
        rw [double]
        split
        · rename_i hc
          simp [quotedBody, hc, ih]
        · rename_i hc
          rw [List.cons_append]
          cases hn : double q n ++ q :: r with
          | nil => simp at hn
          | cons d t =>
              rw [hn] at ih
              simp [quotedBody, hc, ih]

theorem splitAt?_append {m t b r : List Char} (h : splitAt? m t = some (b, r)) (u : List Char) :
    splitAt? m (t ++ u) = some (b, r ++ u) := by
  induction t generalizing b r with
  | nil =>
      rw [splitAt?] at h
      split at h
      · rename_i hm
        simp only [Option.some.injEq, Prod.mk.injEq] at h
        obtain ⟨rfl, rfl⟩ := h
        rw [List.isEmpty_iff] at hm
        subst hm
        cases u <;> simp [splitAt?]
      · simp at h
  | cons c t ih =>
      rw [splitAt?] at h
      rw [List.cons_append, splitAt?]
      split at h
      · rename_i hm
        obtain ⟨z, hz⟩ := List.isPrefixOf_iff_prefix.mp hm
        simp only [Option.some.injEq, Prod.mk.injEq] at h
        obtain ⟨rfl, rfl⟩ := h
        rw [← List.cons_append, ← hz]
        simp
      · rename_i hm
        simp only [Option.map_eq_some_iff, Prod.exists, Prod.mk.injEq] at h
        obtain ⟨b', r', hb, rfl, rfl⟩ := h
        have hm' : ¬ m.isPrefixOf (c :: (t ++ u)) = true := by
          -- The mark lies in `t`, so it is no longer than what it would have to begin.
          have hlen : m.length ≤ (c :: t).length := by
            rw [splitAt?_eq hb]
            simp only [List.length_cons, List.length_append]
            omega
          intro hpre
          rw [List.isPrefixOf_iff_prefix, ← List.cons_append] at hpre
          exact hm (List.isPrefixOf_iff_prefix.mpr
            (List.prefix_of_prefix_length_le hpre (List.prefix_append _ _) hlen))
        rw [if_neg hm', ih hb]
        rfl

theorem dollarTagRe_past {t tag r : List Char} (h : dollarTagRe t = some (tag, r)) (u : List Char) :
    dollarTagRe (t ++ u) = some (tag, r ++ u) := by
  rw [dollarTagRe_eq] at h ⊢
  obtain ⟨rfl, hstart, hall⟩ := tagBy_some h
  rw [List.append_assoc, List.cons_append]
  exact tagBy_append rfl rfl hstart hall (r ++ u)

theorem skipDollarQuote_append {t r : List Char} (h : skipDollarQuote t = .ok (some r))
    (u : List Char) : skipDollarQuote (t ++ u) = .ok (some (r ++ u)) := by
  rw [skipDollarQuote] at h
  split at h
  · simp at h
  · rename_i tag rest ht
    split at h
    · simp at h
    · rename_i b after hb
      simp only [Except.ok.injEq, Option.some.injEq] at h
      subst h
      simp only [skipDollarQuote, dollarTagRe_past ht, splitAt?_append hb]

theorem dollarTagRe_of_skip {t : List Char} (h : skipDollarQuote t = .ok none) :
    dollarTagRe t = none := by
  rw [skipDollarQuote] at h
  split at h
  · rename_i ht
    exact ht
  · split at h <;> simp at h

/-! ### The pass over a text with a literal in it -/

theorem stripFrom_opener {out : List (List Char)} {c q : Char} {t n r : List Char}
    (hq : simpleQuotesFor driver c = some q) (hb : quotedBody q t = some (n, r)) :
    stripFrom driver keep out (c :: t) =
      if c = '\'' ∧ isEscapeStringPrefix out then .error .escapeString
      else if isUnicodeEscapePrefix out then .error .unicodeEscape
      else stripFrom driver keep (blanked keep c (double q n) :: out) r := by
  have hlen := length_quotedBody hb
  have hskip : skipSimpleQuote q t = some (double q n, r) := by
    rw [skipSimpleQuote_eq, hb]
    rfl
  rw [stripFrom, List.length_cons, stripLoop, hq]
  simp only [hskip]
  rw [stripFrom, stripLoop_fuel (Nat.le_refl _) hlen]

theorem stripFrom_skip_ok {out out' : List (List Char)} {t : List Char} (hdr : driver ≠ .mssql)
    (h : stripFrom driver keep out ('$' :: t) = .ok out') : ∃ r, skipDollarQuote t = .ok r := by
  have hnone : simpleQuotesFor driver '$' = none := by cases driver <;> rfl
  rw [stripFrom, List.length_cons, stripLoop, hnone] at h
  simp only [hdr, ne_eq, not_false_eq_true, and_self, if_true] at h
  split at h
  · simp at h
  · exact ⟨_, by assumption⟩
  · exact ⟨_, by assumption⟩

/-- Past a literal, whatever is in it. -/
theorem stripFrom_literal {q : List Char} (hq : q.head? ≠ some '\'') (s : List Char)
    (out : List (List Char)) :
    stripFrom driver keep out ('\'' :: (double '\'' s ++ '\'' :: q)) =
      if isEscapeStringPrefix out then .error .escapeString
      else if isUnicodeEscapePrefix out then .error .unicodeEscape
      else stripFrom driver keep ([' '] :: out) q := by
  have hopen : simpleQuotesFor driver '\'' = some '\'' := rfl
  rw [stripFrom_opener hopen (quotedBody_iff.mpr ⟨rfl, hq⟩)]
  simp [blanked]

theorem quote_of_closer {c : Char} (h : simpleQuotesFor driver c = some '\'') : c = '\'' := by
  rw [simpleQuotesFor] at h
  split at h
  · assumption
  · split at h
    · simp at h
    · split at h <;> simp at h

/-- **The pass forgets a literal.**  `h` is some pass over what stands before it. -/
theorem stripFrom_literal_congr {q : List Char} (hq : q.head? ≠ some '\'') (s s' : List Char)
    {keep' : Bool} {p : List Char} {o o' out : List (List Char)}
    (h : stripFrom driver keep' o p = .ok o') :
    stripFrom driver keep out (p ++ quote s ++ q) = stripFrom driver keep out (p ++ quote s' ++ q) := by
  rw [List.append_assoc, List.append_assoc, quote_append, quote_append]
  induction hlen : p.length using Nat.strong_induction_on generalizing p o out with
  | _ k ih =>
      cases p with
      | nil => rw [List.nil_append, List.nil_append, stripFrom_literal hq, stripFrom_literal hq]
      | cons c t =>
          have hlast : ∀ x y : List Char, ((c :: t) ++ '\'' :: (x ++ '\'' :: y)) =
              c :: (t ++ '\'' :: (x ++ '\'' :: y)) := fun x y => rfl
          rw [List.length_cons] at hlen
          rw [hlast, hlast]
          cases hopen : simpleQuotesFor driver c with
          | some closer =>
              obtain ⟨-, n, r, hb, hrest⟩ := stripFrom_quote hopen h
              have hlenr := length_quotedBody hb
              obtain ⟨ht, hr⟩ := quotedBody_iff.mp hb
              by_cases hmerge : r = [] ∧ closer = '\''
              · -- The literal goes on in the one that follows.
                obtain ⟨rfl, rfl⟩ := hmerge
                have hc : c = '\'' := quote_of_closer hopen
                subst hc
                have hjoin : ∀ x, t ++ '\'' :: (double '\'' x ++ '\'' :: q) =
                    double '\'' (n ++ '\'' :: x) ++ '\'' :: q := by
                  intro x
                  simp [ht, double_append, double]
                rw [hjoin, hjoin, stripFrom_literal hq, stripFrom_literal hq]
              · have hbody : ∀ x, quotedBody closer (t ++ '\'' :: (x ++ '\'' :: q)) =
                    some (n, r ++ '\'' :: (x ++ '\'' :: q)) := by
                  intro x
                  refine quotedBody_iff.mpr ⟨by simp [ht], ?_⟩
                  cases r with
                  | nil =>
                      intro hhead
                      simp only [List.nil_append, List.head?_cons, Option.some.injEq] at hhead
                      exact hmerge ⟨rfl, hhead.symm⟩
                  | cons d r => exact hr
                rw [stripFrom_opener hopen (hbody _), stripFrom_opener hopen (hbody _),
                  ih r.length (by omega) hrest rfl]
          | none =>
              by_cases hdollar : driver ≠ .mssql ∧ c = '$'
              · obtain ⟨hdr, rfl⟩ := hdollar
                obtain ⟨_ | r, hskip⟩ := stripFrom_skip_ok hdr h
                · have htag := dollarTagRe_of_skip hskip
                  have htags : ∀ u, dollarTagRe (t ++ '\'' :: u) = none := by
                    intro u
                    refine dollarTagRe_append ?_ htag
                    intro d hd
                    obtain rfl : '\'' = d := by simpa using hd
                    rfl
                  rw [stripFrom_char hopen (fun _ _ => htag)] at h
                  rw [stripFrom_char hopen (fun _ _ => htags _),
                    stripFrom_char hopen (fun _ _ => htags _)]
                  exact ih t.length (by omega) h rfl
                · have hlenr := length_skipDollarQuote hskip
                  rw [stripFrom_skip hdr hskip] at h
                  rw [stripFrom_skip hdr (skipDollarQuote_append hskip _),
                    stripFrom_skip hdr (skipDollarQuote_append hskip _)]
                  exact ih r.length (by omega) h rfl
              · have hplain : ∀ u, driver ≠ .mssql → c = '$' → dollarTagRe u = none :=
                  fun u hdr hc => absurd ⟨hdr, hc⟩ hdollar
                rw [stripFrom_char hopen (hplain _)] at h
                rw [stripFrom_char hopen (hplain _), stripFrom_char hopen (hplain _)]
                exact ih t.length (by omega) h rfl

/-! ### The statement the guard reads -/

/-- What is left of the end of a statement. -/
def trimEnd (q : List Char) : List Char :=
  rstripBy isSpace (rstripBy (· == ';') (rstripBy isSpace q))

theorem head?_rstripBy {f : Char → Bool} {q : List Char} {c : Char} (h : q.head? ≠ some c) :
    (rstripBy f q).head? ≠ some c := by
  obtain ⟨z, hz⟩ := List.rdropWhile_prefix f q
  show (List.rdropWhile f q).head? ≠ some c
  cases hd : List.rdropWhile f q with
  | nil => simp
  | cons d t =>
      rw [hd] at hz
      subst hz
      exact h

theorem cleaned_literal (p s q : List Char) :
    cleaned (p ++ quote s ++ q) = p.dropWhile isSpace ++ quote s ++ trimEnd q := by
  have hdrop : ∀ x y : List Char, (x ++ '\'' :: y).dropWhile isSpace =
      x.dropWhile isSpace ++ '\'' :: y := by
    intro x y
    rw [List.dropWhile_append]
    split
    · rename_i hnil
      rw [List.isEmpty_iff] at hnil
      rw [hnil]
      rfl
    · rfl
  have hassoc : ∀ x y : List Char, x ++ quote s ++ y = (x ++ '\'' :: double '\'' s) ++ '\'' :: y := by
    intro x y
    rw [List.append_assoc, quote_append]
    simp
  have hend : ∀ (f : Char → Bool) (x y : List Char), f '\'' = false →
      rstripBy f (x ++ quote s ++ y) = x ++ quote s ++ rstripBy f y := by
    intro f x y hf
    rw [hassoc, rstripBy_append_cons hf, ← hassoc]
  have hleft : ∀ x y : List Char, (x ++ quote s ++ y).dropWhile isSpace =
      x.dropWhile isSpace ++ quote s ++ y := by
    intro x y
    rw [List.append_assoc, quote_append, hdrop, ← quote_append, ← List.append_assoc]
  rw [cleaned, strip, strip, stripBy, stripBy, hleft, hend isSpace _ _ rfl, hend _ _ _ rfl, hleft,
    hend isSpace _ _ rfl, List.dropWhile_idempotent, trimEnd]

theorem strip_literal_ne (p s q : List Char) : (strip (p ++ quote s ++ q)).isEmpty = false := by
  rw [Bool.eq_false_iff]
  intro hnil
  rw [List.isEmpty_iff] at hnil
  have hquote := isSpace_of_strip_eq_nil hnil '\'' (by simp [quote])
  simp [isSpace] at hquote

theorem plain_of_isSpace (driver : Driver) {c : Char} (hc : isSpace c = true) :
    simpleQuotesFor driver c = none ∧ c ≠ '$' := by
  have hne : ∀ d, isSpace d = false → c ≠ d := by
    intro d hd heq
    rw [heq, hd] at hc
    cases hc
  refine ⟨?_, hne '$' rfl⟩
  simp [simpleQuotesFor, hne '\'' rfl, hne '"' rfl, hne '[' rfl]

/-- Leading white space takes nothing from a pass. -/
theorem stripFrom_dropWhile {p : List Char} {o o' : List (List Char)}
    (h : stripFrom driver keep o p = .ok o') :
    ∃ o, stripFrom driver keep o (p.dropWhile isSpace) = .ok o' := by
  induction p generalizing o with
  | nil => exact ⟨o, h⟩
  | cons c t ih =>
      rw [List.dropWhile_cons]
      split
      · rename_i hc
        obtain ⟨hopen, hdollar⟩ := plain_of_isSpace driver hc
        rw [stripFrom_char hopen (fun _ hd => absurd hd hdollar)] at h
        exact ih h
      · exact ⟨o, h⟩

theorem startsWithLower_literal {k : String} (hk : '\'' ∉ k.toList) (p x y : List Char) :
    startsWithLower k (p ++ '\'' :: x) = startsWithLower k (p ++ '\'' :: y) := by
  have hshort : ∀ z, startsWithLower k (p ++ '\'' :: z) = startsWithLower k p := by
    intro z
    rw [startsWithLower, startsWithLower, Bool.eq_iff_iff, List.isPrefixOf_iff_prefix,
      List.isPrefixOf_iff_prefix, List.map_append]
    refine ⟨fun h => ?_, fun h => h.trans (List.prefix_append _ _)⟩
    obtain hle | ⟨r, hr⟩ := List.prefix_or_prefix_of_prefix h (List.prefix_append _ _)
    · exact hle
    · -- What `k` has beyond `p` would begin with the quote.
      rw [← hr] at h hk ⊢
      have hrest := (List.prefix_append_right_inj _).mp h
      cases r with
      | nil => rw [List.append_nil]
      | cons d r =>
          obtain ⟨w, hw⟩ := hrest
          rw [List.map_cons, List.cons_append, List.cons.injEq] at hw
          have hd : d = '\'' := hw.1
          subst hd
          simp at hk
  rw [hshort, hshort]

/-- Statements that begin alike and are blanked alike get the same verdict. -/
theorem verdict_congr {sql sql' : List Char} (hne : (strip sql).isEmpty = false)
    (hne' : (strip sql').isEmpty = false)
    (hpass : ∀ keep, stripQuoted driver keep (cleaned sql) = stripQuoted driver keep (cleaned sql'))
    (hsel : startsWithLower "select" (cleaned sql) = startsWithLower "select" (cleaned sql'))
    (hwith : startsWithLower "with" (cleaned sql) = startsWithLower "with" (cleaned sql')) :
    (assertReadOnlySql uw driver sql).map (fun _ => ()) =
      (assertReadOnlySql uw driver sql').map (fun _ => ()) := by
  simp only [assertReadOnlySql, hne, hne', hpass, hsel, hwith]
  repeat' split
  all_goals rfl

theorem stripQuoted_eq (driver : Driver) (keep : Bool) (t : List Char) :
    stripQuoted driver keep t = (stripFrom driver keep [] t).map emitted := rfl

theorem ok_of_map_ok {ε α β : Type} {x : Except ε α} {f : α → β} {b : β} (h : x.map f = .ok b) :
    ∃ a, x = .ok a := by
  cases x with
  | error e => cases h
  | ok a => exact ⟨a, rfl⟩

/-- The verdict, with the reason of a refusal, is the same for any two literals. -/
theorem verdict_literal {p q scan : List Char} (hp : stripQuoted driver false p = .ok scan)
    (hq : q.head? ≠ some '\'') (s t : List Char) :
    (assertReadOnlySql uw driver (p ++ quote s ++ q)).map (fun _ => ()) =
      (assertReadOnlySql uw driver (p ++ quote t ++ q)).map (fun _ => ()) := by
  obtain ⟨o', hscan⟩ := ok_of_map_ok hp
  obtain ⟨o, htrimmed⟩ := stripFrom_dropWhile hscan
  have hend : (trimEnd q).head? ≠ some '\'' :=
    head?_rstripBy (head?_rstripBy (head?_rstripBy hq))
  have hstart : ∀ k : String, '\'' ∉ k.toList → startsWithLower k (cleaned (p ++ quote s ++ q)) =
      startsWithLower k (cleaned (p ++ quote t ++ q)) := by
    intro k hk
    rw [cleaned_literal, cleaned_literal, List.append_assoc, List.append_assoc, quote_append,
      quote_append]
    exact startsWithLower_literal hk _ _ _
  refine verdict_congr (strip_literal_ne p s q) (strip_literal_ne p t q) ?_ (hstart _ (by decide))
    (hstart _ (by decide))
  intro keep
  rw [cleaned_literal, cleaned_literal, stripQuoted_eq, stripQuoted_eq,
    stripFrom_literal_congr hend s t htrimmed]

theorem returns_cleaned {sql c : List Char} (h : assertReadOnlySql uw driver sql = .ok c) :
    c = cleaned sql := by
  unfold assertReadOnlySql at h
  repeat' (split at h)
  all_goals simp_all

theorem accepts_iff {sql : List Char} :
    accepts uw driver sql ↔ (assertReadOnlySql uw driver sql).map (fun _ => ()) = .ok () := by
  rw [accepts]
  cases assertReadOnlySql uw driver sql with
  | error e => simp [Except.map]
  | ok c => simp [Except.map]

theorem search_blank (uw : Char → Bool) :
    search (pyWord uw) forbiddenRe "SELECT  ".toList = none ∧
      search (pyWord uw) (forbiddenFnRe uw) "SELECT  ".toList = none ∧
      search (pyWord uw) (fourPartRe uw) "SELECT  ".toList = none := by
  refine ⟨?_, ?_, ?_⟩
  · cbv
  · cbv
  · cbv

theorem select_blank (uw : Char → Bool) (driver : Driver) :
    accepts uw driver ("SELECT ".toList ++ quote [] ++ []) := by
  obtain ⟨hword, hfn, hpart⟩ := search_blank uw
  have hclean : cleaned ("SELECT ".toList ++ quote [] ++ []) = "SELECT ''".toList := by decide
  have hpass : ∀ keep, stripQuoted driver keep "SELECT ''".toList = .ok "SELECT  ".toList := by
    intro keep
    cases driver <;> cases keep <;> rfl
  have hplain : (contains ['-', '-'] "SELECT  ".toList || contains ['/', '*'] "SELECT  ".toList ||
      contains ['*', '/'] "SELECT  ".toList) = false ∧ contains [';'] "SELECT  ".toList = false := by
    decide
  have hstart : startsWithLower "select" "SELECT ''".toList = true := by decide
  refine ⟨"SELECT ''".toList, ?_⟩
  simp only [assertReadOnlySql, strip_literal_ne, hclean, hpass, hplain, hstart, hword, hfn, hpart]
  rfl

/-- **The text of a literal has no part in the verdict.** -/
theorem literals_ignored (uw : Char → Bool) (driver : Driver) :
    (∀ p q scan, stripQuoted driver false p = .ok scan → q.head? ≠ some '\'' → ∀ s t,
        (accepts uw driver (p ++ quote s ++ q) ↔ accepts uw driver (p ++ quote t ++ q))) ∧
      ∀ s, assertReadOnlySql uw driver ("SELECT ".toList ++ quote s) =
        .ok ("SELECT ".toList ++ quote s) := by
  constructor
  · intro p q scan hp hq s t
    rw [accepts_iff, accepts_iff, verdict_literal hp hq s t]
  · intro s
    have hscan : stripQuoted driver false "SELECT ".toList = .ok "SELECT ".toList := by
      cases driver <;> rfl
    obtain ⟨c, hc⟩ : accepts uw driver ("SELECT ".toList ++ quote s ++ []) := by
      rw [accepts_iff, verdict_literal hscan (by simp) s [], ← accepts_iff]
      exact select_blank uw driver
    have hclean : cleaned ("SELECT ".toList ++ quote s ++ []) = "SELECT ".toList ++ quote s := by
      rw [cleaned_literal]
      exact List.append_nil _
    obtain rfl := returns_cleaned hc
    rwa [hclean, List.append_nil] at hc

/-- The literal after `SELECT`, with a text that would be a second statement outside it. -/
theorem literals_ignored_select :
    (accepts (fun _ => false) .postgres
        ("SELECT ".toList ++ quote "a".toList ++ " AS x".toList) ↔
      accepts (fun _ => false) .postgres
        ("SELECT ".toList ++ quote "'; DROP TABLE t; --".toList ++ " AS x".toList)) :=
  (literals_ignored (fun _ => false) .postgres).1 _ _ "SELECT ".toList (by rfl) (by decide) _ _

end CyClaw.Sql
