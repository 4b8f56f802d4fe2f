/-
What the guard's acceptance says about the statement the server runs.

`accepted` reads the guard's checks off an accepting call, and with `lockstep` they
become statements about the server's tokens.  For SQL Server there is no gap between the
two readings.  For PostgreSQL there are four, and `SELECT 1 AS a$x$ ; DROP TABLE t ; ...`
shows the first: the guard takes the `$x$` of a column name for an opening dollar quote
and blanks the statement behind it.
-/
import Mathlib.Data.List.Forall2
import CyClaw.Sql.Lockstep

namespace CyClaw.Sql

open PyText Regex SqlLex

variable {uw : Char → Bool} {driver : Driver} {sql c : List Char}

/-- The checks an accepted statement has passed. -/
structure Accepted (uw : Char → Bool) (driver : Driver) (c scan named : List Char) : Prop where
  scan_eq : stripQuoted driver false c = .ok scan
  no_comment : ¬ ['-', '-'] <:+: scan ∧ ¬ ['/', '*'] <:+: scan
  no_separator : ';' ∉ scan
  no_keyword : hits (pyWord uw) forbiddenRe scan = false
  named_eq : stripQuoted driver true c = .ok named
  no_function : hits (pyWord uw) (forbiddenFnRe uw) named = false

theorem accepted (h : assertReadOnlySql uw driver sql = .ok c) :
    c = cleaned sql ∧ ∃ scan named, Accepted uw driver c scan named := by
  unfold assertReadOnlySql at h
  split at h
  · cases h
  · split at h
    · cases h
    · rename_i scan hscan
      split at h
      · cases h
      · rename_i hcomment
        split at h
        · cases h
        · rename_i hsep
          split at h
          · cases h
          · split at h
            · cases h
            · rename_i hword
              split at h
              · cases h
              · rename_i named hnamed
                split at h
                · cases h
                · rename_i hfn
                  split at h
                  · cases h
                  · simp only [Except.ok.injEq] at h
                    subst h
                    simp only [Bool.or_eq_true, contains_iff, not_or] at hcomment
                    refine ⟨rfl, scan, named, hscan, hcomment.1, ?_, ?_, hnamed, ?_⟩
                    · rw [contains_iff, List.singleton_infix_iff] at hsep
                      exact hsep
                    · rw [hits, hword]
                      rfl
                    · rw [hits, hfn]
                      rfl

private theorem stripFrom_of_strip {keep : Bool} {T : List Char}
    (h : stripQuoted driver keep c = .ok T) :
    ∃ out, stripFrom driver keep [] c = .ok out ∧ emitted out = T := by
  rw [stripQuoted] at h
  cases hs : stripLoop driver keep c.length [] c with
  | error e =>
      rw [hs] at h
      cases h
  | ok out =>
      rw [hs] at h
      exact ⟨out, hs, Except.ok.inj h⟩

/-- What the server may not find in a statement. -/
structure ReadOnly (uw : Char → Bool) (ks : List Token) : Prop where
  no_separator : .other ';' ∉ ks
  no_comment : ∀ o, .comment o ∉ ks
  no_keyword : ∀ w, .word w ∈ ks → hits (pyWord uw) forbiddenRe w = false
  no_function : ∀ w, .word w ∈ ks → hits (pyWord uw) (forbiddenFnRe uw) w = false
  no_quoted_function : ∀ n, .quoted '"' n ∈ ks → hits (pyWord uw) (forbiddenFnRe uw) n = false

/-- The guard's checks, carried over to the server's tokens. -/
theorem readOnly_of_accepted (h : assertReadOnlySql uw driver sql = .ok c)
    (hgap : gapFree uw (serverLexis driver) .start
      (tokenize (serverLexis driver) c) = true) :
    ReadOnly uw (tokenize (serverLexis driver) c) := by
  obtain ⟨-, scan, named, hacc⟩ := accepted h
  obtain ⟨out, hout, hscan⟩ := stripFrom_of_strip hacc.scan_eq
  obtain ⟨out', hout', hnamed⟩ := stripFrom_of_strip hacc.named_eq
  have htrail : Trails (serverLexis driver) .start [] c := rfl
  have hshown := lockstep (r := forbiddenRe) (Or.inl rfl) hout htrail hgap
  have hshown' := lockstep (r := forbiddenFnRe uw) (Or.inr rfl) hout' htrail hgap
  rw [hscan] at hshown
  rw [hnamed] at hshown'
  -- The blanked copy has no comment opener, so the first pass shows every token ...
  have hall : ∀ k ∈ tokenize (serverLexis driver) c, Shown uw false forbiddenRe scan k := by
    obtain ⟨o, -, rfl | rfl, ho⟩ | hall := hshown
    · exact absurd ho hacc.no_comment.1
    · exact absurd ho hacc.no_comment.2
    · exact hall
  -- ... and no token is a comment, so the second pass shows every token too.
  have hall' : ∀ k ∈ tokenize (serverLexis driver) c,
      Shown uw true (forbiddenFnRe uw) named k := by
    obtain ⟨o, ho, -⟩ | hall' := hshown'
    · exact absurd (hall _ ho) id
    · exact hall'
  refine ⟨?_, ?_, ?_, ?_, ?_⟩
  · intro hk
    exact hacc.no_separator (hall _ hk)
  · intro o hk
    exact hall _ hk
  · intro w hk
    by_contra hhit
    rw [Bool.not_eq_false] at hhit
    have := hall _ hk hhit
    rw [hacc.no_keyword] at this
    cases this
  · intro w hk
    by_contra hhit
    rw [Bool.not_eq_false] at hhit
    have := hall' _ hk hhit
    rw [hacc.no_function] at this
    cases this
  · intro n hk
    by_contra hhit
    rw [Bool.not_eq_false] at hhit
    have := hall' _ hk rfl (by decide) hhit
    rw [hacc.no_function] at this
    cases this

/-! ### PostgreSQL -/

/-- **The PostgreSQL guard is sound away from the gaps.** -/
theorem postgres_guard_sound
    (hgap : gapFree uw postgresLexis .start (tokenize postgresLexis (cleaned sql)) = true)
    (h : assertReadOnlySql uw .postgres sql = .ok c) :
    ReadOnly uw (tokenize postgresLexis c) := by
  obtain ⟨rfl, -⟩ := accepted h
  exact readOnly_of_accepted h hgap

/-- A statement with every quoting form, accepted and without a gap. -/
def quotedSelect : List Char :=
  "SELECT 'a;b' AS \"c--d\", $t$;'$t$, 1 FROM x$y WHERE id = $1 ;".toList

theorem postgres_guard_sound_quotedSelect :
    assertReadOnlySql (fun _ => false) .postgres quotedSelect = .ok (cleaned quotedSelect) ∧
      ReadOnly (fun _ => false) (tokenize postgresLexis (cleaned quotedSelect)) :=
  have haccepted : assertReadOnlySql (fun _ => false) .postgres quotedSelect =
      .ok (cleaned quotedSelect) := by decide +kernel
  ⟨haccepted, postgres_guard_sound (by decide +kernel) haccepted⟩

/-- Two column names with a dollar tag in them, and a statement between them. -/
def stackedDrop : List Char := "SELECT 1 AS a$x$ ; DROP TABLE t ; SELECT 1 AS b$x$".toList

/-- The guard accepts a statement in which the server finds a separator and a `DROP`. -/
theorem stackedDrop_accepted :
    assertReadOnlySql (fun _ => false) .postgres stackedDrop = .ok stackedDrop ∧
      .other ';' ∈ tokenize postgresLexis stackedDrop ∧
      .word "DROP".toList ∈ tokenize postgresLexis stackedDrop ∧
      ¬ ReadOnly (fun _ => false) (tokenize postgresLexis stackedDrop) := by
  have hsep : .other ';' ∈ tokenize postgresLexis stackedDrop := by decide +kernel
  exact ⟨by decide +kernel, hsep, by decide +kernel, fun h => h.no_separator hsep⟩

/-! ### SQL Server -/

/-- SQL Server's reading has no gaps. -/
theorem tsql_gapFree (uw : Char → Bool) (t : List Char) {left : Left}
    (hleft : left.isDigit = false) :
    gapFree uw tsqlLexis left (tokenize tsqlLexis t) = true := by
  induction t using tokenize_induction tsqlLexis generalizing left with
  | nil => rfl
  | cons c t ih =>
      have hreads := next_reads tsqlLexis c t
      rw [tokenize_cons, gapFree, Bool.and_eq_true, Bool.not_eq_true']
      generalize next tsqlLexis c t = p at hreads ih ⊢
      obtain ⟨k, rest⟩ := p
      cases hreads with
      | quoted hq hb => exact ⟨rfl, ih rfl⟩
      | unterminated o => exact ⟨rfl, ih rfl⟩
      | word hs =>
          refine ⟨?_, ih rfl⟩
          rw [gap, hleft]
          rfl
      | escape hs he hc ht hb => cases he
      | dollar hs hd hc ht hb => cases hd
      | lineComment hc ht => exact ⟨rfl, ih rfl⟩
      | blockComment hc ht => exact ⟨rfl, ih rfl⟩
      | other hq hs hd =>
          refine ⟨rfl, ih ?_⟩
          simp only [tsqlLexis, Char.isAlphanum, Bool.or_eq_false_iff] at hs
          rw [leftOf, Left.isDigit]
          tauto

theorem isAlpha_lt {c : Char} (h : c.isAlpha = true) : c.toNat < 128 := by
  rw [isAlpha_iff] at h
  omega

theorem pyWord_of_toLower {c : Char} (h : c.toLower.isLower = true) : pyWord uw c = true := by
  have halpha : c.isAlpha = true := by
    rw [isLower_iff, toNat_toLower] at h
    rw [isAlpha_iff]
    split at h <;> omega
  simp [pyWord, isAlpha_lt halpha, Char.isAlphanum, halpha]

/-- A word that spells a keyword is a hit, whatever its case. -/
theorem hits_of_toLower {w : List Char} (h : w.map Char.toLower ∈ forbiddenWords) :
    hits (pyWord uw) forbiddenRe w = true := by
  have hletters : ∀ k ∈ forbiddenWords, k ≠ [] ∧ k.all Char.isLower = true := by decide
  obtain ⟨hne, hall⟩ := hletters _ h
  have hword : ∀ d ∈ w, pyWord uw d = true := by
    intro d hd
    refine pyWord_of_toLower ?_
    exact List.all_eq_true.mp hall d.toLower (List.mem_map_of_mem hd)
  have hne' : w ≠ [] := by simpa using hne
  refine hits_wholeWord h ?_ ?_ ?_
  · rw [List.forall₂_map_left_iff, List.forall₂_same]
    intro d _
    simp [caseless]
  · rw [List.head?_eq_some_head hne', Option.any_some]
    exact hword _ (List.head_mem hne')
  · rw [List.getLast?_eq_some_getLast hne', Option.any_some]
    exact hword _ (List.getLast_mem hne')

/-- **The SQL Server guard is sound.** -/
theorem mssql_guard_sound (h : assertReadOnlySql uw .mssql sql = .ok c) :
    .other ';' ∉ tokenize tsqlLexis c ∧
      (∀ o, .comment o ∉ tokenize tsqlLexis c) ∧
      ∀ w, .word w ∈ tokenize tsqlLexis c → w.map Char.toLower ∉ forbiddenWords := by
  have hsound := readOnly_of_accepted h (tsql_gapFree uw c rfl)
  refine ⟨hsound.no_separator, hsound.no_comment, ?_⟩
  intro w hw hmem
  have := hsound.no_keyword w hw
  rw [hits_of_toLower hmem] at this
  cases this

/-- A statement with SQL Server's quoting forms. -/
def bracketedSelect : List Char :=
  "SELECT 'a;b' AS [c]]--d], \"e/*f\" FROM dbo.x$y WHERE drop_id = @p1".toList

theorem mssql_guard_sound_bracketedSelect :
    assertReadOnlySql (fun _ => false) .mssql bracketedSelect = .ok bracketedSelect ∧
      .other ';' ∉ tokenize tsqlLexis bracketedSelect ∧
      (∀ o, .comment o ∉ tokenize tsqlLexis bracketedSelect) ∧
      ∀ w, .word w ∈ tokenize tsqlLexis bracketedSelect →
        w.map Char.toLower ∉ forbiddenWords :=
  have haccepted : assertReadOnlySql (fun _ => false) .mssql bracketedSelect =
      .ok bracketedSelect := by decide +kernel
  ⟨haccepted, mssql_guard_sound haccepted⟩

end CyClaw.Sql
