/-
The guard's pass and the server's lexer, side by side.

Both read the statement from the left.  The server reads a token at a time, the guard a
character or a quoted region at a time, and the guard is sound as long as they agree
where quoted regions start and end.  `lockstep` follows the server's tokens and carries
along what the guard has emitted when it reaches each of them.

Four kinds of token are places where the two disagree, or where the guard's word search
sees less than the server reads; `gap` names them.  Away from them every token shows in
the text the guard inspects, which is what `Shown` says.
-/
import CyClaw.Lib.SqlLexer
import CyClaw.Sql.Guard

namespace CyClaw.Sql

open PyText Regex SqlLex

/-! ### The servers -/

def nonAscii (c : Char) : Bool := 128 ≤ c.toNat

/-- How PostgreSQL reads a statement. -/
def postgresLexis : Lexis where
  identStart c := c.isAlpha || c == '_' || nonAscii c
  identChar c := c.isAlphanum || c == '_' || c == '$' || nonAscii c
  quotes := simpleQuotesFor .postgres
  escapeStrings := true
  dollarQuotes := true
  start_char c h := by
    simp only [Char.isAlphanum, Bool.or_eq_true] at h ⊢
    tauto
  quote_sep c q h := by
    rw [simpleQuotesFor] at h
    split at h
    · rename_i hc
      rw [hc]
      rfl
    · split at h
      · rename_i hc
        rw [hc]
        rfl
      · simp at h
  dash_sep := rfl
  slash_sep := rfl

/-- How SQL Server reads a statement. -/
def tsqlLexis : Lexis where
  identStart c := c.isAlphanum || c == '_' || c == '$' || c == '@' || c == '#' || nonAscii c
  identChar c := c.isAlphanum || c == '_' || c == '$' || c == '@' || c == '#' || nonAscii c
  quotes := simpleQuotesFor .mssql
  escapeStrings := false
  dollarQuotes := false
  start_char c h := h
  quote_sep c q h := by
    rw [simpleQuotesFor] at h
    split at h
    · rename_i hc
      rw [hc]
      rfl
    · split at h
      · rename_i hc
        rw [hc]
        rfl
      · split at h
        · rename_i hc
          rw [hc.2]
          rfl
        · simp at h
  dash_sep := rfl
  slash_sep := rfl

def serverLexis : Driver → Lexis
  | .postgres => postgresLexis
  | .mssql => tsqlLexis

theorem serverLexis_quotes (driver : Driver) : (serverLexis driver).quotes = simpleQuotesFor driver := by
  cases driver <;> rfl

theorem serverLexis_dollarQuotes (driver : Driver) :
    (serverLexis driver).dollarQuotes = true ↔ driver ≠ .mssql := by
  cases driver <;> simp [serverLexis, postgresLexis, tsqlLexis]

/-- What Python takes for a word character, the server takes for an identifier character. -/
theorem identChar_of_pyWord {uw : Char → Bool} (driver : Driver) {c : Char}
    (h : pyWord uw c = true) : (serverLexis driver).identChar c = true := by
  rw [pyWord] at h
  split at h
  · rw [Bool.or_eq_true] at h
    cases driver <;> simp only [serverLexis, postgresLexis, tsqlLexis, Bool.or_eq_true] <;> tauto
  · have hc : nonAscii c = true := by
      rw [nonAscii, decide_eq_true_eq]
      omega
    cases driver <;> simp [serverLexis, postgresLexis, tsqlLexis, hc]

/-- Only a digit is a word character to Python and starts no identifier. -/
theorem isDigit_of_pyWord {uw : Char → Bool} {driver : Driver} {c : Char}
    (hs : (serverLexis driver).identStart c = false) (h : pyWord uw c = true) :
    driver = .postgres ∧ c.isDigit = true := by
  have hword := identChar_of_pyWord driver h
  rw [pyWord] at h
  cases driver with
  | mssql =>
      have : tsqlLexis.identStart c = tsqlLexis.identChar c := rfl
      simp only [serverLexis] at hs hword
      rw [← this, hs] at hword
      cases hword
  | postgres =>
      simp only [serverLexis, postgresLexis, Bool.or_eq_false_iff] at hs
      obtain ⟨⟨halpha, hunder⟩, hascii⟩ := hs
      have hc : c.toNat < 128 := by
        rw [nonAscii, decide_eq_false_iff_not] at hascii
        omega
      simpa [hc, Char.isAlphanum, halpha, hunder] using h

/-- The pieces the guard looks back at, of a character that starts no identifier. -/
theorem isIdentPiece_single {driver : Driver} {c : Char}
    (hs : (serverLexis driver).identStart c = false) (hd : c.isDigit = false) (hc : c ≠ '$') :
    isIdentPiece [c] = false := by
  have halpha : c.isAlpha = false ∧ (c == '_') = false := by
    cases driver <;>
      simp only [serverLexis, postgresLexis, tsqlLexis, Char.isAlphanum, Bool.or_eq_false_iff] at hs <;>
      tauto
  simp [isIdentPiece, Char.isAlphanum, halpha.1, halpha.2, hd, hc]

/-! ### The pass, one step at a time -/

variable {driver : Driver} {keep : Bool}

theorem skipSimpleQuote_eq (q : Char) (t : List Char) :
    skipSimpleQuote q t = (quotedBody q t).map fun (n, r) => (double q n, r) := by
  fun_induction quotedBody q t with
  | case1 => rfl
  | case2 => simp [skipSimpleQuote, double]
  | case3 c hc => simp [skipSimpleQuote, hc]
  | case4 t ih =>
      simp only [skipSimpleQuote, if_true, ih, Option.map_map]
      congr 1
      funext p
      simp [double]
  | case5 d t hd => simp [skipSimpleQuote, hd, double]
  | case6 c d t hc ih =>
      simp only [skipSimpleQuote, hc, if_false, ih, Option.map_map]
      congr 1
      funext p
      simp [double, hc]

theorem dollarTagRe_eq : dollarTagRe = tagBy tagStart tagChar := by
  funext t
  cases t <;> rfl

theorem length_skipDollarQuote {t r : List Char} (h : skipDollarQuote t = .ok (some r)) :
    r.length ≤ t.length := by
  rw [skipDollarQuote] at h
  split at h
  · simp at h
  · rename_i tag rest ht
    split at h
    · simp at h
    · rename_i b after hb
      simp only [Except.ok.injEq, Option.some.injEq] at h
      subst h
      have hlt := length_splitAt?_lt hb (by simp)
      rw [dollarTagRe_eq] at ht
      rw [(tagBy_some ht).1, List.length_append, List.length_cons]
      omega

theorem length_skipSimpleQuote {q : Char} {t b r : List Char}
    (h : skipSimpleQuote q t = some (b, r)) : r.length ≤ t.length := by
  rw [skipSimpleQuote_eq, Option.map_eq_some_iff] at h
  obtain ⟨⟨n, r'⟩, hb, heq⟩ := h
  simp only [Prod.mk.injEq] at heq
  rw [← heq.2]
  exact length_quotedBody hb

theorem stripLoop_fuel {n m : Nat} {out : List (List Char)} {t : List Char} (hn : t.length ≤ n)
    (hm : t.length ≤ m) : stripLoop driver keep n out t = stripLoop driver keep m out t := by
  induction n generalizing m out t with
  | zero =>
      obtain rfl : t = [] := List.length_eq_zero_iff.mp (by omega)
      cases m <;> rfl
  | succ n ih =>
      cases t with
      | nil => cases m <;> rfl
      | cons c t =>
          rw [List.length_cons] at hn hm
          obtain ⟨m, rfl⟩ : ∃ m', m = m' + 1 := ⟨m - 1, by omega⟩
          simp only [stripLoop]
          split
          · split
            · rfl
            · split
              · rfl
              · split
                · rfl
                · rename_i hb
                  have hlen := length_skipSimpleQuote hb
                  exact ih (by omega) (by omega)
          · split
            · split
              · rfl
              · exact ih (by omega) (by omega)
              · rename_i hd
                have hlen := length_skipDollarQuote hd
                exact ih (by omega) (by omega)
            · exact ih (by omega) (by omega)

/-- The pass over the rest of a text, given what it has emitted. -/
def stripFrom (driver : Driver) (keep : Bool) (out : List (List Char)) (t : List Char) :
    Except Refusal (List (List Char)) :=
  stripLoop driver keep t.length out t

theorem stripFrom_char {out : List (List Char)} {c : Char} {t : List Char}
    (hq : simpleQuotesFor driver c = none)
    (hd : driver ≠ .mssql → c = '$' → dollarTagRe t = none) :
    stripFrom driver keep out (c :: t) = stripFrom driver keep ([c] :: out) t := by
  rw [stripFrom, List.length_cons, stripLoop, hq]
  by_cases hc : driver ≠ .mssql ∧ c = '$'
  · have hnone : skipDollarQuote t = .ok none := by
      rw [skipDollarQuote, hd hc.1 hc.2]
    simp only [hc, and_self, if_true, hnone, ne_eq, not_false_eq_true]
    rfl
  · simp only [hc, if_false]
    rfl

theorem stripFrom_quote {out out' : List (List Char)} {c q : Char} {t : List Char}
    (hq : simpleQuotesFor driver c = some q)
    (h : stripFrom driver keep out (c :: t) = .ok out') :
    (c = '\'' → isEscapeStringPrefix out = false) ∧
      ∃ n r, quotedBody q t = some (n, r) ∧
        stripFrom driver keep (blanked keep c (double q n) :: out) r = .ok out' := by
  rw [stripFrom, List.length_cons, stripLoop, hq] at h
  simp only at h
  split at h
  · simp at h
  · rename_i hesc
    split at h
    · simp at h
    · split at h
      · simp at h
      · rename_i b r hb
        have hlen := length_skipSimpleQuote hb
        rw [skipSimpleQuote_eq, Option.map_eq_some_iff] at hb
        obtain ⟨⟨n, r'⟩, hn, heq⟩ := hb
        simp only [Prod.mk.injEq] at heq
        obtain ⟨rfl, rfl⟩ := heq
        refine ⟨?_, n, r', hn, ?_⟩
        · intro hc
          simpa [hc] using hesc
        · rw [stripFrom, stripLoop_fuel (Nat.le_refl _) hlen]
          exact h

/-- A dollar-quoted text is passed over. -/
theorem stripFrom_skip {out : List (List Char)} {t r : List Char} (hdr : driver ≠ .mssql)
    (hs : skipDollarQuote t = .ok (some r)) :
    stripFrom driver keep out ('$' :: t) = stripFrom driver keep ([' '] :: out) r := by
  have hnone : simpleQuotesFor driver '$' = none := by cases driver <;> rfl
  rw [stripFrom, List.length_cons, stripLoop, hnone]
  simp only [hdr, ne_eq, not_false_eq_true, and_self, if_true, hs]
  rw [stripFrom, stripLoop_fuel (Nat.le_refl _) (length_skipDollarQuote hs)]

theorem stripFrom_dollar {out out' : List (List Char)} {t tag t' b r : List Char}
    (hdr : driver ≠ .mssql) (ht : dollarTagRe t = some (tag, t'))
    (hb : splitAt? (dollarMark tag) t' = some (b, r))
    (h : stripFrom driver keep out ('$' :: t) = .ok out') :
    stripFrom driver keep ([' '] :: out) r = .ok out' := by
  have hsome : skipDollarQuote t = .ok (some r) := by
    rw [dollarMark] at hb
    simp only [skipDollarQuote, ht, hb]
  rwa [stripFrom_skip hdr hsome] at h

@[simp] theorem emitted_nil : emitted [] = [] := rfl

@[simp] theorem emitted_cons (s : List Char) (out : List (List Char)) :
    emitted (s :: out) = emitted out ++ s := by
  simp [emitted]

theorem blanked_head (keep : Bool) (o : Char) (b : List Char) :
    (blanked keep o b).head? = some ' ' := by
  rw [blanked]
  split <;> rfl

theorem blanked_last (keep : Bool) (o : Char) (b : List Char) :
    ∃ s, blanked keep o b = s ++ [' '] := by
  rw [blanked]
  split
  · exact ⟨' ' :: b, rfl⟩
  · exact ⟨[], rfl⟩

/-- One more piece in front of what the rest of the pass emits. -/
private theorem emits_piece {out out' : List (List Char)} {s : List Char} {c d : Char}
    {t t' : List Char} (hs : s.head? = some d) (hd : d = ' ' ∨ d = c)
    (h : ∃ u, emitted out' = emitted (s :: out) ++ u ∧ ∀ c ∈ u.head?, c = ' ' ∨ t'.head? = some c) :
    ∃ u, emitted out' = emitted out ++ u ∧ ∀ e ∈ u.head?, e = ' ' ∨ (c :: t).head? = some e := by
  obtain ⟨u, hu, -⟩ := h
  refine ⟨s ++ u, ?_, ?_⟩
  · rw [hu, emitted_cons, List.append_assoc]
  · intro e he
    have hde : d = e := by
      cases s with
      | nil => simp at hs
      | cons x s => simp_all
    rw [← hde, List.head?_cons, Option.some.injEq]
    exact hd.imp id Eq.symm

private theorem stripLoop_emits {n : Nat} {out out' : List (List Char)} {t : List Char}
    (h : stripLoop driver keep n out t = .ok out') :
    ∃ u, emitted out' = emitted out ++ u ∧ ∀ c ∈ u.head?, c = ' ' ∨ t.head? = some c := by
  have done : ∀ {out t}, (Except.ok out : Except Refusal _) = .ok out' →
      ∃ u, emitted out' = emitted out ++ u ∧ ∀ c ∈ u.head?, c = ' ' ∨ List.head? t = some c := by
    intro out t h
    simp only [Except.ok.injEq] at h
    exact ⟨[], by simp [h], by simp⟩
  induction n generalizing out t with
  | zero => exact done h
  | succ n ih =>
      cases t with
      | nil => exact done h
      | cons c t =>
          rw [stripLoop] at h
          split at h
          · split at h
            · simp at h
            · split at h
              · simp at h
              · split at h
                · simp at h
                · exact emits_piece (blanked_head keep c _) (Or.inl rfl) (ih h)
          · split at h
            · split at h
              · simp at h
              · exact emits_piece rfl (Or.inr rfl) (ih h)
              · exact emits_piece rfl (Or.inl rfl) (ih h)
            · exact emits_piece rfl (Or.inr rfl) (ih h)

/-- The pass only adds to what it has emitted, and goes on with a blank or with the character
it is at. -/
theorem stripFrom_emits {out out' : List (List Char)} {t : List Char}
    (h : stripFrom driver keep out t = .ok out') :
    ∃ u, emitted out' = emitted out ++ u ∧ ∀ c ∈ u.head?, c = ' ' ∨ t.head? = some c :=
  stripLoop_emits h

/-! ### Where guard and server part -/

/-- Somewhere in a word the guard opens a dollar quote. -/
def holdsDollarTag : List Char → Bool
  | [] => false
  | c :: t => (c == '$' && (dollarTagRe t).isSome) || holdsDollarTag t

/-- What stands before a token. -/
inductive Left where
  | start
  | char (c : Char)
  | word
  | region

def leftOf : Token → Left
  | .other c => .char c
  | .word _ => .word
  | _ => .region

def Left.isDigit : Left → Bool
  | .char c => c.isDigit
  | _ => false

def Left.isDigitOrDollar : Left → Bool
  | .char c => c.isDigit || c == '$'
  | _ => false

/-- The tokens the guard gets wrong: an identifier with a dollar tag in it, a dollar quote
whose tag the guard does not match, an escape string glued to a digit or a `$`, and a
forbidden word glued to a digit. -/
def gap (uw : Char → Bool) (lx : Lexis) (left : Left) : Token → Bool
  | .word w =>
      (lx.dollarQuotes && holdsDollarTag w) ||
        (left.isDigit &&
          (hits (pyWord uw) forbiddenRe w || hits (pyWord uw) (forbiddenFnRe uw) w))
  | .dollar tag _ => !tag.all tagChar
  | .escape _ => left.isDigitOrDollar
  | _ => false

/-- No token is a gap. -/
def gapFree (uw : Char → Bool) (lx : Lexis) : Left → List Token → Bool
  | _, [] => true
  | left, k :: ks => !gap uw lx left k && gapFree uw lx (leftOf k) ks

/-! ### What shows of a token -/

/-- What a token leaves in the text `T` that the guard inspects for `r`. -/
def Shown (uw : Char → Bool) (keep : Bool) (r : Re) (T : List Char) : Token → Prop
  | .word w => hits (pyWord uw) r w = true → hits (pyWord uw) r T = true
  | .quoted o n =>
      keep = true → o ≠ '\'' → hits (pyWord uw) r n = true → hits (pyWord uw) r T = true
  | .other c => c ∈ T
  | .comment _ => False
  | _ => True

/-- What the guard has emitted when the server has `t` before it and `left` behind it. -/
def Trails (lx : Lexis) (left : Left) (out : List (List Char)) (t : List Char) : Prop :=
  match left with
  | .start => out = []
  | .char c => out.head? = some [c] ∧ lx.identStart c = false
  | .word => ∀ c ∈ t.head?, lx.identChar c = false
  | .region => ∃ s, out.head? = some (s ++ [' '])

/-! ### Dollar tags -/

theorem tagStart_ident {c : Char} (h : tagStart c = true) : postgresLexis.identStart c = true := by
  rw [tagStart, Bool.or_eq_true] at h
  simp only [postgresLexis, Bool.or_eq_true]
  exact Or.inl h

theorem tagChar_ident {c : Char} (h : tagChar c = true) :
    postgresLexis.identChar c = true ∧ c ≠ '$' := by
  refine ⟨?_, ?_⟩
  · rw [tagChar, Bool.or_eq_true] at h
    simp only [postgresLexis, Bool.or_eq_true]
    exact Or.inl (Or.inl h)
  · rintro rfl
    revert h
    decide

/-- An identifier start the guard knows as a tag character is one it knows as a tag start. -/
theorem tagStart_of_ident {c : Char} (hs : postgresLexis.identStart c = true)
    (h : tagChar c = true) : tagStart c = true := by
  simp only [postgresLexis, Bool.or_eq_true] at hs
  rw [tagStart, Bool.or_eq_true]
  obtain hs | hs := hs
  · exact hs
  · -- a tag character is an ASCII one
    rw [tagChar, Char.isAlphanum, Bool.or_eq_true, Bool.or_eq_true] at h
    rw [nonAscii, decide_eq_true_eq] at hs
    have hdigit : c.isDigit = false := by
      rw [Bool.eq_false_iff, ne_eq, isDigit_iff]
      omega
    simp only [hdigit, Bool.false_eq_true, or_false] at h
    exact h

/-- A tag of the server's that the guard's pattern can spell is one the guard matches. -/
theorem dollarTagRe_of_server {t tag r : List Char} (h : dollarTag postgresLexis t = some (tag, r))
    (hall : tag.all tagChar = true) : dollarTagRe t = some (tag, r) := by
  obtain ⟨rfl, hs, -⟩ := tagBy_some h
  rw [dollarTagRe_eq]
  cases tag with
  | nil => rfl
  | cons c tag =>
      rw [List.all_cons, Bool.and_eq_true] at hall
      have hstart : ∀ d ∈ (c :: tag).head?, tagStart d = true := by
        simpa using tagStart_of_ident (by simpa using hs) hall.1
      exact tagBy_append rfl rfl hstart hall.2 r

/-- Where the server sees no tag the guard sees none. -/
theorem dollarTagRe_none {t : List Char} (h : dollarTag postgresLexis t = none) :
    dollarTagRe t = none := by
  cases ht : dollarTagRe t with
  | none => rfl
  | some p =>
      obtain ⟨tag, r⟩ := p
      rw [dollarTagRe_eq] at ht
      obtain ⟨rfl, hs, hall⟩ := tagBy_some ht
      have hserver : dollarTag postgresLexis (tag ++ '$' :: r) = some (tag, r) := by
        refine tagBy_append rfl rfl (fun c hc => tagStart_ident (hs c hc)) ?_ r
        rw [List.all_eq_true] at hall ⊢
        intro c hc
        obtain ⟨hident, hne⟩ := tagChar_ident (hall c hc)
        simp [hident, hne]
      rw [hserver] at h
      cases h

/-- A tag the guard sees in a word and the text after it lies in the word. -/
theorem dollarTagRe_append {t r : List Char}
    (hr : ∀ c ∈ r.head?, postgresLexis.identChar c = false)
    (h : dollarTagRe t = none) : dollarTagRe (t ++ r) = none := by
  cases ht : dollarTagRe (t ++ r) with
  | none => rfl
  | some p =>
      obtain ⟨tag, r'⟩ := p
      rw [dollarTagRe_eq] at ht
      obtain ⟨heq, hs, hall⟩ := tagBy_some ht
      -- The tag and its `$` are identifier characters, so they end before `r` starts.
      have hident : ∀ c ∈ tag ++ ['$'], postgresLexis.identChar c = true := by
        intro c hc
        rw [List.mem_append, List.mem_singleton] at hc
        obtain hc | rfl := hc
        · cases tag with
          | nil => simp at hc
          | cons d tag =>
              rw [List.mem_cons] at hc
              obtain rfl | hc := hc
              · exact postgresLexis.start_char c (tagStart_ident (by simpa using hs))
              · exact (tagChar_ident (List.all_eq_true.mp hall c hc)).1
        · rfl
      have hinit : ∃ u, t = tag ++ '$' :: u := by
        have heq' : t ++ r = (tag ++ ['$']) ++ r' := by simpa using heq
        obtain ⟨u, hu, hur⟩ | ⟨u, hu, -⟩ := List.append_eq_append_iff.mp heq'
        · cases u with
          | nil => exact ⟨[], by simpa using hu.symm⟩
          | cons d u =>
              have hd : d ∈ tag ++ ['$'] := by
                rw [hu]
                simp
              have hr' := hr d (by rw [hur]; simp)
              rw [hident d hd] at hr'
              cases hr'
        · exact ⟨u, by simpa using hu⟩
      obtain ⟨u, rfl⟩ := hinit
      rw [dollarTagRe_eq, tagBy_append rfl rfl hs hall u] at h
      cases h

/-! ### One token -/

variable {uw : Char → Bool} {r : Re} {left : Left} {out out' : List (List Char)}

/-- The guard emits a word character by character. -/
theorem stripFrom_word (keep : Bool) (out : List (List Char)) {w rest : List Char}
    (hw : ∀ c ∈ w, (serverLexis driver).identChar c = true)
    (hdollar : (serverLexis driver).dollarQuotes = true → holdsDollarTag w = false)
    (hrest : ∀ c ∈ rest.head?, (serverLexis driver).identChar c = false) :
    ∃ out₁, stripFrom driver keep out (w ++ rest) = stripFrom driver keep out₁ rest ∧
      emitted out₁ = emitted out ++ w := by
  induction w generalizing out with
  | nil => exact ⟨out, rfl, by simp⟩
  | cons c w ih =>
      have hq : simpleQuotesFor driver c = none := by
        cases hc : simpleQuotesFor driver c with
        | none => rfl
        | some q =>
            rw [← serverLexis_quotes] at hc
            have hident := hw c (by simp)
            rw [(serverLexis driver).quote_sep c q hc] at hident
            cases hident
      have hd : driver ≠ .mssql → c = '$' → dollarTagRe (w ++ rest) = none := by
        rintro hne rfl
        have hnone := hdollar ((serverLexis_dollarQuotes driver).mpr hne)
        obtain rfl : driver = .postgres := by
          cases driver with
          | postgres => rfl
          | mssql => exact absurd rfl hne
        refine dollarTagRe_append hrest ?_
        simp only [holdsDollarTag, beq_self_eq_true, Bool.true_and, Bool.or_eq_false_iff,
          Option.isSome_eq_false_iff, Option.isNone_iff_eq_none] at hnone
        exact hnone.1
      have hdollar' : (serverLexis driver).dollarQuotes = true → holdsDollarTag w = false := by
        intro h
        have := hdollar h
        rw [holdsDollarTag, Bool.or_eq_false_iff] at this
        exact this.2
      obtain ⟨out₁, hstrip, hemit⟩ :=
        @ih ([c] :: out) (fun d hd => hw d (by simp [hd])) hdollar'
      refine ⟨out₁, ?_, ?_⟩
      · rw [List.cons_append, stripFrom_char hq hd, hstrip]
      · rw [hemit, emitted_cons, List.append_assoc]
        rfl

/-- Before an identifier stands no word character, or a digit. -/
theorem Trails.last {c : Char} {t : List Char}
    (h : Trails (serverLexis driver) left out (c :: t))
    (hs : (serverLexis driver).identStart c = true) (hdigit : left.isDigit = false) :
    (emitted out).getLast?.any (pyWord uw) = false := by
  cases left with
  | start =>
      rw [Trails] at h
      rw [h]
      rfl
  | char d =>
      obtain ⟨hout, hd⟩ := h
      obtain ⟨rest, rfl⟩ := List.head?_eq_some_iff.mp hout
      rw [emitted_cons, List.getLast?_concat, Option.any_some]
      by_contra hword
      rw [Bool.not_eq_false] at hword
      have hisDigit := (isDigit_of_pyWord hd hword).2
      rw [Left.isDigit, hisDigit] at hdigit
      cases hdigit
  | word =>
      have hident := h c (by simp)
      rw [(serverLexis driver).start_char c hs] at hident
      cases hident
  | region =>
      obtain ⟨s, hout⟩ := h
      obtain ⟨rest, rfl⟩ := List.head?_eq_some_iff.mp hout
      rw [emitted_cons, ← List.append_assoc, List.getLast?_concat]
      rfl

/-- The guard takes an `E` that the server takes for an escape prefix for one too. -/
theorem Trails.escape {c : Char} {t : List Char}
    (h : Trails (serverLexis driver) left out (c :: t))
    (hs : (serverLexis driver).identStart c = true) (hc : c = 'e' ∨ c = 'E')
    (hleft : left.isDigitOrDollar = false) : isEscapeStringPrefix ([c] :: out) = true := by
  have hE : ([c] == ['E'] || [c] == ['e']) = true := by
    obtain rfl | rfl := hc <;> rfl
  have piece : ∀ s, out.head? = some s → isIdentPiece s = false →
      isEscapeStringPrefix ([c] :: out) = true := by
    intro s hout hs
    obtain ⟨rest, rfl⟩ := List.head?_eq_some_iff.mp hout
    rw [isEscapeStringPrefix, hE, hs]
    rfl
  cases left with
  | start =>
      rw [Trails] at h
      rw [h]
      exact hE
  | char d =>
      obtain ⟨hout, hd⟩ := h
      rw [Left.isDigitOrDollar, Bool.or_eq_false_iff, beq_eq_false_iff_ne] at hleft
      exact piece [d] hout (isIdentPiece_single hd hleft.1 hleft.2)
  | word =>
      have hident := h c (by simp)
      rw [(serverLexis driver).start_char c hs] at hident
      cases hident
  | region =>
      obtain ⟨s, hout⟩ := h
      refine piece (s ++ [' ']) hout ?_
      match s with
      | [] => rfl
      | [_] => rfl
      | _ :: _ :: _ => rfl

/-! ### The whole text -/

/-- A comment opener shows in the text, or every token does. -/
def AllShown (uw : Char → Bool) (keep : Bool) (r : Re) (T : List Char) (ks : List Token) : Prop :=
  (∃ o, .comment o ∈ ks ∧ (o = ['-', '-'] ∨ o = ['/', '*']) ∧ o <:+: T) ∨
    ∀ k ∈ ks, Shown uw keep r T k

theorem AllShown.cons {T : List Char} {k : Token} {ks : List Token}
    (hk : Shown uw keep r T k) (h : AllShown uw keep r T ks) : AllShown uw keep r T (k :: ks) := by
  obtain ⟨o, ho, hshow⟩ | h := h
  · exact Or.inl ⟨o, List.mem_cons_of_mem k ho, hshow⟩
  · refine Or.inr ?_
    intro k' hk'
    rw [List.mem_cons] at hk'
    obtain rfl | hk' := hk'
    · exact hk
    · exact h k' hk'

set_option maxRecDepth 2000 in
/-- Neither expression of the guard reads a quote. -/
theorem classes_unquoted (hr : r = forbiddenRe ∨ r = forbiddenFnRe uw) {o q : Char}
    (hq : simpleQuotesFor driver o = some q) : ∀ p ∈ r.classes, p q = false := by
  have hall : ∀ q, q = '\'' ∨ q = '"' ∨ q = ']' → r.classes.all (fun p => !p q) = true := by
    rintro q (rfl | rfl | rfl) <;> obtain rfl | rfl := hr <;> rfl
  have hcloser : q = '\'' ∨ q = '"' ∨ q = ']' := by
    rw [simpleQuotesFor] at hq
    split at hq
    · exact Or.inl (Option.some.inj hq).symm
    · split at hq
      · exact Or.inr (Or.inl (Option.some.inj hq).symm)
      · split at hq
        · exact Or.inr (Or.inr (Option.some.inj hq).symm)
        · cases hq
  intro p hp
  simpa using List.all_eq_true.mp (hall q hcloser) p hp

private theorem word_shown (hr : r = forbiddenRe ∨ r = forbiddenFnRe uw) {c : Char}
    {t w rest : List Char} (htrail : Trails (serverLexis driver) left out (c :: t))
    (hs : (serverLexis driver).identStart c = true)
    (hgap : gap uw (serverLexis driver) left (.word w) = false)
    (hrest : ∀ c ∈ rest.head?, (serverLexis driver).identChar c = false)
    {out₁ : List (List Char)} (hemit : emitted out₁ = emitted out ++ w)
    (h : stripFrom driver keep out₁ rest = .ok out') :
    Shown uw keep r (emitted out') (.word w) := by
  intro hhit
  -- A word glued to a digit is no hit.
  have hdigit : left.isDigit = false := by
    by_contra hd
    rw [Bool.not_eq_false] at hd
    rw [gap, hd] at hgap
    obtain rfl | rfl := hr <;> simp [hhit] at hgap
  obtain ⟨u, hu, hhead⟩ := stripFrom_emits h
  rw [hu, hemit]
  refine hits_between hhit (htrail.last hs hdigit) ?_
  cases hh : u.head? with
  | none => rfl
  | some d =>
      rw [Option.any_some]
      by_contra hword
      rw [Bool.not_eq_false] at hword
      obtain rfl | hd := hhead d hh
      · cases hword
      · have hident := hrest d hd
        rw [identChar_of_pyWord driver hword] at hident
        cases hident

/-- **Away from the gaps the guard keeps in step with the server.** -/
theorem lockstep (hr : r = forbiddenRe ∨ r = forbiddenFnRe uw) {t : List Char}
    (h : stripFrom driver keep out t = .ok out')
    (htrail : Trails (serverLexis driver) left out t)
    (hgap : gapFree uw (serverLexis driver) left (tokenize (serverLexis driver) t) = true) :
    AllShown uw keep r (emitted out') (tokenize (serverLexis driver) t) := by
  induction t using tokenize_induction (serverLexis driver) generalizing out left with
  | nil => exact Or.inr (by simp [tokenize, tokens])
  | cons c t ih =>
      have hreads := next_reads (serverLexis driver) c t
      rw [tokenize_cons] at hgap ⊢
      generalize next (serverLexis driver) c t = p at hreads hgap ih ⊢
      obtain ⟨k, rest⟩ := p
      rw [gapFree, Bool.and_eq_true, Bool.not_eq_true'] at hgap
      obtain ⟨hgapk, hgap⟩ := hgap
      cases hreads with
      | @quoted q n _ hq hb =>
          rw [serverLexis_quotes] at hq
          obtain ⟨-, n', rest', hb', hstrip⟩ := stripFrom_quote hq h
          rw [hb, Option.some.injEq, Prod.mk.injEq] at hb'
          obtain ⟨rfl, rfl⟩ := hb'
          have htrail' : Trails (serverLexis driver) .region
              (blanked keep c (double q n) :: out) rest := by
            obtain ⟨s, hs⟩ := blanked_last keep c (double q n)
            exact ⟨s, by rw [hs]; rfl⟩
          refine AllShown.cons ?_ (ih hstrip htrail' hgap)
          intro hkeep ho hhit
          obtain ⟨u, hu, -⟩ := stripFrom_emits hstrip
          have hpiece : blanked keep c (double q n) = [' '] ++ double q n ++ [' '] := by
            simp [blanked, hkeep, ho]
          rw [hu, emitted_cons, hpiece]
          have hhit' := hits_double (classes_unquoted hr hq) hhit
          have hbetween := hits_between (s := emitted out ++ [' ']) (u := ' ' :: u) hhit'
            (by rw [List.getLast?_concat]; rfl) rfl
          simpa using hbetween
      | unterminated o => exact Or.inr (by simp [tokenize, tokens, Shown])
      | word hs =>
          have hw : ∀ d ∈ c :: t.takeWhile (serverLexis driver).identChar,
              (serverLexis driver).identChar d = true := by
            intro d hd
            rw [List.mem_cons] at hd
            obtain rfl | hd := hd
            · exact (serverLexis driver).start_char d hs
            · exact List.mem_takeWhile_imp hd
          have hdollar : (serverLexis driver).dollarQuotes = true →
              holdsDollarTag (c :: t.takeWhile (serverLexis driver).identChar) = false := by
            intro hd
            rw [gap, hd, Bool.or_eq_false_iff] at hgapk
            simpa using hgapk.1
          have hrest : ∀ d ∈ (t.dropWhile (serverLexis driver).identChar).head?,
              (serverLexis driver).identChar d = false := by
            intro d hd
            have := List.head?_dropWhile_not (serverLexis driver).identChar t
            rw [hd] at this
            simpa using this
          obtain ⟨out₁, hstrip, hemit⟩ := stripFrom_word keep out hw hdollar hrest
          rw [List.cons_append, List.takeWhile_append_dropWhile, h] at hstrip
          have htrail' : Trails (serverLexis driver) .word out₁
              (t.dropWhile (serverLexis driver).identChar) := hrest
          refine AllShown.cons ?_ (ih hstrip.symm htrail' hgap)
          exact word_shown hr htrail hs hgapk hrest hemit hstrip.symm
      | escape hs he hc ht hb =>
          -- The guard refuses the string, so it did not get this far.
          rw [gap] at hgapk
          have hinit := htrail.escape hs hc hgapk
          have hq : simpleQuotesFor driver c = none := by
            obtain rfl | rfl := hc <;> cases driver <;> rfl
          have hne : c ≠ '$' := by obtain rfl | rfl := hc <;> decide
          rw [ht, stripFrom_char hq fun _ hd => absurd hd hne] at h
          have hquote : simpleQuotesFor driver '\'' = some '\'' := rfl
          rw [(stripFrom_quote hquote h).1 rfl] at hinit
          cases hinit
      | dollar hs hd hc ht hb =>
          subst hc
          have hdriver := (serverLexis_dollarQuotes driver).mp hd
          obtain rfl : driver = .postgres := by
            cases driver with
            | postgres => rfl
            | mssql => exact absurd rfl hdriver
          rw [gap, Bool.not_eq_false'] at hgapk
          have hstrip := stripFrom_dollar hdriver (dollarTagRe_of_server ht hgapk) hb h
          have htrail' : Trails (serverLexis .postgres) .region ([' '] :: out) rest := ⟨[], rfl⟩
          exact AllShown.cons trivial (ih hstrip htrail' hgap)
      | lineComment hc ht =>
          subst hc
          obtain ⟨t', rfl⟩ := List.head?_eq_some_iff.mp ht
          have hq : simpleQuotesFor driver '-' = none := by cases driver <;> rfl
          rw [stripFrom_char hq (by simp), stripFrom_char hq (by simp)] at h
          obtain ⟨u, hu, -⟩ := stripFrom_emits h
          refine Or.inl ⟨['-', '-'], by simp, Or.inl rfl, emitted out, u, ?_⟩
          rw [hu]
          simp
      | blockComment hc ht =>
          subst hc
          obtain ⟨t', rfl⟩ := List.head?_eq_some_iff.mp ht
          have hq : simpleQuotesFor driver '/' = none := by cases driver <;> rfl
          have hq' : simpleQuotesFor driver '*' = none := by cases driver <;> rfl
          rw [stripFrom_char hq (by simp), stripFrom_char hq' (by simp)] at h
          obtain ⟨u, hu, -⟩ := stripFrom_emits h
          refine Or.inl ⟨['/', '*'], by simp, Or.inr rfl, emitted out, u, ?_⟩
          rw [hu]
          simp
      | other hq hs hd =>
          rw [serverLexis_quotes] at hq
          have hdollar : driver ≠ .mssql → c = '$' → dollarTagRe rest = none := by
            intro hdriver hc
            have hnone := hd ((serverLexis_dollarQuotes driver).mpr hdriver) hc
            cases driver with
            | postgres => exact dollarTagRe_none hnone
            | mssql => exact absurd rfl hdriver
          rw [stripFrom_char hq hdollar] at h
          have htrail' : Trails (serverLexis driver) (.char c) ([c] :: out) rest := ⟨rfl, hs⟩
          refine AllShown.cons ?_ (ih h htrail' hgap)
          obtain ⟨u, hu, -⟩ := stripFrom_emits h
          rw [Shown, hu, emitted_cons]
          simp

end CyClaw.Sql
