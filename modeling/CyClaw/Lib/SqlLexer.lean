/-
The lexical structure of SQL, as a database server reads it.

Dialects differ in what an identifier is and in which quoting forms they have; the rest
is common.  `Lexis` holds the differences, and carries as fields the facts every dialect
shares: the characters that open a quoted region or a comment belong to no identifier.

`next` reads one token and `tokenize` a whole text.  A region the text does not close
ends the tokens: a server refuses such a text, so there is nothing after it to read.
`next_reads` says once what `next` can do, and everything else is derived from that.
-/
import Mathlib.Data.List.TakeWhile
import CyClaw.Lib.PyText

namespace SqlLex

open PyText

/-- What a dialect chooses. -/
structure Lexis where
  identStart : Char → Bool
  identChar : Char → Bool
  /-- The closer of a quoted region whose closer is escaped by doubling it. -/
  quotes : Char → Option Char
  /-- `E'...'`, where a backslash escapes. -/
  escapeStrings : Bool
  /-- `$tag$...$tag$`. -/
  dollarQuotes : Bool
  start_char : ∀ c, identStart c = true → identChar c = true
  quote_sep : ∀ c q, quotes c = some q → identChar c = false
  dash_sep : identChar '-' = false
  slash_sep : identChar '/' = false

inductive Token where
  | word (w : List Char)
  /-- A quoted region, with doubled closers read as one. -/
  | quoted (opener : Char) (name : List Char)
  | escape (body : List Char)
  | dollar (tag body : List Char)
  | comment (opener : List Char)
  | unterminated (opener : Char)
  | other (c : Char)
deriving DecidableEq, Repr

/-- The inside of a region that `q` closes, and what follows it. -/
def quotedBody (q : Char) : List Char → Option (List Char × List Char)
  | [] => none
  | [c] => if c = q then some ([], []) else none
  | c :: d :: t =>
      if c = q then
        if d = q then (quotedBody q t).map fun (n, r) => (q :: n, r)
        else some ([], d :: t)
      else (quotedBody q (d :: t)).map fun (n, r) => (c :: n, r)

/-- The inside of an escape string, escapes left as written, and what follows it. -/
def escapeBody : List Char → Option (List Char × List Char)
  | [] => none
  | [c] => if c = '\'' then some ([], []) else none
  | c :: d :: t =>
      if c = '\\' ∨ c = '\'' ∧ d = '\'' then
        (escapeBody t).map fun (b, r) => (c :: d :: b, r)
      else if c = '\'' then some ([], d :: t)
      else (escapeBody (d :: t)).map fun (b, r) => (c :: b, r)

/-- Past the end of a block comment; block comments nest. -/
def skipBlock : Nat → List Char → List Char
  | _, [] => []
  | _, [_] => []
  | depth, c :: d :: t =>
      if c = '*' ∧ d = '/' then
        match depth with
        | 0 => t
        | depth + 1 => skipBlock depth t
      else if c = '/' ∧ d = '*' then skipBlock (depth + 1) t
      else skipBlock depth (d :: t)

/-- Past the end of a line comment. -/
def skipLine (t : List Char) : List Char := t.dropWhile fun c => c != '\n' && c != '\r'

/-- The tag of a dollar quote, read after its first `$`, and what follows the second; `start`
and `rest` say what tags are made of. -/
def tagBy (start rest : Char → Bool) : List Char → Option (List Char × List Char)
  | [] => none
  | c :: t =>
      if c = '$' then some ([], t)
      else if start c then
        match t.dropWhile rest with
        | '$' :: r => some (c :: t.takeWhile rest, r)
        | _ => none
      else none

/-- A tag is empty or an identifier without `$`. -/
def dollarTag (lx : Lexis) : List Char → Option (List Char × List Char) :=
  tagBy lx.identStart fun d => lx.identChar d && d != '$'

/-- The marker that opens and closes a dollar quote. -/
def dollarMark (tag : List Char) : List Char := '$' :: tag ++ ['$']

/-- The token at the start of `c :: t`, and the text after it. -/
def next (lx : Lexis) (c : Char) (t : List Char) : Token × List Char :=
  match lx.quotes c with
  | some q =>
      match quotedBody q t with
      | some (n, r) => (.quoted c n, r)
      | none => (.unterminated c, [])
  | none =>
      if lx.identStart c then
        match lx.escapeStrings && (c == 'e' || c == 'E'), t with
        | true, '\'' :: t' =>
            match escapeBody t' with
            | some (b, r) => (.escape b, r)
            | none => (.unterminated '\'', [])
        | _, _ => (.word (c :: t.takeWhile lx.identChar), t.dropWhile lx.identChar)
      else if lx.dollarQuotes && c == '$' then
        match dollarTag lx t with
        | some (tag, t') =>
            match splitAt? (dollarMark tag) t' with
            | some (b, r) => (.dollar tag b, r)
            | none => (.unterminated c, [])
        | none => (.other c, t)
      else if c == '-' && t.head? == some '-' then (.comment ['-', '-'], skipLine t)
      else if c == '/' && t.head? == some '*' then (.comment ['/', '*'], skipBlock 0 t.tail)
      else (.other c, t)

def tokens (lx : Lexis) : Nat → List Char → List Token
  | 0, _ => []
  | _, [] => []
  | n + 1, c :: t => (next lx c t).1 :: tokens lx n (next lx c t).2

/-- The tokens of a text.  A token takes at least one character. -/
def tokenize (lx : Lexis) (t : List Char) : List Token := tokens lx t.length t

/-! ### What one token can be -/

variable {lx : Lexis}

inductive Reads (lx : Lexis) (c : Char) (t : List Char) : Token → List Char → Prop
  | quoted {q n r} (hq : lx.quotes c = some q) (hb : quotedBody q t = some (n, r)) :
      Reads lx c t (.quoted c n) r
  | unterminated (o) : Reads lx c t (.unterminated o) []
  | word (hs : lx.identStart c = true) :
      Reads lx c t (.word (c :: t.takeWhile lx.identChar)) (t.dropWhile lx.identChar)
  | escape {t' b r} (hs : lx.identStart c = true) (he : lx.escapeStrings = true)
      (hc : c = 'e' ∨ c = 'E') (ht : t = '\'' :: t') (hb : escapeBody t' = some (b, r)) :
      Reads lx c t (.escape b) r
  | dollar {tag t' b r} (hs : lx.identStart c = false) (hd : lx.dollarQuotes = true) (hc : c = '$')
      (ht : dollarTag lx t = some (tag, t')) (hb : splitAt? (dollarMark tag) t' = some (b, r)) :
      Reads lx c t (.dollar tag b) r
  | lineComment (hc : c = '-') (ht : t.head? = some '-') :
      Reads lx c t (.comment ['-', '-']) (skipLine t)
  | blockComment (hc : c = '/') (ht : t.head? = some '*') :
      Reads lx c t (.comment ['/', '*']) (skipBlock 0 t.tail)
  | other (hq : lx.quotes c = none) (hs : lx.identStart c = false)
      (hd : lx.dollarQuotes = true → c = '$' → dollarTag lx t = none) :
      Reads lx c t (.other c) t

theorem next_reads (lx : Lexis) (c : Char) (t : List Char) :
    Reads lx c t (next lx c t).1 (next lx c t).2 := by
  unfold next
  split
  · rename_i q hq
    split
    · rename_i n r hb
      exact .quoted hq hb
    · exact .unterminated c
  · rename_i hq
    split
    · rename_i hs
      split
      · rename_i t' he
        rw [Bool.and_eq_true, Bool.or_eq_true, beq_iff_eq, beq_iff_eq] at he
        split
        · rename_i b r hb
          exact .escape hs he.1 he.2 rfl hb
        · exact .unterminated _
      · exact .word hs
    · rename_i hs
      rw [Bool.not_eq_true] at hs
      split
      · rename_i hd
        rw [Bool.and_eq_true, beq_iff_eq] at hd
        split
        · rename_i tag t' ht
          split
          · rename_i b r hb
            exact .dollar hs hd.1 hd.2 ht hb
          · exact .unterminated c
        · rename_i ht
          exact .other hq hs fun _ _ => ht
      · rename_i hd
        have hd' : lx.dollarQuotes = true → c = '$' → dollarTag lx t = none := by
          rintro hd' rfl
          simp [hd'] at hd
        split
        · rename_i hc
          rw [Bool.and_eq_true, beq_iff_eq, beq_iff_eq] at hc
          obtain ⟨rfl, ht⟩ := hc
          exact .lineComment rfl ht
        · split
          · rename_i hc
            rw [Bool.and_eq_true, beq_iff_eq, beq_iff_eq] at hc
            obtain ⟨rfl, ht⟩ := hc
            exact .blockComment rfl ht
          · exact .other hq hs hd'

/-! ### Reading makes progress -/

theorem length_quotedBody {q : Char} {t n r : List Char} (h : quotedBody q t = some (n, r)) :
    r.length ≤ t.length := by
  fun_induction quotedBody q t generalizing n r with
  | case1 => simp at h
  | case2 => simp_all
  | case3 => simp at h
  | case4 t ih =>
      simp only [Option.map_eq_some_iff, Prod.exists, Prod.mk.injEq] at h
      obtain ⟨n', r', hb, -, rfl⟩ := h
      have := ih hb
      simp only [List.length_cons]
      omega
  | case5 d t hd => simp_all
  | case6 c d t hc ih =>
      simp only [Option.map_eq_some_iff, Prod.exists, Prod.mk.injEq] at h
      obtain ⟨n', r', hb, -, rfl⟩ := h
      have := ih hb
      simp only [List.length_cons] at this ⊢
      omega

theorem length_escapeBody {t b r : List Char} (h : escapeBody t = some (b, r)) :
    r.length ≤ t.length := by
  fun_induction escapeBody t generalizing b r with
  | case1 => simp at h
  | case2 => simp_all
  | case3 => simp at h
  | case4 c d t hc ih =>
      simp only [Option.map_eq_some_iff, Prod.exists, Prod.mk.injEq] at h
      obtain ⟨b', r', hb, -, rfl⟩ := h
      have := ih hb
      simp only [List.length_cons]
      omega
  | case5 => simp_all
  | case6 c d t hc hc' ih =>
      simp only [Option.map_eq_some_iff, Prod.exists, Prod.mk.injEq] at h
      obtain ⟨b', r', hb, -, rfl⟩ := h
      have := ih hb
      simp only [List.length_cons] at this ⊢
      omega

theorem length_skipBlock (depth : Nat) (t : List Char) :
    (skipBlock depth t).length ≤ t.length := by
  fun_induction skipBlock depth t with
  | case1 => simp
  | case2 => simp
  | case3 => simp; omega
  | case4 => simp; omega
  | case5 => simp; omega
  | case6 => simp_all; omega

private theorem span_of_append {p : Char → Bool} {a r : List Char} {d : Char}
    (ha : a.all p = true) (hd : p d = false) :
    (a ++ d :: r).takeWhile p = a ∧ (a ++ d :: r).dropWhile p = d :: r := by
  rw [List.all_eq_true] at ha
  constructor
  · rw [List.takeWhile_append_of_pos ha]
    simp [hd]
  · rw [List.dropWhile_append_of_pos ha]
    simp [hd]

theorem tagBy_some {start rest : Char → Bool} {t tag r : List Char}
    (h : tagBy start rest t = some (tag, r)) :
    t = tag ++ '$' :: r ∧ (∀ c ∈ tag.head?, start c = true) ∧ tag.tail.all rest = true := by
  cases t with
  | nil => simp [tagBy] at h
  | cons c t =>
      rw [tagBy] at h
      split at h
      · rename_i hc
        simp only [Option.some.injEq, Prod.mk.injEq] at h
        simp [← h.1, ← h.2, hc]
      · split at h
        · rename_i hs
          split at h
          · rename_i r' hr
            simp only [Option.some.injEq, Prod.mk.injEq] at h
            obtain ⟨rfl, rfl⟩ := h
            refine ⟨?_, by simpa using hs, List.all_takeWhile⟩
            rw [List.cons_append, ← hr, List.takeWhile_append_dropWhile]
          · simp at h
        · simp at h

theorem tagBy_append {start rest : Char → Bool} (hstart : start '$' = false)
    (hrest : rest '$' = false) {tag : List Char} (hs : ∀ c ∈ tag.head?, start c = true)
    (hall : tag.tail.all rest = true) (r : List Char) :
    tagBy start rest (tag ++ '$' :: r) = some (tag, r) := by
  cases tag with
  | nil => simp [tagBy]
  | cons c tag =>
      have hs' : start c = true := by simpa using hs
      have hc : c ≠ '$' := by
        rintro rfl
        rw [hstart] at hs'
        cases hs'
      rw [List.tail_cons] at hall
      obtain ⟨htake, hdrop⟩ := span_of_append (r := r) hall hrest
      simp only [tagBy, List.cons_append, hc, if_false, hs', if_true, hdrop, htake]

theorem reads_length {c : Char} {t r : List Char} {k : Token} (h : Reads lx c t k r) :
    r.length ≤ t.length := by
  cases h with
  | quoted hq hb => exact length_quotedBody hb
  | unterminated o => simp
  | word hs => exact List.length_dropWhile_le _ _
  | escape hs he hc ht hb =>
      have := length_escapeBody hb
      rw [ht, List.length_cons]
      omega
  | dollar hs hd hc ht hb =>
      have hlt := length_splitAt?_lt hb (by simp [dollarMark])
      rw [(tagBy_some ht).1, List.length_append, List.length_cons]
      omega
  | lineComment hc ht => exact List.length_dropWhile_le _ _
  | blockComment hc ht =>
      have := length_skipBlock 0 t.tail
      rw [List.length_tail] at this
      omega
  | other hq hs hd => exact Nat.le_refl _

theorem tokens_fuel {n m : Nat} {t : List Char} (hn : t.length ≤ n) (hm : t.length ≤ m) :
    tokens lx n t = tokens lx m t := by
  induction n generalizing m t with
  | zero =>
      obtain rfl : t = [] := List.length_eq_zero_iff.mp (by omega)
      cases m <;> rfl
  | succ n ih =>
      cases t with
      | nil => cases m <;> rfl
      | cons c t =>
          have hlen := reads_length (next_reads lx c t)
          rw [List.length_cons] at hn hm
          obtain ⟨m, rfl⟩ : ∃ m', m = m' + 1 := ⟨m - 1, by omega⟩
          rw [tokens, tokens, ih (m := m) (by omega) (by omega)]

theorem tokenize_cons (lx : Lexis) (c : Char) (t : List Char) :
    tokenize lx (c :: t) = (next lx c t).1 :: tokenize lx (next lx c t).2 := by
  have hlen := reads_length (next_reads lx c t)
  rw [tokenize, List.length_cons, tokens, tokenize, tokens_fuel hlen (Nat.le_refl _)]

/-- **Induction along the tokens of a text.** -/
theorem tokenize_induction (lx : Lexis) {motive : List Char → Prop} (nil : motive [])
    (cons : ∀ c t, motive (next lx c t).2 → motive (c :: t)) (t : List Char) : motive t := by
  induction hn : t.length using Nat.strong_induction_on generalizing t with
  | _ n ih =>
      cases t with
      | nil => exact nil
      | cons c t =>
          have hlen := reads_length (next_reads lx c t)
          rw [List.length_cons] at hn
          exact cons c t (ih _ (by omega) _ rfl)

end SqlLex
