/-
Words of a POSIX shell.

`commands` reads a script of simple commands: words parted by blanks, with single and double
quotes and backslashes taken away, one command a line, comments left out.  It gives `none`
where a quote is left open, and where the script has anything that a shell would expand or
take for an operator, since what such a script does is not decided here.

A character keeps whether it was quoted, as a quoted name is none.  `lex_single` is the lemma
about single quotes: they keep everything.
-/
import Mathlib.Data.List.Basic
import Mathlib.Data.Nat.Notation

namespace Shell

abbrev Text := List Char

/-- A word with, for each character, whether it was quoted. -/
abbrev Word := List (Char × Bool)

inductive Mode where
  | plain
  | single
  | double
  | comment

def quote (t : Text) : Word := t.map (·, true)

def bare (t : Text) : Word := t.map (·, false)

def isBlank (c : Char) : Bool := c = ' ' || c = '\t'

/-- What a shell expands or takes for an operator when it is not quoted. -/
def isSpecial (c : Char) : Bool :=
  c ∈ ['$', '`', ';', '&', '|', '<', '>', '(', ')', '*', '?', '[', '~', '!', '\x7b', '\x7d']

/-- The words of a command, with the word that is being read. -/
def close (words : List Word) (word : Option Word) : List Word := words ++ word.toList

/-- A command before others, unless it has no words. -/
def emit (words : List Word) (commands : List (List Word)) : List (List Word) :=
  if words = [] then commands else words :: commands

/-- Reading on, with the words so far and the one that is being read. -/
def lex : Mode → List Word → Option Word → Text → Option (List (List Word))
  | .plain, words, word, [] => some (emit (close words word) [])
  | .plain, words, word, '\\' :: '\n' :: cs => lex .plain words word cs
  | .plain, words, word, '\\' :: c :: cs => lex .plain words (some (word.getD [] ++ [(c, true)])) cs
  | .plain, words, word, c :: cs =>
      if c = '\n' then (lex .plain [] none cs).map (emit (close words word))
      else if isBlank c then lex .plain (close words word) none cs
      else if c = '#' && word.isNone then lex .comment words none cs
      else if c = '\'' then lex .single words (some (word.getD [])) cs
      else if c = '"' then lex .double words (some (word.getD [])) cs
      else if isSpecial c then none
      else lex .plain words (some (word.getD [] ++ [(c, false)])) cs
  | .single, _, _, [] => none
  | .single, words, word, c :: cs =>
      if c = '\'' then lex .plain words word cs
      else lex .single words (some (word.getD [] ++ [(c, true)])) cs
  | .double, _, _, [] => none
  | .double, words, word, '\\' :: '\n' :: cs => lex .double words word cs
  | .double, words, word, '\\' :: c :: cs =>
      if c = '"' || c = '\\' || c = '$' || c = '`' then
        lex .double words (some (word.getD [] ++ [(c, true)])) cs
      else lex .double words (some (word.getD [] ++ [('\\', true), (c, true)])) cs
  | .double, words, word, c :: cs =>
      if c = '"' then lex .plain words word cs
      else if c = '$' || c = '`' then none
      else lex .double words (some (word.getD [] ++ [(c, true)])) cs
  | .comment, words, _, [] => some (emit words [])
  | .comment, words, _, c :: cs =>
      if c = '\n' then (lex .plain [] none cs).map (emit words) else lex .comment words none cs

/-- The commands of a script. -/
def commands (script : Text) : Option (List (List Word)) := lex .plain [] none script

/-! ### Assignments -/

structure Assignment where
  exported : Bool
  name : Text
  value : Text
deriving DecidableEq, Repr

def isNameChar (c : Char) : Bool := c.isAlphanum || c = '_'

def isName (t : Text) : Bool := t.head?.any (fun c => !c.isDigit) && t.all isNameChar

def Word.text (w : Word) : Text := w.map Prod.fst

/-- `NAME=value`, with neither the name nor the sign quoted. -/
def assignment (exported : Bool) (w : Word) : Option Assignment :=
  let name := w.takeWhile fun c => isNameChar c.1 && !c.2
  match w.drop name.length with
  | ('=', false) :: value => if isName (Word.text name) then some ⟨exported, Word.text name, Word.text value⟩ else none
  | _ => none

/-- What a command assigns: the assignments before its name, and those that `export` is given,
whose quotes are gone by then. -/
def assignmentsOf : List Word → List Assignment
  | [] => []
  | w :: words =>
      match assignment false w with
      | some a => a :: assignmentsOf words
      | none =>
          if Word.text w = "export".toList then words.filterMap fun w => assignment true (bare (Word.text w)) else []

/-- The assignments of a script. -/
def assignments (script : Text) : Option (List Assignment) := (commands script).map (·.flatMap assignmentsOf)

/-! ### Reading what is written -/

/-- A character that stands for itself. -/
def isPlain (c : Char) : Bool :=
  c ≠ '\\' && c ≠ '\n' && !isBlank c && c ≠ '#' && c ≠ '\'' && c ≠ '"' && !isSpecial c

/-- A single quote is closed, escaped and opened again. -/
def escape (c : Char) : Text := if c = '\'' then "'\\''".toList else [c]

def singleQuoted (t : Text) : Text := '\'' :: t.flatMap escape ++ ['\'']

section Reading

attribute [local simp] lex

variable {words : List Word} {word : Option Word} {w : Word} {t rest : Text}

theorem lex_plain_cons {c : Char} (h : isPlain c = true) :
    lex .plain words word (c :: rest) = lex .plain words (some (word.getD [] ++ [(c, false)])) rest := by
  unfold isPlain at h
  simp only [Bool.and_eq_true, Bool.not_eq_true', ne_eq, decide_not, decide_eq_false_iff_not] at h
  obtain ⟨⟨⟨⟨⟨⟨hslash, hnewline⟩, hblank⟩, hhash⟩, hsingle⟩, hdouble⟩, hspecial⟩ := h
  rw [lex]
  · simp [hnewline, hblank, hhash, hsingle, hdouble, hspecial]
  · rintro cs rfl
    exact absurd rfl hslash
  · rintro d cs rfl
    exact absurd rfl hslash

theorem lex_plain_append (h : ∀ c ∈ t, isPlain c = true) :
    lex .plain words (some w) (t ++ rest) = lex .plain words (some (w ++ bare t)) rest := by
  induction t generalizing w with
  | nil =>
    unfold bare
    rw [List.nil_append, List.map_nil, List.append_nil]
  | cons c t ih =>
    rw [List.cons_append, lex_plain_cons (h c List.mem_cons_self), Option.getD_some,
      ih fun d hd => h d (List.mem_cons_of_mem c hd), List.append_assoc]
    rfl

/-- A word that begins. -/
theorem lex_plain_word (ht : t ≠ []) (h : ∀ c ∈ t, isPlain c = true) :
    lex .plain words none (t ++ rest) = lex .plain words (some (bare t)) rest := by
  cases t with
  | nil => exact absurd rfl ht
  | cons c t =>
    rw [List.cons_append, lex_plain_cons (h c List.mem_cons_self), Option.getD_none, List.nil_append,
      lex_plain_append fun d hd => h d (List.mem_cons_of_mem c hd)]
    rfl

theorem lex_blank : lex .plain words word (' ' :: rest) = lex .plain (close words word) none rest := by
  rw [lex]
  · rfl
  · exact fun _ h => (by cases h)
  · exact fun _ _ h => (by cases h)

theorem lex_newline :
    lex .plain words word ('\n' :: rest) = (lex .plain [] none rest).map (emit (close words word)) := by
  rw [lex]
  · rfl
  · exact fun _ h => (by cases h)
  · exact fun _ _ h => (by cases h)

/-- **Single quotes keep everything.** -/
theorem lex_single : lex .single words (some w) (t.flatMap escape ++ '\'' :: rest) =
    lex .plain words (some (w ++ quote t)) rest := by
  induction t generalizing w with
  | nil =>
    unfold quote
    rw [List.flatMap_nil, List.nil_append, List.map_nil, List.append_nil]
    rfl
  | cons c t ih =>
    rw [List.flatMap_cons, List.append_assoc]
    by_cases hc : c = '\''
    · have hread : lex .single words (some w) (escape c ++ (t.flatMap escape ++ '\'' :: rest)) =
          lex .single words (some (w ++ [(c, true)])) (t.flatMap escape ++ '\'' :: rest) := by
        rw [hc]
        rfl
      rw [hread, ih, List.append_assoc]
      rfl
    · have hread : lex .single words (some w) (escape c ++ (t.flatMap escape ++ '\'' :: rest)) =
          lex .single words (some (w ++ [(c, true)])) (t.flatMap escape ++ '\'' :: rest) := by
        unfold escape
        rw [if_neg hc, List.singleton_append, lex, if_neg hc]
        rfl
      rw [hread, ih, List.append_assoc]
      rfl

theorem lex_singleQuoted :
    lex .plain words (some w) (singleQuoted t ++ rest) = lex .plain words (some (w ++ quote t)) rest := by
  have hopen : lex .plain words (some w) (singleQuoted t ++ rest) =
      lex .single words (some w) (t.flatMap escape ++ '\'' :: rest) := by
    have happend : singleQuoted t ++ rest = '\'' :: (t.flatMap escape ++ '\'' :: rest) := by
      simp [singleQuoted]
    rw [happend, lex]
    · rfl
    · exact fun _ h => (by cases h)
    · exact fun _ _ h => (by cases h)
  rw [hopen, lex_single]

theorem lex_comment (h : '\n' ∉ t) :
    lex .comment words none (t ++ '\n' :: rest) = (lex .plain [] none rest).map (emit words) := by
  induction t with
  | nil => rfl
  | cons c t ih =>
    have hc : c ≠ '\n' := fun hc => h (hc ▸ List.mem_cons_self)
    rw [List.cons_append, lex, if_neg hc, ih fun ht => h (List.mem_cons_of_mem c ht)]

/-- A line of comment is nothing. -/
theorem commands_comment (h : '\n' ∉ t) : commands ('#' :: t ++ '\n' :: rest) = commands rest := by
  have hopen : commands ('#' :: t ++ '\n' :: rest) = lex .comment [] none (t ++ '\n' :: rest) := by
    unfold commands
    rw [List.cons_append, lex]
    · rfl
    · exact fun _ h => (by cases h)
    · exact fun _ _ h => (by cases h)
  rw [hopen, lex_comment h]
  unfold commands
  cases lex .plain [] none rest <;> rfl

/-- A line that exports a quoted value. -/
theorem commands_export {name : Text} (h : ∀ c ∈ name, isPlain c = true) :
    commands ("export ".toList ++ name ++ '=' :: singleQuoted t ++ '\n' :: rest) =
      (commands rest).map ([bare "export".toList, bare (name ++ ['=']) ++ quote t] :: ·) := by
  have hsplit : "export ".toList ++ name ++ '=' :: singleQuoted t ++ '\n' :: rest =
      "export".toList ++ ' ' :: ((name ++ ['=']) ++ (singleQuoted t ++ '\n' :: rest)) := by
    simp
  have hname : ∀ c ∈ name ++ ['='], isPlain c = true := by
    intro c hc
    rcases List.mem_append.mp hc with hc | hc
    · exact h c hc
    · rw [List.mem_singleton.mp hc]
      rfl
  unfold commands
  rw [hsplit, lex_plain_word (by decide) (by decide), lex_blank]
  show lex .plain [bare "export".toList] none _ = _
  rw [lex_plain_word (by simp) hname, lex_singleQuoted, lex_newline]
  rfl

/-- What it assigns. -/
theorem assignmentsOf_export {name : Text} (h : isName name = true) :
    assignmentsOf [bare "export".toList, bare (name ++ ['=']) ++ quote t] = [⟨true, name, t⟩] := by
  have hchars : ∀ c ∈ bare name, (isNameChar c.1 && !c.2) = true := by
    intro c hc
    obtain ⟨d, hd, rfl⟩ := List.mem_map.mp hc
    unfold isName at h
    rw [Bool.and_eq_true, List.all_eq_true] at h
    rw [h.2 d hd]
    rfl
  have hbare : bare (Word.text (bare (name ++ ['=']) ++ quote t)) = bare name ++ ('=', false) :: bare t := by
    simp [bare, quote, Word.text, Function.comp_def]
  have htake : (bare name ++ ('=', false) :: bare t).takeWhile (fun c => isNameChar c.1 && !c.2) = bare name := by
    rw [List.takeWhile_append_of_pos hchars, List.takeWhile_cons_of_neg (by decide), List.append_nil]
  have htext : ∀ t : Text, Word.text (bare t) = t := by
    intro t
    simp [bare, Word.text, Function.comp_def]
  have hassign : assignment true (bare name ++ ('=', false) :: bare t) = some ⟨true, name, t⟩ := by
    unfold assignment
    simp only [htake, List.drop_left, htext, h, if_true]
  show (List.filterMap (fun w => assignment true (bare (Word.text w))) [bare (name ++ ['=']) ++ quote t]) = _
  rw [List.filterMap_cons, hbare, hassign]
  rfl

end Reading

end Shell
