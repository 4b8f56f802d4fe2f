/-
Filter files, as rclone reads them.

A file is a list of lines, and a line takes a name in, leaves it out, or clears the rules before it.
Of the rules the first that matches a name decides, and a name that none matches is taken in.  So a
file none of whose lines clears can only be added to at its end (`readFile_adds`), and what its first
rules leave out stays out (`not_takes_of_prefix`).
-/
import CyClaw.Lib.Lines

namespace FilterRules

open PyText

/-- What `strings.TrimSpace` takes from the ends of a line. -/
def isTrimmed (c : Char) : Bool :=
  let n := c.toNat
  (9 ≤ n && n ≤ 13) || n == 32 || n == 0x85 || n == 0xA0 || n == 0x1680 || (0x2000 ≤ n && n ≤ 0x200A) ||
    n == 0x2028 || n == 0x2029 || n == 0x202F || n == 0x205F || n == 0x3000

structure Rule where
  takes : Bool
  pattern : List Char
deriving DecidableEq

inductive Line where
  | skip
  | clear
  | rule (r : Rule)
  | bad
deriving DecidableEq

/-- One line of the file, its ends trimmed. -/
def parseTrimmed : List Char → Line
  | [] => .skip
  | '#' :: _ => .skip
  | ';' :: _ => .skip
  | ['!'] => .clear
  | '-' :: ' ' :: p => .rule ⟨false, p⟩
  | '+' :: ' ' :: p => .rule ⟨true, p⟩
  | _ => .bad

def parseLine (line : List Char) : Line := parseTrimmed (stripBy isTrimmed line)

/-- The rule that a line adds. -/
def Line.added : Line → Option Rule
  | rule r => some r
  | _ => none

/-- A line that adds a rule, or nothing. -/
def Line.Adds (l : Line) : Prop := l = skip ∨ ∃ r, l = rule r

/-- The rules so far and one line more; `none` is an error. -/
def addLine (rules : List Rule) : Line → Option (List Rule)
  | .skip => some rules
  | .clear => some []
  | .rule r => some (rules ++ [r])
  | .bad => none

def readFile (t : List Char) : Option (List Rule) := ((t.splitOn '\n').map parseLine).foldlM addLine []

/-- Whether a name is taken in: the first rule that matches it decides. -/
def takes {α : Type} (matchesName : List Char → α → Bool) (rules : List Rule) (name : α) : Bool :=
  match rules.find? (fun r => matchesName r.pattern name) with
  | some r => r.takes
  | none => true

/-! ### Files that only add -/

theorem foldlM_addLine {ls : List Line} (h : ∀ l ∈ ls, l.Adds) (rules : List Rule) :
    ls.foldlM addLine rules = some (rules ++ ls.filterMap Line.added) := by
  induction ls generalizing rules with
  | nil => simp
  | cons l ls ih =>
    have hrest := ih fun l' hl' => h l' (List.mem_cons_of_mem l hl')
    rcases h l List.mem_cons_self with rfl | ⟨r, rfl⟩
    · exact hrest rules
    · rw [List.foldlM_cons, List.filterMap_cons]
      exact (hrest (rules ++ [r])).trans (by simp [Line.added])

theorem splitOn_unlines {lines : List (List Char)} (h : ∀ line ∈ lines, '\n' ∉ line) :
    (unlines lines).splitOn '\n' = lines ++ [[]] := by
  have hjoin : unlines lines = ['\n'].intercalate (lines ++ [[]]) := by
    induction lines with
    | nil => rfl
    | cons line lines ih =>
      rw [unlines_cons, ih fun l hl => h l (List.mem_cons_of_mem line hl)]
      cases lines with
      | nil => simp
      | cons line' lines => simp
  rw [hjoin, List.splitOn_intercalate '\n' ?_ (by simp)]
  intro line hline
  rcases List.mem_append.mp hline with hline | hline
  · exact h line hline
  · rw [List.mem_singleton.mp hline]
    exact List.not_mem_nil

/-- **A file whose lines only add** is read, and gives the rules of its lines in order. -/
theorem readFile_adds {lines : List (List Char)} (hbreak : ∀ line ∈ lines, '\n' ∉ line)
    (h : ∀ line ∈ lines, (parseLine line).Adds) :
    readFile (unlines lines) = some (lines.filterMap fun line => (parseLine line).added) := by
  have hall : ∀ l ∈ (lines ++ [[]]).map parseLine, l.Adds := by
    intro l hl
    obtain ⟨line, hline, rfl⟩ := List.mem_map.mp hl
    rcases List.mem_append.mp hline with hline | hline
    · exact h line hline
    · rw [List.mem_singleton.mp hline]
      exact Or.inl rfl
  rw [readFile, splitOn_unlines hbreak, foldlM_addLine hall, List.nil_append, List.filterMap_map,
    List.filterMap_append]
  exact congrArg some (List.append_nil _)

/-! ### The first rule that matches -/

/-- **What the first rules leave out stays out**, whatever rules come after them. -/
theorem not_takes_of_prefix {α : Type} {matchesName : List Char → α → Bool} {name : α} {first rules : List Rule}
    (hfirst : first <+: rules) (hout : ∀ r ∈ first, r.takes = false)
    (hmatch : ∃ r ∈ first, matchesName r.pattern name = true) : takes matchesName rules name = false := by
  obtain ⟨rest, rfl⟩ := hfirst
  obtain ⟨r, hr, hname⟩ := hmatch
  cases hfind : first.find? (fun r => matchesName r.pattern name) with
  | none => exact absurd hname (List.find?_eq_none.mp hfind r hr)
  | some r' =>
    rw [takes, List.find?_append, hfind]
    exact hout r' (List.mem_of_find?_eq_some hfind)

end FilterRules
