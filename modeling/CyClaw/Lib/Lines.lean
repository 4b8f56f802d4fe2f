/-
Lines of a text.

`splitLines` is `str.splitlines` for a given set of line breaks, each a single character;
`lineBreak` is the set that Python has.  `unlines` ends every line with a newline.
-/
import CyClaw.Lib.PyText

namespace PyText

def splitLines (brk : Char → Bool) : List Char → List (List Char)
  | [] => []
  | c :: cs =>
      if brk c then [] :: splitLines brk cs
      else
        match splitLines brk cs with
        | [] => [[c]]
        | line :: lines => (c :: line) :: lines

def unlines (lines : List (List Char)) : List Char := lines.flatMap (· ++ ['\n'])

/-- The line breaks of `str.splitlines`. -/
def lineBreak (c : Char) : Bool :=
  c = '\n' || c = '\r' || c = '\x0b' || c = '\x0c' || c = '\x1c' || c = '\x1d' || c = '\x1e' || c = '\u0085' ||
    c = '\u2028' || c = '\u2029'

/-- What reading in text mode makes of line ends. -/
def universalNewlines : List Char → List Char
  | [] => []
  | '\r' :: '\n' :: cs => '\n' :: universalNewlines cs
  | '\r' :: cs => '\n' :: universalNewlines cs
  | c :: cs => c :: universalNewlines cs

section Lines

variable {brk brk' : Char → Bool} {t line : List Char} {lines : List (List Char)}

theorem unlines_append (xs ys : List (List Char)) : unlines (xs ++ ys) = unlines xs ++ unlines ys := List.flatMap_append

theorem unlines_cons (x : List Char) (xs : List (List Char)) : unlines (x :: xs) = x ++ '\n' :: unlines xs := by
  unfold unlines
  rw [List.flatMap_cons, List.append_assoc, List.singleton_append]

theorem splitLines_append (h : ∀ c ∈ line, brk c = false) (hn : brk '\n' = true) (rest : List Char) :
    splitLines brk (line ++ '\n' :: rest) = line :: splitLines brk rest := by
  induction line with
  | nil => rw [List.nil_append, splitLines, if_pos hn]
  | cons c line ih =>
    rw [List.cons_append, splitLines, h c List.mem_cons_self, if_neg Bool.false_ne_true,
      ih fun d hd => h d (List.mem_cons_of_mem c hd)]

/-- Lines that have no break in them are read as they are written. -/
theorem splitLines_unlines (h : ∀ line ∈ lines, ∀ c ∈ line, brk c = false) (hn : brk '\n' = true) :
    splitLines brk (unlines lines) = lines := by
  induction lines with
  | nil => rfl
  | cons line lines ih =>
    rw [unlines_cons, splitLines_append (h line List.mem_cons_self) hn, ih fun l hl => h l (List.mem_cons_of_mem line hl)]

theorem mem_splitLines {c : Char} (hl : line ∈ splitLines brk t) (hc : c ∈ line) : c ∈ t ∧ brk c = false := by
  induction t generalizing line with
  | nil => cases hl
  | cons d ds ih =>
    rw [splitLines] at hl
    by_cases hd : brk d = true
    · rw [if_pos hd] at hl
      rcases List.mem_cons.mp hl with rfl | hl
      · cases hc
      · exact ⟨List.mem_cons_of_mem d (ih hl hc).1, (ih hl hc).2⟩
    · rw [if_neg hd] at hl
      have hd' : brk d = false := Bool.eq_false_iff.mpr hd
      cases hrest : splitLines brk ds with
      | nil =>
        rw [hrest, List.mem_singleton] at hl
        rw [hl, List.mem_singleton] at hc
        rw [hc]
        exact ⟨List.mem_cons_self, hd'⟩
      | cons first rest =>
        rw [hrest] at hl ih
        rcases List.mem_cons.mp hl with rfl | hl
        · rcases List.mem_cons.mp hc with rfl | hc
          · exact ⟨List.mem_cons_self, hd'⟩
          · have hfirst := ih List.mem_cons_self hc
            exact ⟨List.mem_cons_of_mem d hfirst.1, hfirst.2⟩
        · have hrest' := ih (List.mem_cons_of_mem first hl) hc
          exact ⟨List.mem_cons_of_mem d hrest'.1, hrest'.2⟩

theorem splitLines_congr (h : ∀ c ∈ t, brk c = brk' c) : splitLines brk t = splitLines brk' t := by
  induction t with
  | nil => rfl
  | cons c cs ih =>
    rw [splitLines, splitLines, h c List.mem_cons_self, ih fun d hd => h d (List.mem_cons_of_mem c hd)]

theorem universalNewlines_eq (h : '\r' ∉ t) : universalNewlines t = t := by
  induction t with
  | nil => rfl
  | cons c cs ih =>
    have hc : c ≠ '\r' := fun hc => h (hc ▸ List.mem_cons_self)
    have hrest := ih fun hcs => h (List.mem_cons_of_mem c hcs)
    rw [universalNewlines, hrest]
    · rintro d rfl
      exact absurd rfl hc
    · rintro rfl
      exact absurd rfl hc

theorem mem_universalNewlines {c : Char} (h : c ∈ universalNewlines t) : c = '\n' ∨ c ∈ t ∧ c ≠ '\r' := by
  induction t using universalNewlines.induct with
  | case1 => cases h
  | case2 cs ih =>
    rw [universalNewlines] at h
    rcases List.mem_cons.mp h with rfl | h
    · exact Or.inl rfl
    · exact (ih h).imp_right fun h => ⟨List.mem_cons_of_mem _ (List.mem_cons_of_mem _ h.1), h.2⟩
  | case3 cs hcs ih =>
    rw [universalNewlines] at h
    · rcases List.mem_cons.mp h with rfl | h
      · exact Or.inl rfl
      · exact (ih h).imp_right fun h => ⟨List.mem_cons_of_mem _ h.1, h.2⟩
    · exact hcs
  | case4 d ds hnewline hreturn ih =>
    rw [universalNewlines] at h
    · rcases List.mem_cons.mp h with rfl | h
      · exact Or.inr ⟨List.mem_cons_self, hreturn⟩
      · exact (ih h).imp_right fun h => ⟨List.mem_cons_of_mem _ h.1, h.2⟩
    · exact hnewline
    · exact hreturn

theorem mem_unlines {c : Char} (h : c ∈ unlines lines) : c = '\n' ∨ ∃ line ∈ lines, c ∈ line := by
  obtain ⟨line, hline, hc⟩ := List.mem_flatMap.mp h
  rcases List.mem_append.mp hc with hc | hc
  · exact Or.inr ⟨line, hline, hc⟩
  · exact Or.inl (List.mem_singleton.mp hc)

/-- Lines joined by newlines, with one at the end. -/
theorem intercalate_newline (h : lines ≠ []) : ['\n'].intercalate lines ++ ['\n'] = unlines lines := by
  induction lines with
  | nil => exact absurd rfl h
  | cons line lines ih =>
    cases lines with
    | nil => simp [unlines]
    | cons line' lines =>
      rw [unlines_cons, ← ih (List.cons_ne_nil _ _), List.intercalate_cons_cons, List.append_assoc, List.append_assoc,
        List.singleton_append]

end Lines

end PyText
