/-
A text read by one who knows more line breaks than newlines.

`linesOf` are the lines of a text that is made of newlines, `pyLines` those that Python has when it
reads the text in text mode and splits it.  Both go through the text one line at a time (`segments`,
the lines with their newline), so they are compared line by line (`eq_of_flatMap_eq`).
-/
import CyClaw.Lib.Lines

namespace PyText

/-- The lines that a newline ends. -/
def linesOf (t : List Char) : List (List Char) := splitLines (· = '\n') t

/-- What is read in text mode, as `splitlines` parts it. -/
def pyLines (t : List Char) : List (List Char) := splitLines lineBreak (universalNewlines t)

/-- The lines, each with its newline; the last one may have none. -/
def segments : List Char → List (List Char)
  | [] => []
  | c :: cs =>
      if c = '\n' then ['\n'] :: segments cs
      else
        match segments cs with
        | [] => [[c]]
        | line :: lines => (c :: line) :: lines

section Pieces

variable {brk : Char → Bool} {t line rest : List Char} {lines : List (List Char)}

/-! ### One line and the rest -/

theorem segments_newline (h : '\n' ∉ line) (rest : List Char) :
    segments (line ++ '\n' :: rest) = (line ++ ['\n']) :: segments rest := by
  induction line with
  | nil => rw [List.nil_append, segments, if_pos rfl, List.nil_append]
  | cons c line ih =>
    rw [List.mem_cons, not_or] at h
    rw [List.cons_append, segments, if_neg (Ne.symm h.1), ih h.2]
    rfl

theorem segments_last (h : '\n' ∉ line) (hne : line ≠ []) : segments line = [line] := by
  induction line with
  | nil => exact absurd rfl hne
  | cons c line ih =>
    rw [List.mem_cons, not_or] at h
    rw [segments, if_neg (Ne.symm h.1)]
    cases line with
    | nil => rfl
    | cons d line => rw [ih h.2 (List.cons_ne_nil d line)]

/-- A text is nothing, a line that nothing ends, or a line and a text. -/
theorem lines_induction {motive : List Char → Prop} (nil : motive [])
    (last : ∀ line, line ≠ [] → '\n' ∉ line → motive line)
    (newline : ∀ line rest, '\n' ∉ line → motive rest → motive (line ++ '\n' :: rest)) (t : List Char) : motive t := by
  induction hn : t.length using Nat.strong_induction_on generalizing t with
  | _ n ih =>
    by_cases hmem : '\n' ∈ t
    · obtain ⟨line, rest, rfl, hline⟩ := List.eq_append_cons_of_mem hmem
      refine newline line rest hline (ih rest.length ?_ rest rfl)
      rw [← hn, List.length_append, List.length_cons]
      omega
    · by_cases ht : t = []
      · subst ht
        exact nil
      · exact last t ht hmem

theorem splitLines_ne_nil (hne : t ≠ []) : splitLines brk t ≠ [] := by
  cases t with
  | nil => exact absurd rfl hne
  | cons c cs =>
    rw [splitLines]
    split
    · exact List.cons_ne_nil _ _
    · split
      · exact List.cons_ne_nil _ _
      · exact List.cons_ne_nil _ _

theorem splitLines_newline (hn : brk '\n' = true) (a rest : List Char) :
    splitLines brk (a ++ '\n' :: rest) = splitLines brk (a ++ ['\n']) ++ splitLines brk rest := by
  induction a with
  | nil => simp [splitLines, hn]
  | cons c a ih =>
    rw [List.cons_append, List.cons_append, splitLines, splitLines, ih]
    by_cases hc : brk c = true
    · rw [if_pos hc, if_pos hc, List.cons_append]
    · rw [if_neg hc, if_neg hc]
      cases hfirst : splitLines brk (a ++ ['\n']) with
      | nil => exact absurd hfirst (splitLines_ne_nil (by simp))
      | cons first others => rfl

theorem universalNewlines_cons {c : Char} (hc : c ≠ '\r') (t : List Char) :
    universalNewlines (c :: t) = c :: universalNewlines t := by
  rw [universalNewlines]
  · rintro d rfl
    exact absurd rfl hc
  · rintro rfl
    exact absurd rfl hc

theorem universalNewlines_return (h : t.head? ≠ some '\n') : universalNewlines ('\r' :: t) = '\n' :: universalNewlines t := by
  rw [universalNewlines]
  rintro cs rfl
  exact absurd rfl h

/-- A carriage return joins with a newline that follows it, and with nothing else. -/
theorem universalNewlines_append {d : Char} (hd : d ≠ '\n') (a rest : List Char) :
    universalNewlines (a ++ d :: rest) = universalNewlines a ++ universalNewlines (d :: rest) := by
  induction a using universalNewlines.induct with
  | case1 => rfl
  | case2 cs ih =>
    show '\n' :: universalNewlines (cs ++ d :: rest) = '\n' :: (universalNewlines cs ++ universalNewlines (d :: rest))
    rw [ih]
  | case3 cs hcs ih =>
    have hhead : (cs ++ d :: rest).head? ≠ some '\n' := by
      cases cs with
      | nil => simpa using hd
      | cons c cs => simpa using fun hc : c = '\n' => hcs cs (by rw [hc])
    have hhead' : cs.head? ≠ some '\n' := by
      intro h
      obtain ⟨cs', rfl⟩ : ∃ cs', cs = '\n' :: cs' := List.head?_eq_some_iff.mp h
      exact hcs cs' rfl
    rw [List.cons_append, universalNewlines_return hhead, universalNewlines_return hhead', ih, List.cons_append]
  | case4 c cs hnewline hreturn ih =>
    have hc : c ≠ '\r' := hreturn
    rw [List.cons_append, universalNewlines_cons hc, universalNewlines_cons hc, ih, List.cons_append]

/-- Past a newline reading begins anew. -/
theorem universalNewlines_newline (a rest : List Char) :
    universalNewlines (a ++ '\n' :: rest) = universalNewlines (a ++ ['\n']) ++ universalNewlines rest := by
  induction a using universalNewlines.induct with
  | case1 => rfl
  | case2 cs ih =>
    show '\n' :: universalNewlines (cs ++ '\n' :: rest) = '\n' :: (universalNewlines (cs ++ ['\n']) ++ universalNewlines rest)
    rw [ih]
  | case3 cs hcs ih =>
    cases cs with
    | nil => rfl
    | cons c cs =>
      have hc : c ≠ '\n' := fun hc => hcs cs (by rw [hc])
      have hfirst : ∀ s, universalNewlines ('\r' :: (c :: cs ++ s)) = '\n' :: universalNewlines (c :: cs ++ s) :=
        fun s => universalNewlines_return (by simpa using hc)
      show universalNewlines ('\r' :: (c :: cs ++ '\n' :: rest)) =
        universalNewlines ('\r' :: (c :: cs ++ ['\n'])) ++ universalNewlines rest
      rw [hfirst, ih, hfirst]
      rfl
  | case4 c cs hnewline hreturn ih =>
    have hc : c ≠ '\r' := hreturn
    rw [List.cons_append, universalNewlines_cons hc, List.cons_append, universalNewlines_cons hc, ih, List.cons_append]

theorem universalNewlines_concat (a : List Char) : ∃ b, universalNewlines (a ++ ['\n']) = b ++ ['\n'] := by
  induction a using universalNewlines.induct with
  | case1 => exact ⟨[], rfl⟩
  | case2 cs ih =>
    obtain ⟨b, hb⟩ := ih
    exact ⟨'\n' :: b, congrArg ('\n' :: ·) hb⟩
  | case3 cs hcs ih =>
    cases cs with
    | nil => exact ⟨[], rfl⟩
    | cons c cs =>
      have hc : c ≠ '\n' := fun hc => hcs cs (by rw [hc])
      obtain ⟨b, hb⟩ := ih
      exact ⟨'\n' :: b, by rw [List.cons_append, universalNewlines_return (by simpa using hc), hb, List.cons_append]⟩
  | case4 c cs hnewline hreturn ih =>
    have hc : c ≠ '\r' := hreturn
    obtain ⟨b, hb⟩ := ih
    exact ⟨c :: b, by rw [List.cons_append, universalNewlines_cons hc, hb, List.cons_append]⟩

theorem pyLines_newline (a rest : List Char) : pyLines (a ++ '\n' :: rest) = pyLines (a ++ ['\n']) ++ pyLines rest := by
  obtain ⟨b, hb⟩ := universalNewlines_concat a
  rw [pyLines, universalNewlines_newline, hb, List.append_assoc, List.singleton_append, splitLines_newline (by decide),
    ← hb]
  rfl

theorem linesOf_newline (a rest : List Char) : linesOf (a ++ '\n' :: rest) = linesOf (a ++ ['\n']) ++ linesOf rest :=
  splitLines_newline (by decide) a rest

/-! ### Line by line -/

theorem pyLines_eq_flatMap (t : List Char) : pyLines t = (segments t).flatMap pyLines := by
  induction t using lines_induction with
  | nil => rfl
  | last line hne hline => rw [segments_last hline hne, List.flatMap_singleton]
  | newline line rest hline ih => rw [segments_newline hline, List.flatMap_cons, ← ih, pyLines_newline]

theorem linesOf_eq_flatMap (t : List Char) : linesOf t = (segments t).flatMap linesOf := by
  induction t using lines_induction with
  | nil => rfl
  | last line hne hline => rw [segments_last hline hne, List.flatMap_singleton]
  | newline line rest hline ih => rw [segments_newline hline, List.flatMap_cons, ← ih, linesOf_newline]

theorem splitLines_whole (h : ∀ c ∈ line, brk c = false) (hne : line ≠ []) : splitLines brk line = [line] := by
  induction line with
  | nil => exact absurd rfl hne
  | cons c line ih =>
    rw [splitLines, h c List.mem_cons_self, if_neg Bool.false_ne_true]
    cases line with
    | nil => rfl
    | cons d line => rw [ih (fun c' hc' => h c' (List.mem_cons_of_mem c hc')) (List.cons_ne_nil d line)]

/-- What is one line, with a newline or without. -/
structure IsLine (seg line : List Char) : Prop where
  free : '\n' ∉ line
  seg_eq : seg = line ∨ seg = line ++ ['\n']
  linesOf_eq : linesOf seg = [line]

theorem isLine_segments {seg : List Char} (h : seg ∈ segments t) : ∃ line, IsLine seg line := by
  have hfree : ∀ line : List Char, '\n' ∉ line → ∀ c ∈ line, decide (c = '\n') = false := by
    intro line hline c hc
    exact decide_eq_false fun heq => hline (heq ▸ hc)
  induction t using lines_induction with
  | nil => cases h
  | last line hne hline =>
    rw [segments_last hline hne, List.mem_singleton] at h
    exact ⟨line, hline, Or.inl h, by rw [h]; exact splitLines_whole (hfree line hline) hne⟩
  | newline line rest hline ih =>
    rw [segments_newline hline] at h
    rcases List.mem_cons.mp h with rfl | h
    · exact ⟨line, hline, Or.inr rfl, splitLines_append (hfree line hline) (by decide) []⟩
    · exact ih h

/-- Where a text has no other breaks, Python has the same lines. -/
theorem pyLines_eq_linesOf (h : ∀ c ∈ t, lineBreak c = true → c = '\n') : pyLines t = linesOf t := by
  have hreturn : '\r' ∉ t := fun hmem => absurd (h '\r' hmem (by decide)) (by decide)
  rw [pyLines, universalNewlines_eq hreturn]
  refine splitLines_congr fun c hc => ?_
  by_cases hbreak : lineBreak c = true
  · rw [hbreak, h c hc hbreak]
    rfl
  · have hne : c ≠ '\n' := fun heq => hbreak (heq ▸ by decide)
    rw [Bool.eq_false_iff.mpr hbreak, decide_eq_false hne]

theorem pyLines_no_break {c : Char} (hl : line ∈ pyLines t) (hc : c ∈ line) : lineBreak c = false := (mem_splitLines hl hc).2

theorem no_return (h : ∀ c ∈ line, lineBreak c = false) : '\r' ∉ line ++ ['\n'] := by
  intro hmem
  rcases List.mem_append.mp hmem with hmem | hmem
  · exact absurd (h '\r' hmem) (by decide)
  · exact absurd hmem (by decide)

theorem length_flatMap_le {α β : Type} {f g : α → List β} {l : List α} (hle : ∀ x ∈ l, (g x).length ≤ (f x).length) :
    (l.flatMap g).length ≤ (l.flatMap f).length := by
  induction l with
  | nil => exact le_rfl
  | cons a l ih =>
    rw [List.flatMap_cons, List.flatMap_cons, List.length_append, List.length_append]
    exact Nat.add_le_add (hle a List.mem_cons_self) (ih fun x hx => hle x (List.mem_cons_of_mem a hx))

/-- Lists that are put together to the same, each no longer than the other's, are the same. -/
theorem eq_of_flatMap_eq {α β : Type} {f g : α → List β} {l : List α} (hle : ∀ x ∈ l, (g x).length ≤ (f x).length)
    (h : l.flatMap f = l.flatMap g) : ∀ x ∈ l, f x = g x := by
  induction l with
  | nil => simp
  | cons a l ih =>
    have hrest : ∀ x ∈ l, (g x).length ≤ (f x).length := fun x hx => hle x (List.mem_cons_of_mem a hx)
    rw [List.flatMap_cons, List.flatMap_cons] at h
    have hlength := congrArg List.length h
    rw [List.length_append, List.length_append] at hlength
    have hhead := hle a List.mem_cons_self
    have htail := length_flatMap_le hrest
    obtain ⟨ha, hl⟩ := List.append_inj h (by omega)
    intro x hx
    rcases List.mem_cons.mp hx with rfl | hx
    · exact ha
    · exact ih hrest hl x hx

/-- Lines without breaks are read as they are written. -/
theorem pyLines_unlines_append (h : ∀ line ∈ lines, ∀ c ∈ line, lineBreak c = false) (rest : List Char) :
    pyLines (unlines lines ++ rest) = lines ++ pyLines rest := by
  induction lines with
  | nil => rfl
  | cons line lines ih =>
    have hline := h line List.mem_cons_self
    have hone : pyLines (line ++ ['\n']) = [line] := by
      rw [pyLines, universalNewlines_eq (no_return hline)]
      exact splitLines_append hline (by decide) []
    rw [unlines, List.flatMap_cons, List.append_assoc, List.append_assoc, List.singleton_append, pyLines_newline, hone,
      List.singleton_append, List.cons_append]
    exact congrArg (line :: ·) (ih fun l hl => h l (List.mem_cons_of_mem line hl))

/-- A line that ends a text is in the last piece. -/
theorem splitLines_suffix {w : List Char} (hw : ∀ c ∈ w, brk c = false) (hn : brk '\n' = true) (a : List Char) :
    ∃ init q, splitLines brk (a ++ w ++ ['\n']) = init ++ [q ++ w] := by
  induction a with
  | nil => exact ⟨[], [], splitLines_append hw hn []⟩
  | cons c a ih =>
    obtain ⟨init, q, heq⟩ := ih
    rw [List.cons_append, List.cons_append, splitLines, heq]
    by_cases hc : brk c = true
    · exact ⟨[] :: init, q, by rw [if_pos hc, List.cons_append]⟩
    · rw [if_neg hc]
      cases init with
      | nil => exact ⟨[], c :: q, rfl⟩
      | cons first init => exact ⟨(c :: first) :: init, q, rfl⟩

theorem pyLines_suffix {d : Char} {w : List Char} (hw : ∀ c ∈ d :: w, lineBreak c = false) (a : List Char) :
    ∃ init q, pyLines (a ++ d :: w ++ ['\n']) = init ++ [q ++ d :: w] := by
  have hd : d ≠ '\n' := by
    rintro rfl
    exact absurd (hw '\n' List.mem_cons_self) (by decide)
  rw [pyLines, List.append_assoc, List.cons_append, universalNewlines_append hd, ← List.cons_append,
    universalNewlines_eq (no_return hw), ← List.append_assoc]
  exact splitLines_suffix hw (by decide) _

end Pieces

end PyText
