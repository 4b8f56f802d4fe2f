/-
Long messages in pieces, `chunk_text` of `telegram/client.py`.

Every round of the loop takes a piece that is not empty off what remains, so the loop ends
and the pieces put together are the text.  A round cuts before the last paragraph break of
its window, or before the last line break, unless the piece would be shorter than a quarter
of the window; otherwise it takes the whole window.

No cut looks at what is in a piece.  A run of white space can fill one, as with `a b` in
pieces of one character, where nothing else puts together to the text.
-/
import CyClaw.Telegram.Runner

namespace CyClaw.Telegram

open PyText

/-- `t.rfind(p)`. -/
def rfind (p t : Text) : ℤ :=
  match (List.range (t.length + 1)).reverse.find? fun i => p.isPrefixOf (t.drop i) with
  | some i => i
  | none => -1

/-- The paragraph break or line break that a round looks for. -/
def lastBreak (maxChars : ℕ) (window : Text) : ℤ :=
  if rfind "\n\n".toList window < (maxChars / 4 : ℕ) then rfind "\n".toList window
  else rfind "\n\n".toList window

/-- Where a round cuts, `split_at` at last: not at 0, where the piece would be empty. -/
def splitPoint (maxChars : ℕ) (remaining : Text) : ℕ :=
  let splitAt := lastBreak maxChars (remaining.take maxChars)
  if splitAt < (maxChars / 4 : ℕ) ∨ splitAt = 0 then maxChars else splitAt.toNat

theorem rfind_cases (p t : Text) :
    rfind p t = -1 ∨ ∃ i : ℕ, rfind p t = i ∧ i ≤ t.length ∧ p <+: t.drop i := by
  rw [rfind]
  split
  · rename_i i hi
    have hmem := List.mem_of_find?_eq_some hi
    have hpre : p.isPrefixOf (t.drop i) = true := List.find?_some (p := fun i => p.isPrefixOf (t.drop i)) hi
    rw [List.mem_reverse, List.mem_range] at hmem
    exact Or.inr ⟨i, rfl, by omega, List.isPrefixOf_iff_prefix.mp hpre⟩
  · exact Or.inl rfl

theorem lastBreak_cases (maxChars : ℕ) (window : Text) :
    lastBreak maxChars window = -1 ∨
      ∃ i : ℕ, lastBreak maxChars window = i ∧ i ≤ window.length ∧ ['\n'] <+: window.drop i := by
  rw [lastBreak]
  split
  · exact rfind_cases "\n".toList window
  · obtain hnone | ⟨i, hi, hle, hpre⟩ := rfind_cases "\n\n".toList window
    · exact Or.inl hnone
    · exact Or.inr ⟨i, hi, hle, (List.prefix_append ['\n'] ['\n']).trans hpre⟩

/-- The whole window, or a break at a quarter of it or later. -/
theorem splitPoint_cases (maxChars : ℕ) (remaining : Text) :
    splitPoint maxChars remaining = maxChars ∨
      max 1 (maxChars / 4) ≤ splitPoint maxChars remaining ∧
        splitPoint maxChars remaining ≤ maxChars ∧
        ['\n'] <+: remaining.drop (splitPoint maxChars remaining) := by
  rw [splitPoint]
  split_ifs with hcut
  · exact Or.inl rfl
  · push Not at hcut
    obtain hnone | ⟨i, hi, hle, hpre⟩ := lastBreak_cases maxChars (remaining.take maxChars)
    · omega
    · rw [hi] at hcut ⊢
      rw [List.length_take] at hle
      rw [List.drop_take] at hpre
      rw [Int.toNat_natCast]
      exact Or.inr ⟨by omega, by omega, hpre.trans (List.take_prefix _ _)⟩

theorem splitPoint_pos {maxChars : ℕ} (hmax : 0 < maxChars) (remaining : Text) :
    0 < splitPoint maxChars remaining := by
  obtain h | ⟨h, -⟩ := splitPoint_cases maxChars remaining
  · omega
  · omega

theorem length_drop_splitPoint {maxChars : ℕ} (hmax : 0 < maxChars) {remaining : Text}
    (hlong : ¬ remaining.length ≤ maxChars) :
    (remaining.drop (splitPoint maxChars remaining)).length < remaining.length := by
  have hpos := splitPoint_pos hmax remaining
  rw [List.length_drop]
  omega

/-- The loop of `chunk_text`. -/
def chunkLoop (maxChars : ℕ) (hmax : 0 < maxChars) (remaining : Text) : List Text :=
  if remaining = [] then []
  else if _hlong : remaining.length ≤ maxChars then [remaining]
  else
    remaining.take (splitPoint maxChars remaining) ::
      chunkLoop maxChars hmax (remaining.drop (splitPoint maxChars remaining))
termination_by remaining.length
decreasing_by exact length_drop_splitPoint hmax _hlong

/-- `chunk_text`, with the message of its `ValueError`. -/
def chunkText (text : Text) (maxChars : ℤ) : Except Text (List Text) :=
  if strip text = [] then .ok []
  else if hmax : 0 < maxChars then
    .ok (if (text.length : ℤ) ≤ maxChars then [text]
      else chunkLoop maxChars.toNat (Int.pos_iff_toNat_pos.mp hmax) text)
  else .error "max_chars must be > 0".toList

/-! ### The pieces -/

/-- How a piece may be cut off with `after` still to come. -/
structure CutOff (maxChars : ℕ) (piece : Text) (after : List Text) : Prop where
  nonempty : piece ≠ []
  fits : piece.length ≤ maxChars
  /-- It is the last, fills its window, or ends before a line break far enough on. -/
  ended : after = [] ∨ piece.length = maxChars ∨
    max 1 (maxChars / 4) ≤ piece.length ∧ ['\n'] <+: after.flatten

/-- Every piece is cut off so, with the ones behind it to come. -/
def AllCutOff (maxChars : ℕ) : List Text → Prop
  | [] => True
  | piece :: after => CutOff maxChars piece after ∧ AllCutOff maxChars after

theorem AllCutOff.of_append {maxChars : ℕ} {before after : List Text} {piece : Text}
    (h : AllCutOff maxChars (before ++ piece :: after)) : CutOff maxChars piece after := by
  induction before with
  | nil => exact h.1
  | cons p before ih => exact ih h.2

theorem chunkLoop_pieces {maxChars : ℕ} (hmax : 0 < maxChars) (remaining : Text) :
    (chunkLoop maxChars hmax remaining).flatten = remaining ∧
      AllCutOff maxChars (chunkLoop maxChars hmax remaining) := by
  fun_induction chunkLoop maxChars hmax remaining with
  | case1 => exact ⟨rfl, trivial⟩
  | case2 remaining hne hshort =>
      exact ⟨by simp, ⟨hne, hshort, Or.inl rfl⟩, trivial⟩
  | case3 remaining hne hlong ih =>
      obtain ⟨hflat, hall⟩ := ih
      have hpos := splitPoint_pos hmax remaining
      refine ⟨?_, ⟨?_, ?_, ?_⟩, hall⟩
      · rw [List.flatten_cons, hflat, List.take_append_drop]
      · simp [hne, hpos.ne']
      · rw [List.length_take]
        obtain h | ⟨-, h, -⟩ := splitPoint_cases maxChars remaining <;> omega
      · rw [hflat, List.length_take]
        obtain h | ⟨hlow, hhigh, hbreak⟩ := splitPoint_cases maxChars remaining
        · exact Or.inr (Or.inl (by omega))
        · exact Or.inr (Or.inr ⟨by omega, hbreak⟩)

theorem chunkText_cutOff {text : Text} {maxChars : ℤ} (htext : strip text ≠ []) (hmax : 0 < maxChars) :
    ∃ pieces, chunkText text maxChars = .ok pieces ∧ pieces.flatten = text ∧
      AllCutOff maxChars.toNat pieces := by
  rw [chunkText, if_neg htext, dif_pos hmax]
  refine ⟨_, rfl, ?_⟩
  split
  · rename_i hshort
    have hne : text ≠ [] := by
      rintro rfl
      exact htext rfl
    exact ⟨by simp, ⟨hne, by omega, Or.inl rfl⟩, trivial⟩
  · exact chunkLoop_pieces _ text

theorem strip_ne_nil {text : Text} (h : ∃ c ∈ text, isSpace c = false) : strip text ≠ [] := by
  obtain ⟨c, hc, hspace⟩ := h
  intro hnil
  rw [isSpace_of_strip_eq_nil hnil c hc] at hspace
  cases hspace

/-- **The pieces of a message.**  A piece of white space alone is the last one, or as long as
any, or at least a quarter of that with a line break behind it. -/
theorem chunkText_pieces (text : Text) (maxChars : ℤ) (htext : ∃ c ∈ text, isSpace c = false)
    (hmax : 0 < maxChars) :
    ∃ pieces, chunkText text maxChars = .ok pieces ∧ pieces.flatten = text ∧
      (∀ p ∈ pieces, 1 ≤ p.length ∧ (p.length : ℤ) ≤ maxChars) ∧
      ∀ before p after, pieces = before ++ p :: after → (∀ c ∈ p, isSpace c = true) →
        after = [] ∨ (p.length : ℤ) = maxChars ∨
          max 1 (maxChars / 4) ≤ p.length ∧ ['\n'] <+: after.flatten := by
  obtain ⟨pieces, hrun, hflat, hall⟩ := chunkText_cutOff (strip_ne_nil htext) hmax
  refine ⟨pieces, hrun, hflat, ?_, ?_⟩
  · intro p hp
    obtain ⟨before, after, rfl⟩ := List.append_of_mem hp
    obtain ⟨hne, hfits, -⟩ := hall.of_append
    have := List.length_pos_iff.mpr hne
    omega
  · rintro before p after rfl -
    obtain ⟨-, -, hlast | hfull | ⟨hquarter, hbreak⟩⟩ := hall.of_append
    · exact Or.inl hlast
    · exact Or.inr (Or.inl (by omega))
    · exact Or.inr (Or.inr ⟨by omega, hbreak⟩)

theorem chunkText_pieces_answer :
    ∃ pieces, chunkText "one\n\n\n\ntwo ".toList 4 = .ok pieces ∧
      pieces.flatten = "one\n\n\n\ntwo ".toList ∧
      (∀ p ∈ pieces, 1 ≤ p.length ∧ (p.length : ℤ) ≤ 4) ∧
      ∀ before p after, pieces = before ++ p :: after → (∀ c ∈ p, isSpace c = true) →
        after = [] ∨ (p.length : ℤ) = 4 ∨
          max 1 ((4 : ℤ) / 4) ≤ p.length ∧ ['\n'] <+: after.flatten :=
  chunkText_pieces "one\n\n\n\ntwo ".toList 4 ⟨'o', by decide, by decide⟩ (by decide)

/-- One character a piece: the blank is a piece of its own. -/
theorem blank_piece :
    chunkText "a b".toList 1 = .ok ["a".toList, " ".toList, "b".toList] ∧
      ¬ ∀ (text : Text) (maxChars : ℤ), (∃ c ∈ text, isSpace c = false) → 0 < maxChars →
        ∃ pieces, chunkText text maxChars = .ok pieces ∧ pieces.flatten = text ∧
          (∀ p ∈ pieces, 1 ≤ p.length ∧ (p.length : ℤ) ≤ maxChars) ∧
          ∀ p ∈ pieces, ∃ c ∈ p, isSpace c = false := by
  have hrun : chunkText "a b".toList 1 = .ok ["a".toList, " ".toList, "b".toList] := by
    decide +kernel
  refine ⟨hrun, fun hclaim => ?_⟩
  obtain ⟨pieces, hpieces, -, -, hinked⟩ :=
    hclaim "a b".toList 1 ⟨'a', by decide, by decide⟩ (by decide)
  rw [hrun, Except.ok.injEq] at hpieces
  obtain ⟨c, hc, hspace⟩ := hinked " ".toList (by simp [← hpieces])
  obtain rfl : c = ' ' := List.mem_singleton.mp hc
  cases hspace

end CyClaw.Telegram
