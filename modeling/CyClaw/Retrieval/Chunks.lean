/-
What `chunk_document` cuts a text into.

The words of the chunks are windows over the words of the text, each beginning `chunk_size - overlap`
words after the one before.  So the chunks have all of it (`chunks_cover`): the words of a chunk come
back when it is split, since a word has no space, and the rest is said of windows over any list.
-/
import CyClaw.Lib.Strides
import CyClaw.Retrieval.Indexer

namespace CyClaw.Retrieval

open PyText Strides

/-- **The chunks of a text**, with `step = chunk_size - overlap`. -/
structure Covers (words : List Text) (size overlap step : ℕ) (chunks : List Text) : Prop where
  /-- The loop ends: with fuel for a round a word it is done. -/
  ends : ∀ fuel, words.length ≤ fuel → chunkLoop size step fuel words = chunks
  /-- A chunk is made of the words in its range. -/
  ranges : chunks.map split = (List.range chunks.length).map fun k =>
    (words.take (stop size step words.length k)).drop (k * step)
  length : ∀ chunk ∈ chunks, 1 ≤ (split chunk).length ∧ (split chunk).length ≤ size
  rejoined : rejoin overlap (chunks.map split) = words
  /-- A run of words that is no longer than the overlap and a word is in the range of a chunk. -/
  runs : ∀ i m, 0 < m → m ≤ overlap + 1 → i + m ≤ words.length →
    ∃ k < chunks.length, k * step ≤ i ∧ i + m ≤ stop size step words.length k
  /-- No range is in another one. -/
  apart : ∀ k < chunks.length, ∀ k' < chunks.length, k ≠ k' →
    ¬ (k' * step ≤ k * step ∧ stop size step words.length k ≤ stop size step words.length k')

section Chunks

variable {size step : ℕ} {words : List Text}

theorem chunkLoop_eq_windows (hstep : 0 < step) (hsize : step ≤ size) (fuel : ℕ) (h : words.length ≤ fuel) :
    chunkLoop size step fuel words = (windows size step words).map ([' '].intercalate) := by
  induction fuel generalizing words with
  | zero =>
    obtain rfl : words = [] := List.length_eq_zero_iff.mp (Nat.le_zero.mp h)
    rfl
  | succ fuel ih =>
    by_cases hwords : words = []
    · subst hwords
      rfl
    rw [chunkLoop, if_neg hwords]
    by_cases hshort : words.length ≤ size
    · rw [if_pos hshort, windows_short hwords hstep hshort]
      rfl
    · rw [if_neg hshort, windows_long hstep hsize (by omega), List.map_cons, ih]
      rw [List.length_drop]
      omega

/-- The words of the chunks are the windows. -/
theorem map_split_windows (hwords : ∀ w ∈ words, w ≠ [] ∧ ∀ c ∈ w, isSpace c = false) :
    ((windows size step words).map ([' '].intercalate)).map split = windows size step words := by
  rw [List.map_map]
  conv => rhs; rw [← List.map_id (windows size step words)]
  refine List.map_congr_left fun window hwindow => split_intercalate fun w hw => hwords w ?_
  obtain ⟨k, -, rfl⟩ := List.mem_map.mp hwindow
  exact List.mem_of_mem_drop (List.mem_of_mem_take hw)

theorem covers_windows {overlap : ℕ} (hwords : ∀ w ∈ words, w ≠ [] ∧ ∀ c ∈ w, isSpace c = false) (hstep : 0 < step)
    (hsize : overlap + step = size) :
    Covers words size overlap step ((windows size step words).map ([' '].intercalate)) where
  ends fuel h := chunkLoop_eq_windows hstep (by omega) fuel h
  ranges := by
    rw [map_split_windows hwords, List.length_map, windows, List.length_map, List.length_range]
    exact List.map_congr_left fun k _ => window_eq
  length chunk hchunk := by
    have hsplit : ((windows size step words).map ([' '].intercalate)).map split = windows size step words :=
      map_split_windows hwords
    have hmem : split chunk ∈ windows size step words := by
      rw [← hsplit]
      exact List.mem_map_of_mem hchunk
    exact length_mem_windows hstep (by omega) hmem
  rejoined := by
    rw [map_split_windows hwords]
    exact rejoin_windows hstep hsize words
  runs i m hm hle h := by
    simpa [windows] using exists_window hstep hsize hm hle h
  apart k hk k' hk' hne := by
    rw [List.length_map, windows, List.length_map, List.length_range] at hk hk'
    rintro ⟨hstart, hstop⟩
    rcases Nat.lt_or_gt_of_ne hne with hlt | hlt
    · have hless := (not_within hstep hk hk' hlt).1
      omega
    · have hless := (not_within hstep hk' hk hlt).2
      omega

end Chunks

/-- **Chunking loses nothing**, and ends. -/
theorem chunks_cover (text : Text) (chunkSize overlap : ℤ) (hoverlap : 0 ≤ overlap) (hlt : overlap < chunkSize) :
    Covers (split text) chunkSize.toNat overlap.toNat (chunkSize - overlap).toNat (chunkDocument text chunkSize overlap) := by
  have hstep : 0 < (chunkSize - overlap).toNat := by omega
  have hsize : overlap.toNat + (chunkSize - overlap).toNat = chunkSize.toNat := by omega
  have hmax : max 1 (chunkSize - overlap) = chunkSize - overlap := by omega
  rw [chunkDocument, hmax, chunkLoop_eq_windows hstep (by omega) _ le_rfl]
  exact covers_windows (fun w hw => mem_split hw) hstep hsize

theorem chunks_cover_tail : Covers (split "a b c d e".toList) 3 1 2 (chunkDocument "a b c d e".toList 3 1) :=
  chunks_cover "a b c d e".toList 3 1 (by decide) (by decide)

end CyClaw.Retrieval
