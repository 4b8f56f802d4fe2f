/-
A list cut into windows that overlap.

Each window has `size` elements and begins `step` elements after the one before; the last one ends
with the list, and none is cut after it.  With `step` no more than `size` nothing is lost: what the
windows have beyond their overlap is the list (`rejoin_windows`), and what is no longer than the
overlap and one element more is in one of them (`exists_window`).
-/
import Mathlib.Data.List.Basic
import Mathlib.Tactic.Linarith

namespace CyClaw.Strides

variable {α : Type} {size step n : ℕ} {l : List α}

/-- How many windows there are. -/
def count (size step n : ℕ) : ℕ := if n = 0 then 0 else (n - size + step - 1) / step + 1

/-- Where the window ends. -/
def stop (size step n k : ℕ) : ℕ := min (k * step + size) n

def window (size step : ℕ) (l : List α) (k : ℕ) : List α := (l.drop (k * step)).take size

def windows (size step : ℕ) (l : List α) : List (List α) := (List.range (count size step l.length)).map (window size step l)

/-- What the windows have without what they share with the one before. -/
def rejoin (overlap : ℕ) : List (List α) → List α
  | [] => []
  | w :: ws => w ++ ws.flatMap (List.drop overlap)

/-! ### Counting -/

/-- A window begins before the list ends, and all but the last one end before it. -/
theorem start_lt {k : ℕ} (hstep : 0 < step) (hsize : step ≤ size) (hk : k < count size step n) : k * step < n := by
  unfold count at hk
  split at hk
  · omega
  · have hle : k * step ≤ (n - size + step - 1) / step * step := Nat.mul_le_mul_right step (by omega)
    have hdiv := Nat.div_mul_le_self (n - size + step - 1) step
    by_cases hn : n ≤ size
    · have hzero : (n - size + step - 1) / step = 0 := Nat.div_eq_of_lt (by omega)
      rw [hzero, Nat.zero_mul] at hle
      omega
    · omega

theorem stop_lt {k : ℕ} (hstep : 0 < step) (hk : k + 1 < count size step n) : k * step + size < n := by
  unfold count at hk
  split at hk
  · omega
  · have hle : (k + 1) * step ≤ (n - size + step - 1) / step * step := Nat.mul_le_mul_right step (by omega)
    have hdiv := Nat.div_mul_le_self (n - size + step - 1) step
    rw [Nat.succ_mul] at hle
    omega

/-- The last one ends with the list. -/
theorem le_stop {k : ℕ} (hstep : 0 < step) (hk : k + 1 = count size step n) : n ≤ k * step + size := by
  unfold count at hk
  split at hk
  · omega
  · obtain rfl : k = (n - size + step - 1) / step := by omega
    have hlt := Nat.lt_div_mul_add hstep (a := n - size + step - 1)
    omega

theorem count_eq_one (hn : n ≠ 0) (hstep : 0 < step) (h : n ≤ size) : count size step n = 1 := by
  rw [count, if_neg hn, Nat.div_eq_of_lt (by omega)]

theorem count_succ (hstep : 0 < step) (hsize : step ≤ size) (h : size < n) :
    count size step n = count size step (n - step) + 1 := by
  rw [count, count, if_neg (by omega), if_neg (by omega)]
  by_cases hn : n - step ≤ size
  · rw [Nat.div_eq_of_lt (by omega : n - step - size + step - 1 < step),
      show n - size + step - 1 = n - size - 1 + step by omega, Nat.add_div_right _ hstep, Nat.div_eq_of_lt (by omega)]
  · rw [show n - size + step - 1 = n - step - size + step - 1 + step by omega, Nat.add_div_right _ hstep]

/-! ### The windows -/

theorem windows_short (hl : l ≠ []) (hstep : 0 < step) (h : l.length ≤ size) : windows size step l = [l] := by
  rw [windows, count_eq_one (fun h => hl (List.length_eq_zero_iff.mp h)) hstep h]
  simp [window, List.take_of_length_le h]

theorem windows_long (hstep : 0 < step) (hsize : step ≤ size) (h : size < l.length) :
    windows size step l = l.take size :: windows size step (l.drop step) := by
  have hnext : ∀ k, window size step l (k + 1) = window size step (l.drop step) k := by
    intro k
    rw [window, window, List.drop_drop, Nat.succ_mul, Nat.add_comm]
  rw [windows, count_succ hstep hsize h, List.range_succ_eq_map, List.map_cons, List.map_map, windows, List.length_drop]
  refine congrArg₂ List.cons ?_ (List.map_congr_left fun k _ => hnext k)
  simp [window]

theorem length_window {k : ℕ} : (window size step l k).length = stop size step l.length k - k * step := by
  rw [window, List.length_take, List.length_drop, stop]
  omega

theorem window_eq {k : ℕ} : window size step l k = (l.take (stop size step l.length k)).drop (k * step) := by
  rw [window, stop, List.drop_take, List.take_eq_take_iff, List.length_drop]
  omega

theorem windows_head {w : List α} {ws : List (List α)} (h : windows size step l = w :: ws) : w = l.take size := by
  have hhead := congrArg (fun ws => ws[0]?) h
  simp only [windows, List.getElem?_map, List.getElem?_cons_zero, Option.map_eq_some_iff] at hhead
  obtain ⟨k, hk, rfl⟩ := hhead
  obtain ⟨-, rfl⟩ := List.getElem?_eq_some_iff.mp hk
  simp [window]

/-- **Every window has an element, and no more than `size`.** -/
theorem length_mem_windows {w : List α} (hstep : 0 < step) (hsize : step ≤ size) (hw : w ∈ windows size step l) :
    0 < w.length ∧ w.length ≤ size := by
  obtain ⟨k, hk, rfl⟩ := List.mem_map.mp hw
  have hlt := start_lt hstep hsize (List.mem_range.mp hk)
  rw [length_window, stop]
  omega

/-- **Nothing is lost, and nothing comes twice.** -/
theorem rejoin_windows {overlap : ℕ} (hstep : 0 < step) (hsize : overlap + step = size) (l : List α) :
    rejoin overlap (windows size step l) = l := by
  induction hn : l.length using Nat.strong_induction_on generalizing l with
  | _ n ih =>
    by_cases hl : l = []
    · subst hl
      rfl
    by_cases hshort : l.length ≤ size
    · rw [windows_short hl hstep hshort, rejoin, List.flatMap_nil, List.append_nil]
    rw [windows_long hstep (by omega) (by omega)]
    have hrest := ih (l.drop step).length (by rw [List.length_drop]; omega) (l.drop step) rfl
    cases hwindows : windows size step (l.drop step) with
    | nil =>
      rw [hwindows] at hrest
      have hlength := congrArg List.length hrest
      simp only [rejoin, List.length_nil, List.length_drop] at hlength
      omega
    | cons w ws =>
      rw [hwindows, rejoin] at hrest
      have hw : overlap ≤ w.length := by
        rw [windows_head hwindows, List.length_take, List.length_drop]
        omega
      rw [rejoin, List.flatMap_cons, ← List.drop_append_of_le_length hw, hrest, List.drop_drop,
        show step + overlap = size by omega, List.take_append_drop]

/-- **What is no longer than the overlap and one element more is in a window.** -/
theorem exists_window {overlap i m : ℕ} (hstep : 0 < step) (hsize : overlap + step = size) (hm : 0 < m)
    (hle : m ≤ overlap + 1) (h : i + m ≤ n) :
    ∃ k < count size step n, k * step ≤ i ∧ i + m ≤ stop size step n k := by
  have hdiv := Nat.div_mul_le_self i step
  have hlt : i < i / step * step + step := Nat.lt_div_mul_add hstep
  by_cases hk : i / step < count size step n
  · exact ⟨i / step, hk, hdiv, by rw [stop]; omega⟩
  · have hpos : 0 < count size step n := by
      rw [count, if_neg (by omega)]
      exact Nat.succ_pos _
    obtain ⟨k, hlast⟩ : ∃ k, k + 1 = count size step n := ⟨count size step n - 1, by omega⟩
    have hstop := le_stop hstep hlast
    have hstart : k * step ≤ i / step * step := Nat.mul_le_mul_right step (by omega)
    exact ⟨k, by omega, by omega, by rw [stop]; omega⟩

/-- **No window is in another one.** -/
theorem not_within {k k' : ℕ} (hstep : 0 < step) (hk : k < count size step n) (hk' : k' < count size step n) (h : k < k') :
    k * step < k' * step ∧ stop size step n k < stop size step n k' := by
  have hlt : k * step < k' * step := Nat.mul_lt_mul_of_pos_right h hstep
  have hstop : k * step + size < n := stop_lt hstep (by omega)
  refine ⟨hlt, ?_⟩
  rw [stop, stop]
  omega

end CyClaw.Strides
