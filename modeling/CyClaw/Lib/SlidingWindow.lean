/-
Sliding windows over a log of moments.

A queue follows a log when it holds the end of the log and what it has forgotten has left
the window (`Follows`).  Pruning and appending keep that, and it is enough for two things: the
queue after pruning has all that a window may count (`Follows.countP_le`), so a log that only
grows while the queue has room is capped in every window (`Capped.append`); and a queue loses
its first `n` moments as soon as the `n`th has left the window (`length_prune_le`), which is
what a deadline for a retry rests on.
-/
import Mathlib.Algebra.Order.Group.Defs
import Mathlib.Algebra.Order.Sub.Defs
import Mathlib.Data.List.Basic
import Mathlib.Data.List.Infix
import Mathlib.Data.List.TakeWhile

namespace SlidingWindow

variable {α : Type*} [AddCommGroup α] [LinearOrder α]

/-- Drop what has left the window from the front. -/
def prune (w : α) (q : List α) (now : α) : List α := q.dropWhile fun t => decide (t ≤ now - w)

/-- A set of moments less than a window apart. -/
def Narrow (w : α) (p : α → Bool) : Prop := ∀ a b, p a = true → p b = true → b < a + w

/-- No window counts more than `n` moments of the log. -/
def Capped (w : α) (n : ℕ) (log : List α) : Prop := ∀ p, Narrow w p → log.countP p ≤ n

/-- **The queue holds the end of the log**, and the rest of it has left the window. -/
structure Follows (w now : α) (log q : List α) : Prop where
  /-- What is forgotten no window counts any more. -/
  kept : ∃ gone, log = gone ++ q ∧ ∀ t ∈ gone, t ≤ now - w
  ordered : log.Pairwise (· ≤ ·)
  past : ∀ t ∈ log, t ≤ now

variable {w now now' : α} {log q : List α} {n : ℕ}

theorem Follows.nil (w now : α) : Follows w now [] [] :=
  ⟨⟨[], by simp, by simp⟩, by simp, by simp⟩

theorem Follows.queue_ordered (h : Follows w now log q) : q.Pairwise (· ≤ ·) := by
  obtain ⟨gone, rfl, -⟩ := h.kept
  exact (List.pairwise_append.mp h.ordered).2.1

theorem Follows.queue_past (h : Follows w now log q) : ∀ t ∈ q, t ≤ now := by
  obtain ⟨gone, rfl, -⟩ := h.kept
  intro t ht
  exact h.past t (by simp [ht])

theorem Follows.prune (h : Follows w now log q) : Follows w now log (prune w q now) := by
  obtain ⟨gone, hlog, hgone⟩ := h.kept
  refine ⟨⟨gone ++ q.takeWhile fun t => decide (t ≤ now - w), ?_, ?_⟩, h.ordered, h.past⟩
  · rw [hlog, SlidingWindow.prune, List.append_assoc, List.takeWhile_append_dropWhile]
  · intro t ht
    rcases List.mem_append.mp ht with ht | ht
    · exact hgone t ht
    · simpa using List.mem_takeWhile_imp ht

theorem Follows.append (h : Follows w now log q) (n : ℕ) :
    Follows w now (log ++ List.replicate n now) (q ++ List.replicate n now) := by
  obtain ⟨gone, hlog, hgone⟩ := h.kept
  refine ⟨⟨gone, by simp [hlog], hgone⟩, ?_, ?_⟩
  · rw [List.pairwise_append]
    refine ⟨h.ordered, by simp [List.pairwise_replicate], ?_⟩
    intro a ha b hb
    rw [List.eq_of_mem_replicate hb]
    exact h.past a ha
  · intro t ht
    rcases List.mem_append.mp ht with ht | ht
    · exact h.past t ht
    · exact (List.eq_of_mem_replicate ht).le

/-- A window that reaches up to now counts nothing of the log that the queue does not hold. -/
theorem Follows.countP_le (h : Follows w now log q) {p : α → Bool} (hp : ∀ t, p t = true → now - w < t) :
    log.countP p ≤ q.length := by
  obtain ⟨gone, rfl, hgone⟩ := h.kept
  have hzero : gone.countP p = 0 := by
    rw [List.countP_eq_zero]
    intro t ht hpt
    exact absurd (hgone t ht) (not_le.mpr (hp t hpt))
  rw [List.countP_append, hzero, Nat.zero_add]
  exact List.countP_le_length

/-- **Once the `n`th moment has left the window, `n` are gone.** -/
theorem length_prune_le (hq : q.Pairwise (· ≤ ·)) {i : ℕ} {t : α} (ht : q[i]? = some t) (hle : t ≤ now - w) :
    (prune w q now).length + (i + 1) ≤ q.length := by
  induction q generalizing i with
  | nil => simp at ht
  | cons a q ih =>
      rw [List.pairwise_cons] at hq
      have ha : a ≤ now - w := by
        cases i with
        | zero =>
            simp only [List.getElem?_cons_zero, Option.some.injEq] at ht
            rw [ht]
            exact hle
        | succ i => exact (hq.1 t (List.mem_of_getElem? (by simpa using ht))).trans hle
      have hdrop : prune w (a :: q) now = prune w q now := by simp [prune, ha]
      rw [hdrop, List.length_cons]
      cases i with
      | zero =>
          have hlen : (prune w q now).length ≤ q.length := (List.dropWhile_suffix _).length_le
          omega
      | succ i =>
          have hrec := ih hq.2 (by simpa using ht)
          omega

theorem length_prune (w : α) (q : List α) (now : α) : (prune w q now).length ≤ q.length :=
  (List.dropWhile_suffix _).length_le

/-! ### Moving on -/

variable [IsOrderedAddMonoid α]

theorem narrow_Ioc (w start : α) : Narrow w fun t => decide (start < t ∧ t ≤ start + w) := by
  intro a b ha hb
  simp only [decide_eq_true_eq] at ha hb
  calc b ≤ start + w := hb.2
    _ < a + w := by simpa using ha.1

theorem narrow_Ico (w start : α) : Narrow w fun t => decide (start ≤ t ∧ t < start + w) := by
  intro a b ha hb
  simp only [decide_eq_true_eq] at ha hb
  calc b < start + w := hb.2
    _ ≤ a + w := by simpa using ha.1

theorem Follows.later (h : Follows w now log q) (hle : now ≤ now') : Follows w now' log q := by
  obtain ⟨gone, hlog, hgone⟩ := h.kept
  refine ⟨⟨gone, hlog, ?_⟩, h.ordered, fun t ht => (h.past t ht).trans hle⟩
  intro t ht
  exact (hgone t ht).trans (by simpa using hle)

/-- **A log stays capped** as long as the queue has room for what is appended. -/
theorem Capped.append {m : ℕ} (hcap : Capped w m log) (h : Follows w now log q) (hroom : q.length + n ≤ m) :
    Capped w m (log ++ List.replicate n now) := by
  intro p hp
  rw [List.countP_append, List.countP_replicate]
  by_cases hnow : p now = true
  · rw [if_pos hnow]
    have hle : log.countP p ≤ q.length := by
      refine h.countP_le fun t ht => ?_
      have hlt := hp t now ht hnow
      exact sub_lt_iff_lt_add.mpr hlt
    omega
  · rw [if_neg hnow]
    exact hcap p hp

end SlidingWindow
