/-
`bisect.bisect_right`.

The search halves the part in which the place is, as CPython does.  What is kept: all that stands
before that part is no greater than `x`, and all that stands after it is greater.
-/
import Mathlib.Data.List.Basic
import Mathlib.Order.Lattice

namespace CyClaw.Bisect

variable {α : Type} [LinearOrder α]

def bisectLoop (a : List α) (x : α) : ℕ → ℕ → ℕ → ℕ
  | 0, lo, _ => lo
  | fuel + 1, lo, hi =>
      if lo < hi then
        let mid := (lo + hi) / 2
        if a[mid]?.any (x < ·) then bisectLoop a x fuel lo mid else bisectLoop a x fuel (mid + 1) hi
      else lo

def bisectRight (a : List α) (x : α) : ℕ := bisectLoop a x a.length 0 a.length

/-- The place of `x` is `i`. -/
structure Splits (a : List α) (x : α) (i : ℕ) : Prop where
  before : ∀ y ∈ a.take i, y ≤ x
  after : ∀ y ∈ a.drop i, x < y

variable {a : List α} {x y : α} {m : ℕ}

theorem lt_of_mem_drop (h : a.Pairwise (· ≤ ·)) (hm : a[m]? = some y) (hx : x < y) : ∀ z ∈ a.drop m, x < z := by
  obtain ⟨hlt, rfl⟩ := List.getElem?_eq_some_iff.mp hm
  have hsorted : (a.drop m).Pairwise (· ≤ ·) := h.sublist (List.drop_sublist m a)
  rw [List.drop_eq_getElem_cons hlt] at hsorted ⊢
  intro z hz
  rcases List.mem_cons.mp hz with rfl | hz
  · exact hx
  · exact lt_of_lt_of_le hx ((List.pairwise_cons.mp hsorted).1 z hz)

theorem le_of_mem_take (h : a.Pairwise (· ≤ ·)) (hm : a[m]? = some y) (hx : y ≤ x) : ∀ z ∈ a.take (m + 1), z ≤ x := by
  obtain ⟨hlt, rfl⟩ := List.getElem?_eq_some_iff.mp hm
  have hsorted : (a.take (m + 1)).Pairwise (· ≤ ·) := h.sublist (List.take_sublist (m + 1) a)
  rw [List.take_succ_eq_append_getElem hlt] at hsorted ⊢
  intro z hz
  rcases List.mem_append.mp hz with hz | hz
  · exact le_trans ((List.pairwise_append.mp hsorted).2.2 z hz _ (List.mem_singleton_self _)) hx
  · rw [List.mem_singleton.mp hz]
    exact hx

theorem splits_bisectLoop (h : a.Pairwise (· ≤ ·)) (fuel lo hi : ℕ) (hle : lo ≤ hi) (hlen : hi ≤ a.length)
    (hfuel : hi ≤ lo + fuel) (hlo : ∀ y ∈ a.take lo, y ≤ x) (hhi : ∀ y ∈ a.drop hi, x < y) :
    Splits a x (bisectLoop a x fuel lo hi) := by
  induction fuel generalizing lo hi with
  | zero =>
    obtain rfl : lo = hi := by omega
    exact ⟨hlo, hhi⟩
  | succ fuel ih =>
    rw [bisectLoop]
    by_cases hlt : lo < hi
    · rw [if_pos hlt]
      have hmid : (lo + hi) / 2 < a.length := by omega
      have hget : a[(lo + hi) / 2]? = some a[(lo + hi) / 2] := List.getElem?_eq_getElem hmid
      by_cases hx : x < a[(lo + hi) / 2]
      · simp only [hget, Option.any_some, hx, decide_true, if_true]
        exact ih lo _ (by omega) (by omega) (by omega) hlo (lt_of_mem_drop h hget hx)
      · simp only [hget, Option.any_some, hx, decide_false, Bool.false_eq_true, if_false]
        exact ih _ hi (by omega) hlen (by omega) (le_of_mem_take h hget (not_lt.mp hx)) hhi
    · rw [if_neg hlt]
      obtain rfl : lo = hi := by omega
      exact ⟨hlo, hhi⟩

/-- **In a sorted list everything up to the place is no greater, and everything after it is.** -/
theorem splits_bisectRight (h : a.Pairwise (· ≤ ·)) (x : α) : Splits a x (bisectRight a x) :=
  splits_bisectLoop h a.length 0 a.length (Nat.zero_le _) (Nat.le_refl _) (by omega) (by simp) (by simp)

end CyClaw.Bisect
