/-
A stable sort, as `sorted` is one.

`insertionSort` leaves what `r` takes for equal in the order it had: whatever holds of an element
and a later one before holds after, where `r` does not part the two.
-/
import Mathlib.Data.List.Sort

namespace CyClaw.StableSort

variable {α : Type} {r s : α → α → Prop} [DecidableRel r]

/-- Sorted by `r`, and by `s` among those that `r` takes for equal. -/
def Stable (r s : α → α → Prop) (a b : α) : Prop := r a b ∧ (r b a → s a b)

theorem stable_orderedInsert [Std.Total r] [IsTrans α r] {a : α} {l : List α} (hs : ∀ b ∈ l, s a b)
    (h : l.Pairwise (Stable r s)) : (l.orderedInsert r a).Pairwise (Stable r s) := by
  induction l with
  | nil => exact List.pairwise_singleton _ _
  | cons b l ih =>
    obtain ⟨hb, hl⟩ := List.pairwise_cons.mp h
    by_cases hab : r a b
    · rw [List.orderedInsert_cons_of_le r l hab]
      refine List.pairwise_cons.mpr ⟨fun c hc => ⟨?_, fun _ => hs c hc⟩, h⟩
      rcases List.mem_cons.mp hc with rfl | hc
      · exact hab
      · exact IsTrans.trans a b c hab (hb c hc).1
    · rw [List.orderedInsert_of_not_le r l hab]
      refine List.pairwise_cons.mpr ⟨fun c hc => ?_, ih (fun c hc => hs c (List.mem_cons_of_mem b hc)) hl⟩
      rcases (List.mem_orderedInsert r).mp hc with rfl | hc
      · exact ⟨(Std.Total.total b c).resolve_right hab, fun hcb => absurd hcb hab⟩
      · exact hb c hc

theorem stable_insertionSort [Std.Total r] [IsTrans α r] {l : List α} (h : l.Pairwise s) :
    (l.insertionSort r).Pairwise (Stable r s) := by
  induction l with
  | nil => exact List.Pairwise.nil
  | cons a l ih =>
    obtain ⟨ha, hl⟩ := List.pairwise_cons.mp h
    rw [List.insertionSort_cons]
    exact stable_orderedInsert (fun b hb => ha b ((List.mem_insertionSort r).mp hb)) (ih hl)

end CyClaw.StableSort
