import Mathlib.Data.List.Chain
import Mathlib.Order.Interval.Set.Defs
import Mathlib.Order.Lattice

/-!
# Tilings of an interval

A list of half-open intervals tiles `[a, b)` if they are nonempty, the first begins at
`a`, each other one begins where the one before it ends, and the last ends at `b`
(`Tiles`).  Then they are disjoint (`Tiles.pairwise_disjoint`) and their union is `[a, b)`
(`Tiles.exists_mem_iff`).
-/

variable {α : Type} [LinearOrder α]

/-- **The intervals tile `[a, b)`**, in this order. -/
def Tiles : List (α × α) → α → α → Prop
  | [], a, b => a = b
  | i :: l, a, b => i.1 = a ∧ a < i.2 ∧ Tiles l i.2 b

namespace Tiles

variable {l : List (α × α)} {a b c : α}

theorem le (h : Tiles l a b) : a ≤ b := by
  induction l generalizing a with
  | nil => exact le_of_eq h
  | cons i l ih => exact (le_of_lt h.2.1).trans (ih h.2.2)

/-- Every interval lies in `[a, b)`, and is not empty. -/
theorem bounds (h : Tiles l a b) : ∀ i ∈ l, a ≤ i.1 ∧ i.1 < i.2 ∧ i.2 ≤ b := by
  induction l generalizing a with
  | nil => exact fun i hi => absurd hi List.not_mem_nil
  | cons j l ih =>
    obtain ⟨rfl, hlt, hl⟩ := h
    intro i hi
    rcases List.mem_cons.mp hi with rfl | hi
    · exact ⟨le_refl i.1, hlt, hl.le⟩
    · obtain ⟨hfirst, hne, hlast⟩ := ih hl i hi
      exact ⟨(le_of_lt hlt).trans hfirst, hne, hlast⟩

/-- **Each interval begins where the one before it ends.** -/
theorem isChain (h : Tiles l a b) : l.IsChain fun i j => i.2 = j.1 := by
  induction l generalizing a with
  | nil => exact List.IsChain.nil
  | cons i l ih =>
    obtain ⟨-, -, hl⟩ := h
    cases l with
    | nil => exact List.isChain_singleton _
    | cons j l => exact List.isChain_cons_cons.mpr ⟨hl.1.symm, ih hl⟩

/-- **The intervals are disjoint.** -/
theorem pairwise_disjoint (h : Tiles l a b) :
    l.Pairwise fun i j => ∀ c ∈ Set.Ico i.1 i.2, c ∉ Set.Ico j.1 j.2 := by
  induction l generalizing a with
  | nil => exact List.Pairwise.nil
  | cons i l ih =>
    obtain ⟨-, -, hl⟩ := h
    refine List.pairwise_cons.mpr ⟨fun j hj c hc hc' => ?_, ih hl⟩
    have hle : i.2 ≤ c := (hl.bounds j hj).1.trans hc'.1
    exact absurd hc.2 (not_lt_of_ge hle)

/-- **The union of the intervals** is `[a, b)`. -/
theorem exists_mem_iff (h : Tiles l a b) :
    (∃ i ∈ l, c ∈ Set.Ico i.1 i.2) ↔ c ∈ Set.Ico a b := by
  induction l generalizing a with
  | nil =>
    obtain rfl : a = b := h
    refine iff_of_false (fun ⟨i, hi, _⟩ => absurd hi List.not_mem_nil) fun hc => ?_
    exact absurd hc.2 (not_lt_of_ge hc.1)
  | cons i l ih =>
    obtain ⟨rfl, hlt, hl⟩ := h
    constructor
    · rintro ⟨j, hj, hc⟩
      rcases List.mem_cons.mp hj with rfl | hj
      · exact ⟨hc.1, hc.2.trans_le hl.le⟩
      · have hc' := (ih hl).mp ⟨j, hj, hc⟩
        exact ⟨(le_of_lt hlt).trans hc'.1, hc'.2⟩
    · intro hc
      rcases lt_or_ge c i.2 with hci | hci
      · exact ⟨i, List.mem_cons_self, hc.1, hci⟩
      · obtain ⟨j, hj, hcj⟩ := (ih hl).mpr ⟨hci, hc.2⟩
        exact ⟨j, List.mem_cons_of_mem _ hj, hcj⟩

end Tiles
