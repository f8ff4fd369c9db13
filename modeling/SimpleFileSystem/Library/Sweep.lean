import Mathlib.Data.List.ReduceOption
import SimpleFileSystem.Library.Execution

/-!
# Passes over a table of cells

A pass goes through a table of cells from the front, stops at each element, and may take
the one that it has just stopped at out of the table.  It is a pair of lists, the cells
behind it and the cells ahead.  Whatever is taken out, it meets every element once and in
order (`SweepStep.met_of_exec`), and what is left is what was not taken out, in its cell
(`SweepStep.getElem?_of_exec`).
-/

/-- A call on a pass, with what it did. -/
inductive SweepEvent (α : Type) where
  /-- The next element. -/
  | met (x : α)
  /-- The element that was met is taken out of the cell `i`. -/
  | removed (i : ℕ) (x : α)
  /-- There is none. -/
  | ended

/-- What a call does to the cells behind and ahead. -/
inductive SweepStep {α : Type} : List (Option α) × List (Option α) → SweepEvent α →
    List (Option α) × List (Option α) → Prop where
  | meet (A empty B : List (Option α)) {x : α} (unused : ∀ c ∈ empty, c = none) :
      SweepStep (A, empty ++ some x :: B) (.met x) (A ++ empty ++ [some x], B)
  | remove (A B : List (Option α)) {x : α} :
      SweepStep (A ++ [some x], B) (.removed A.length x) (A ++ [none], B)
  | finish (A B : List (Option α)) (unused : ∀ c ∈ B, c = none) :
      SweepStep (A, B) .ended (A ++ B, [])

namespace SweepEvent

variable {α : Type}

/-- The element that is met, if any. -/
def element : SweepEvent α → Option α
  | met x => some x
  | _ => none

/-- The cell that is emptied, if any. -/
def emptied : SweepEvent α → Option ℕ
  | removed i _ => some i
  | _ => none

end SweepEvent

namespace SweepStep

variable {α : Type} {s t : List (Option α) × List (Option α)} {ev : SweepEvent α}
  {tr : List (SweepEvent α)} {B : List (Option α)}

theorem reduceOption_of_unused (hB : ∀ c ∈ B, c = none) : B.reduceOption = [] := by
  rw [List.reduceOption_eq_nil_iff]
  exact ⟨B.length, List.eq_replicate_of_mem hB⟩

/-- An element that is met is the next one ahead. -/
theorem met (h : SweepStep s ev t) :
    ev.element.toList ++ t.2.reduceOption = s.2.reduceOption := by
  cases h with
  | meet A empty B unused =>
    rw [List.reduceOption_append, reduceOption_of_unused unused]
    simp [SweepEvent.element]
  | remove => rfl
  | finish A B unused =>
    rw [reduceOption_of_unused unused]
    rfl

/-- **Every element is met once and in order.** -/
theorem met_of_exec (h : Exec SweepStep s tr t) :
    tr.filterMap SweepEvent.element ++ t.2.reduceOption = s.2.reduceOption := by
  induction h with
  | nil => rfl
  | @cons s t u ev tr head _ ih =>
    rw [← head.met, ← ih]
    cases hev : ev.element <;> simp [hev]

/-- The elements that are met are the first ones. -/
theorem prefix_of_exec (h : Exec SweepStep s tr t) :
    tr.filterMap SweepEvent.element <+: s.2.reduceOption :=
  ⟨_, met_of_exec h⟩

/-- The next one is the one after them. -/
theorem prefix_of_meet {u : List (Option α) × List (Option α)} {x : α}
    (h : Exec SweepStep s tr t) (hstep : SweepStep t (.met x) u) :
    tr.filterMap SweepEvent.element ++ [x] <+: s.2.reduceOption := by
  have hprefix := prefix_of_exec (h.append (Exec.cons hstep (Exec.nil u)))
  rw [List.filterMap_append] at hprefix
  exact hprefix

/-- At the end there is nothing ahead. -/
theorem ahead_of_ended (h : Exec SweepStep s tr t) (hended : .ended ∈ tr) : t.2 = [] := by
  -- once nothing is ahead nothing will be
  have hstays : ∀ (s : List (Option α) × List (Option α)) ev t,
      s.2 = [] → SweepStep s ev t → t.2 = [] := by
    intro s ev t hs hstep
    cases hstep with
    | meet A empty B => exact absurd hs (by simp)
    | remove => exact hs
    | finish => rfl
  induction h with
  | nil => exact absurd hended List.not_mem_nil
  | cons head tail ih =>
    rcases List.mem_cons.mp hended with rfl | hended
    · cases head
      exact tail.invariant (I := fun u => u.2 = []) hstays rfl
    · exact ih hended

/-- Where the pass ended, every element was met. -/
theorem met_of_ended (h : Exec SweepStep s tr t) (hended : .ended ∈ tr) :
    tr.filterMap SweepEvent.element = s.2.reduceOption := by
  rw [← met_of_exec h, ahead_of_ended h hended, List.reduceOption_nil, List.append_nil]

/-- If it ends now, every element was met. -/
theorem met_of_finish {u : List (Option α) × List (Option α)} (h : Exec SweepStep s tr t)
    (hstep : SweepStep t .ended u) : tr.filterMap SweepEvent.element = s.2.reduceOption := by
  have hall := met_of_ended (h.append (Exec.cons hstep (Exec.nil u))) (by simp)
  rw [List.filterMap_append] at hall
  exact (List.append_nil _).symm.trans hall

/-- What a call leaves in a cell. -/
theorem getElem? (h : SweepStep s ev t) (i : ℕ) :
    (t.1 ++ t.2)[i]? = if ev.emptied = some i then some none else (s.1 ++ s.2)[i]? := by
  cases h with
  | meet A empty B => simp [SweepEvent.emptied]
  | remove A B =>
    simp only [SweepEvent.emptied, Option.some.injEq, List.append_assoc, List.singleton_append]
    rcases Nat.lt_trichotomy i A.length with hlt | rfl | hgt
    · rw [if_neg (Nat.ne_of_gt hlt), List.getElem?_append_left hlt, List.getElem?_append_left hlt]
    · simp
    · obtain ⟨n, hn⟩ : ∃ n, i - A.length = n + 1 := ⟨i - A.length - 1, by omega⟩
      rw [if_neg (Nat.ne_of_lt hgt), List.getElem?_append_right (Nat.le_of_lt hgt),
        List.getElem?_append_right (Nat.le_of_lt hgt), hn, List.getElem?_cons_succ,
        List.getElem?_cons_succ]
  | finish A B => simp [SweepEvent.emptied]

/-- **What is left**: the cells that were not emptied are what they were. -/
theorem getElem?_of_exec (h : Exec SweepStep s tr t) (i : ℕ) :
    (t.1 ++ t.2)[i]? =
      if i ∈ tr.filterMap SweepEvent.emptied then some none else (s.1 ++ s.2)[i]? := by
  induction h with
  | nil => simp
  | @cons s t u ev tr head _ ih =>
    rw [ih, head.getElem? i]
    cases hev : ev.emptied with
    | none => simp [hev]
    | some j =>
      by_cases hij : j = i
      · simp [hev, hij]
      · simp [hev, hij, Ne.symm hij]

/-- What is taken out of a cell was in it from the start. -/
theorem removed_of_exec (h : Exec SweepStep s tr t) {i : ℕ} {x : α}
    (hremoved : .removed i x ∈ tr) : (s.1 ++ s.2)[i]? = some (some x) := by
  induction h with
  | nil => exact absurd hremoved List.not_mem_nil
  | @cons s t u ev tr head _ ih =>
    rcases List.mem_cons.mp hremoved with rfl | hremoved
    · cases head with
      | remove A B => simp
    · have hlater := ih hremoved
      rw [head.getElem? i] at hlater
      split at hlater
      · cases hlater
      · exact hlater

theorem length_of_exec (h : Exec SweepStep s tr t) :
    (t.1 ++ t.2).length = (s.1 ++ s.2).length := by
  refine h.invariant (I := fun u => (u.1 ++ u.2).length = (s.1 ++ s.2).length)
    (fun u ev v hu hstep => ?_) rfl
  rw [← hu]
  cases hstep <;> simp

end SweepStep
