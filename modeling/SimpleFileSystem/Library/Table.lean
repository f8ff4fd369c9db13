import Mathlib.Logic.Function.Basic
import SimpleFileSystem.Library.Execution

/-!
# A table of rows

A store whose keys come in two parts: a row, and a place in it.  A call gets or sets one
place, and there is a third kind of call that makes a whole row blank.  It is the
specification of anything that keeps several sequences side by side, such as the files of a
disk, and hands a row out again once it has been given up.

`TableEvent.put` is what a call puts at a place, and the law is that a get answers what was
put there last (`TableStep.apply_eq_last`).
-/

/-- A call on a table, with its answer. -/
inductive TableEvent (κ ι α : Type) where
  | get (k : κ) (i : ι) (answer : α)
  | set (k : κ) (i : ι) (x : α)
  | reset (k : κ)

section Table

variable {κ ι α : Type} [DecidableEq κ] [DecidableEq ι]

/-- What a call puts at a place, if it puts anything there. -/
def TableEvent.put (blank : α) (k : κ) (i : ι) : TableEvent κ ι α → Option α
  | .get _ _ _ => none
  | .set k' i' x => if k' = k ∧ i' = i then some x else none
  | .reset k' => if k' = k then some blank else none

/-- What a call does to the table. -/
inductive TableStep (blank : α) : (κ → ι → α) → TableEvent κ ι α → (κ → ι → α) → Prop where
  | get (f : κ → ι → α) (k : κ) (i : ι) : TableStep blank f (.get k i (f k i)) f
  | set (f : κ → ι → α) (k : κ) (i : ι) (x : α) :
      TableStep blank f (.set k i x) (Function.update f k (Function.update (f k) i x))
  | reset (f : κ → ι → α) (k : κ) :
      TableStep blank f (.reset k) (Function.update f k fun _ => blank)

namespace TableStep

variable {blank : α} {f g : κ → ι → α} {e : TableEvent κ ι α} {tr : List (TableEvent κ ι α)}

/-- One call puts at a place what it says, or leaves it alone. -/
theorem apply_eq (h : TableStep blank f e g) (k : κ) (i : ι) :
    g k i = (e.put blank k i).getD (f k i) := by
  cases h with
  | get => rfl
  | set k' i' x =>
    rw [TableEvent.put]
    by_cases hk : k' = k
    · subst hk
      rw [Function.update_self]
      by_cases hi : i' = i
      · rw [hi, Function.update_self, if_pos ⟨rfl, rfl⟩, Option.getD_some]
      · rw [Function.update_of_ne (Ne.symm hi), if_neg fun h => hi h.2, Option.getD_none]
    · rw [Function.update_of_ne (Ne.symm hk), if_neg fun h => hk h.1, Option.getD_none]
  | reset k' =>
    rw [TableEvent.put]
    by_cases hk : k' = k
    · rw [hk, Function.update_self, if_pos rfl, Option.getD_some]
    · rw [Function.update_of_ne (Ne.symm hk), if_neg hk, Option.getD_none]

/-- **What is at a place is what was put there last.** -/
theorem apply_eq_last (h : Exec (TableStep blank) f tr g) (k : κ) (i : ι) :
    g k i = (tr.reverse.findSome? (TableEvent.put blank k i)).getD (f k i) := by
  induction h with
  | nil => rfl
  | cons head _ ih =>
    rw [ih, head.apply_eq k i, List.reverse_cons, List.findSome?_append, List.findSome?_singleton]
    cases List.findSome? (TableEvent.put blank k i) _ with
    | none => rw [Option.none_or, Option.getD_none]
    | some x => rw [Option.some_or, Option.getD_some, Option.getD_some]

end TableStep

end Table
