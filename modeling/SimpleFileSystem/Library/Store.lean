import Mathlib.Logic.Function.Basic
import SimpleFileSystem.Library.Execution

/-!
# A store

A table from keys to values, with calls that get and set one entry.  It is the
specification of everything that keeps entries somewhere and finds them again: what a
get answers is what the last set of that key put there (`StoreStep.get_after_set`).
-/

/-- A call on a store, with its answer. -/
inductive StoreEvent (ι α : Type) where
  | get (i : ι) (answer : α)
  | set (i : ι) (x : α)

/-- What a call does to the table. -/
inductive StoreStep {ι α : Type} [DecidableEq ι] :
    (ι → α) → StoreEvent ι α → (ι → α) → Prop where
  | get (f : ι → α) (i : ι) : StoreStep f (.get i (f i)) f
  | set (f : ι → α) (i : ι) (x : α) : StoreStep f (.set i x) (Function.update f i x)

namespace StoreStep

variable {ι α : Type} [DecidableEq ι] {f g : ι → α} {tr : List (StoreEvent ι α)} {i : ι} {x y : α}

/-- An entry that no call sets stays what it is. -/
theorem apply_of_not_set (h : Exec StoreStep f tr g) (hset : ∀ y, StoreEvent.set i y ∉ tr) :
    g i = f i := by
  induction h with
  | nil => rfl
  | cons head _ ih =>
    rw [ih fun y hy => hset y (List.mem_cons_of_mem _ hy)]
    cases head with
    | get => rfl
    | set j z =>
      refine Function.update_of_ne ?_ _ _
      rintro rfl
      exact hset z List.mem_cons_self

/-- **What was set is what is got.** -/
theorem get_after_set {tr₁ tr₂ tr₃ : List (StoreEvent ι α)}
    (h : Exec StoreStep f (tr₁ ++ .set i x :: (tr₂ ++ .get i y :: tr₃)) g)
    (hset : ∀ z, StoreEvent.set i z ∉ tr₂) : y = x := by
  obtain ⟨f₁, -, h₁⟩ := h.split
  cases h₁ with
  | cons head tail =>
    cases head with
    | set =>
      obtain ⟨f₂, h₂, h₃⟩ := tail.split
      have hx := apply_of_not_set h₂ hset
      rw [Function.update_self] at hx
      cases h₃ with
      | cons head _ =>
        cases head with
        | get => exact hx

end StoreStep
