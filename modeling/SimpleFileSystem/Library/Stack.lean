import Mathlib.Data.Finset.Insert
import SimpleFileSystem.Library.Pool

/-!
# A pool that is a stack

An allocator that keeps what it has to hand out in a list, takes from the front and puts
back in front.  It is a pool with less freedom (`StackStep.refines_pool`), so the laws of
pools hold of it; that nothing is in it twice is what makes it one.
-/

/-- What a call does to the stack. -/
inductive StackStep {α : Type} : List α → PoolEvent α → List α → Prop where
  | refuse : StackStep [] (.take none) []
  | pop (x : α) (l : List α) : StackStep (x :: l) (.take (some x)) l
  | push {x : α} {l : List α} (h : x ∉ l) : StackStep l (.give x) (x :: l)

namespace StackStep

variable {α : Type} [DecidableEq α] {l l' : List α} {e : PoolEvent α} {tr : List (PoolEvent α)}

/-- **A step of the stack is one of the pool** of its elements. -/
theorem refines_pool (hl : l.Nodup) (h : StackStep l e l') :
    PoolStep l.toFinset e l'.toFinset ∧ l'.Nodup := by
  cases h with
  | refuse => exact ⟨PoolStep.refuse, List.nodup_nil⟩
  | pop x =>
    have hx := (List.nodup_cons.mp hl).1
    have herase : (x :: l').toFinset.erase x = l'.toFinset := by
      rw [List.toFinset_cons, Finset.erase_insert fun hm => hx (List.mem_toFinset.mp hm)]
    refine ⟨?_, (List.nodup_cons.mp hl).2⟩
    rw [← herase]
    exact PoolStep.take (List.mem_toFinset.mpr List.mem_cons_self)
  | push hx =>
    refine ⟨?_, List.nodup_cons.mpr ⟨hx, hl⟩⟩
    rw [List.toFinset_cons]
    exact PoolStep.give fun hm => hx (List.mem_toFinset.mp hm)

/-- **An element taken twice was given back in between.** -/
theorem given_between {x : α} {tr₁ tr₂ tr₃ : List (PoolEvent α)} (hl : l.Nodup)
    (h : Exec StackStep l (tr₁ ++ .take (some x) :: (tr₂ ++ .take (some x) :: tr₃)) l') :
    PoolEvent.give x ∈ tr₂ := by
  obtain ⟨P, hexec, -⟩ := h.simulate (R := fun l P => l.Nodup ∧ l.toFinset = P)
    (by
      rintro l e l' _ ⟨hl, rfl⟩ hstep
      obtain ⟨hpool, hl'⟩ := hstep.refines_pool hl
      exact ⟨_, hpool, hl', rfl⟩)
    ⟨hl, rfl⟩
  exact PoolStep.given_between hexec

end StackStep
