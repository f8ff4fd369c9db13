import Mathlib.Data.Finset.Card
import SimpleFileSystem.Library.Execution

/-!
# A pool of things to hand out

What an allocator is for: a finite set, from which a call takes an element --- any one
of them --- and into which a call gives one back.  The two laws that users of an
allocator rely on follow from the steps alone: an element that is taken twice was given
back in between (`PoolStep.given_between`), and without gifts a pool of `n` elements
serves `n` takes and no more (`PoolStep.taken_of_takes`).
-/

/-- A call on a pool, with its answer. -/
inductive PoolEvent (α : Type) where
  | take (answer : Option α)
  | give (x : α)

namespace PoolEvent

variable {α : Type}

/-- Whether an event took something. -/
def isTaken : PoolEvent α → Bool
  | take (some _) => true
  | _ => false

end PoolEvent

/-- What a call does to the pool. -/
inductive PoolStep {α : Type} [DecidableEq α] : Finset α → PoolEvent α → Finset α → Prop where
  | refuse : PoolStep ∅ (.take none) ∅
  | take {P : Finset α} {x : α} (h : x ∈ P) : PoolStep P (.take (some x)) (P.erase x)
  | give {P : Finset α} {x : α} (h : x ∉ P) : PoolStep P (.give x) (insert x P)

namespace PoolStep

variable {α : Type} [DecidableEq α] {P Q : Finset α} {tr : List (PoolEvent α)} {x : α}

/-- What is not in the pool stays out of it until it is given back. -/
theorem notMem_of_not_given (h : Exec PoolStep P tr Q) (hx : x ∉ P)
    (hgive : PoolEvent.give x ∉ tr) : x ∉ Q := by
  induction h with
  | nil => exact hx
  | cons head _ ih =>
    rw [List.mem_cons, not_or] at hgive
    refine ih (fun hm => ?_) hgive.2
    cases head with
    | refuse => exact hx hm
    | take _ => exact hx (Finset.mem_of_mem_erase hm)
    | give _ =>
      rcases Finset.mem_insert.mp hm with rfl | hm
      · exact hgive.1 rfl
      · exact hx hm

/-- **An element taken twice was given back in between.** -/
theorem given_between {tr₁ tr₂ tr₃ : List (PoolEvent α)}
    (h : Exec PoolStep P (tr₁ ++ .take (some x) :: (tr₂ ++ .take (some x) :: tr₃)) Q) :
    PoolEvent.give x ∈ tr₂ := by
  obtain ⟨P₁, -, h₁⟩ := h.split
  cases h₁ with
  | cons head tail =>
    cases head with
    | take _ =>
      obtain ⟨P₂, h₂, h₃⟩ := tail.split
      by_contra hgive
      have hout := notMem_of_not_given h₂ (Finset.notMem_erase x P₁) hgive
      cases h₃ with
      | cons head _ =>
        cases head with
        | take hin => exact hout hin

/-- **Without gifts, as many takes succeed as there are elements.** -/
theorem taken_of_takes (h : Exec PoolStep P tr Q)
    (htakes : ∀ e ∈ tr, ∃ answer, e = PoolEvent.take answer) :
    tr.countP PoolEvent.isTaken = min tr.length P.card := by
  induction h with
  | nil => simp
  | cons head _ ih =>
    have ih := ih fun e he => htakes e (List.mem_cons_of_mem _ he)
    cases head with
    | refuse => simpa [PoolEvent.isTaken] using ih
    | take hx =>
      have hcard := Finset.card_erase_add_one hx
      simp only [List.countP_cons, PoolEvent.isTaken, if_true, List.length_cons]
      omega
    | give _ =>
      obtain ⟨answer, e⟩ := htakes _ List.mem_cons_self
      exact nomatch e

end PoolStep
