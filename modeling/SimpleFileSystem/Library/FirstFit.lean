import Mathlib.Data.List.Basic
import SimpleFileSystem.Library.Execution

/-!
# Cells that are filled first fit

A table of cells in which every element is put into the first empty cell, and which grows
by a cell where there is none, up to a limit.  Such a table is never longer than it had to
be: its length is the largest number of elements that were in it at one time
(`CellStep.length_of_exec`), and it refuses an element exactly if it holds as many as the
limit allows (`CellStep.refused_iff`).
-/

/-- A call on a table of cells, with what it did. -/
inductive CellEvent (α : Type) where
  | insert (x : α) (done : Bool)
  /-- The element of the cell `i` is taken out. -/
  | remove (i : ℕ) (x : α)

/-- What a call does to the cells, of which there are at most `N`. -/
inductive CellStep {α : Type} (N : ℕ) : List (Option α) → CellEvent α → List (Option α) → Prop where
  | fill (A B : List (Option α)) {x : α} (full : none ∉ A) :
      CellStep N (A ++ none :: B) (.insert x true) (A ++ some x :: B)
  | grow (A : List (Option α)) {x : α} (full : none ∉ A) (room : A.length < N) :
      CellStep N A (.insert x true) (A ++ [some x])
  | refuse (A : List (Option α)) {x : α} (full : none ∉ A) (limit : A.length = N) :
      CellStep N A (.insert x false) A
  | remove (A B : List (Option α)) {x : α} :
      CellStep N (A ++ some x :: B) (.remove A.length x) (A ++ none :: B)

section Occupied

variable {α : Type} {A B : List (Option α)} {x : α}

/-- How many cells hold an element. -/
def occupied (cells : List (Option α)) : ℕ :=
  cells.countP Option.isSome

@[simp] theorem occupied_nil : occupied ([] : List (Option α)) = 0 := rfl

@[simp] theorem occupied_append : occupied (A ++ B) = occupied A + occupied B :=
  List.countP_append

@[simp] theorem occupied_cons_none : occupied (none :: B) = occupied B := by
  simp [occupied]

@[simp] theorem occupied_cons_some : occupied (some x :: B) = occupied B + 1 := by
  simp [occupied]

theorem occupied_le_length : occupied A ≤ A.length :=
  List.countP_le_length

/-- All cells hold an element exactly if none is empty. -/
theorem occupied_eq_length_iff : occupied A = A.length ↔ none ∉ A := by
  induction A with
  | nil => simp
  | cons c A ih =>
    have hle := occupied_le_length (A := A)
    cases c with
    | none =>
      simp
      omega
    | some x => simpa using ih

end Occupied

namespace CellEvent

variable {α : Type}

/-- How many elements there are after a call. -/
def level (n : ℕ) : CellEvent α → ℕ
  | insert _ true => n + 1
  | insert _ false => n
  | remove _ _ => n - 1

/-- How many elements there are after some calls. -/
def count (n : ℕ) (tr : List (CellEvent α)) : ℕ :=
  tr.foldl level n

/-- **The largest number of elements** at one time, from a time when there were `n`. -/
def peak (n : ℕ) : List (CellEvent α) → ℕ
  | [] => n
  | e :: tr => max n (peak (e.level n) tr)

theorem le_peak (n : ℕ) (tr : List (CellEvent α)) : n ≤ peak n tr := by
  cases tr with
  | nil => exact Nat.le_refl n
  | cons e tr => exact Nat.le_max_left _ _

end CellEvent

namespace CellStep

variable {α : Type} {N : ℕ} {cells cells' : List (Option α)} {e : CellEvent α}
  {tr : List (CellEvent α)}

theorem occupied_eq (h : CellStep N cells e cells') :
    occupied cells' = e.level (occupied cells) := by
  cases h with
  | fill A B =>
    simp [CellEvent.level]
    omega
  | grow A => simp [CellEvent.level]
  | refuse A => rfl
  | remove A B => simp [CellEvent.level]

/-- **A step makes the table no longer than it has to be.** -/
theorem length_eq (h : CellStep N cells e cells') :
    cells'.length = max cells.length (occupied cells') := by
  have hle := occupied_le_length (A := cells')
  cases h with
  | fill A B =>
    simp at hle ⊢
    omega
  | grow A full =>
    have hall := occupied_eq_length_iff.mpr full
    simp
    omega
  | refuse A => exact (Nat.max_eq_left hle).symm
  | remove A B =>
    simp at hle ⊢
    omega

theorem length_le (h : CellStep N cells e cells') (hN : cells.length ≤ N) : cells'.length ≤ N := by
  cases h with
  | fill A B => simpa using hN
  | grow A full room =>
    rw [List.length_append]
    exact room
  | refuse A => exact hN
  | remove A B => simpa using hN

/-- **An element is refused** exactly if the limit is reached. -/
theorem refused_iff {x : α} {done : Bool} (h : CellStep N cells (.insert x done) cells')
    (hN : cells.length ≤ N) : done = false ↔ occupied cells = N := by
  have hle := occupied_le_length (A := cells)
  cases h with
  | fill A B full =>
    have hA := occupied_le_length (A := A)
    have hB := occupied_le_length (A := B)
    simp at hN ⊢
    omega
  | grow _ full room =>
    simp
    omega
  | refuse _ full limit =>
    have hall := occupied_eq_length_iff.mpr full
    simp
    omega

theorem occupied_of_exec (h : Exec (CellStep N) cells tr cells') :
    occupied cells' = CellEvent.count (occupied cells) tr := by
  induction h with
  | nil => rfl
  | cons head _ ih => rw [ih, head.occupied_eq, CellEvent.count, CellEvent.count, List.foldl_cons]

theorem length_le_of_exec (h : Exec (CellStep N) cells tr cells') (hN : cells.length ≤ N) :
    cells'.length ≤ N :=
  h.invariant (I := fun cells => cells.length ≤ N) (fun _ _ _ hle head => head.length_le hle) hN

/-- **An element is refused** exactly at the times when the limit is reached. -/
theorem refused_iff_of_exec {tr₁ tr₂ : List (CellEvent α)} {x : α} {done : Bool}
    (h : Exec (CellStep N) cells (tr₁ ++ .insert x done :: tr₂) cells') (hN : cells.length ≤ N) :
    done = false ↔ CellEvent.count (occupied cells) tr₁ = N := by
  obtain ⟨cells₁, h₁, h₂⟩ := h.split
  rw [← occupied_of_exec h₁]
  cases h₂ with
  | cons head _ => exact head.refused_iff (length_le_of_exec h₁ hN)

/-- **The length is the peak.** -/
theorem length_of_exec (h : Exec (CellStep N) cells tr cells') :
    cells'.length = max cells.length (CellEvent.peak (occupied cells) tr) := by
  induction h with
  | nil cells => exact (Nat.max_eq_left occupied_le_length).symm
  | @cons s t u e tr head _ ih =>
    have hlength := head.length_eq
    have hpeak := CellEvent.le_peak (occupied t) tr
    have hle := occupied_le_length (A := s)
    have hoccupied := head.occupied_eq
    rw [ih, hlength]
    rw [hoccupied] at hpeak ⊢
    show _ = max _ (max _ _)
    omega

end CellStep
