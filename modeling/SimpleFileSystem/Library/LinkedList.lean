import Mathlib.Data.List.Nodup
import Mathlib.Data.List.Perm.Subperm
import Mathlib.Data.Nat.Notation

/-!
# Linked lists by name

A linked list on a disk, or in an array, is a head and a function `next` from the name
of a node to the name of the node after it, with one name `nil` that ends the list.
`Linked nil next a l` says that following `next` from `a` visits exactly the nodes `l`
and then reaches `nil`.

Two things come for nothing.  The list is determined by its head (`Linked.unique`),
and a list that ends visits no node twice (`Linked.nodup`): a node visited twice is
followed by the same nodes both times, so it is followed by itself for ever.

The rest is what happens to a list when `next` changes: it survives a change outside
its nodes (`Linked.congr`), and it grows at the front (`Linked.cons`) and at the back
(`Linked.concat`, `Linked.goes_on`).
-/

universe u

variable {α : Type u}

/-- Following `next` from a name visits the nodes of a list, then reaches `nil`. -/
def Linked (nil : α) (next : α → α) : α → List α → Prop
  | a, [] => a = nil
  | a, x :: l => a = x ∧ x ≠ nil ∧ Linked nil next (next x) l

namespace Linked

variable {nil : α} {next next' : α → α} {a b : α} {l l' : List α}

theorem ne_nil_of_mem (h : Linked nil next a l) {x : α} (hx : x ∈ l) : x ≠ nil := by
  induction l generalizing a with
  | nil => exact absurd hx List.not_mem_nil
  | cons y l ih =>
    rcases List.mem_cons.mp hx with rfl | hx
    · exact h.2.1
    · exact ih h.2.2 hx

/-- Two lists from one head are the same, if neither goes through the end of the other. -/
theorem unique_of_notMem {nil' : α} (h : Linked nil next a l) (h' : Linked nil' next a l')
    (hl : nil' ∉ l) (hl' : nil ∉ l') : l = l' := by
  induction l generalizing a l' with
  | nil =>
    cases l' with
    | nil => rfl
    | cons y l' => exact absurd (h'.1.symm.trans h ▸ List.mem_cons_self) hl'
  | cons x l ih =>
    cases l' with
    | nil => exact absurd (h.1.symm.trans h' ▸ List.mem_cons_self) hl
    | cons y l' =>
      obtain ⟨rfl, -, htail⟩ := h
      obtain ⟨rfl, -, htail'⟩ := h'
      rw [ih htail htail' (fun hm => hl (List.mem_cons_of_mem _ hm))
        fun hm => hl' (List.mem_cons_of_mem _ hm)]

/-- The nodes are determined by the head. -/
theorem unique (h : Linked nil next a l) (h' : Linked nil next a l') : l = l' :=
  h.unique_of_notMem h' (fun hl => h.ne_nil_of_mem hl rfl) fun hl => h'.ne_nil_of_mem hl rfl

/-- The list from one of its nodes on. -/
theorem suffix {p q : List α} {x : α} (h : Linked nil next a (p ++ x :: q)) :
    Linked nil next x (x :: q) := by
  induction p generalizing a with
  | nil => exact ⟨rfl, h.2⟩
  | cons y p ih => exact ih h.2.2

/-- **A list that ends visits no node twice.** -/
theorem nodup (h : Linked nil next a l) : l.Nodup := by
  induction l generalizing a with
  | nil => exact List.nodup_nil
  | cons x l ih =>
    refine List.nodup_cons.mpr ⟨fun hx => ?_, ih h.2.2⟩
    -- the second visit to `x` is followed by what follows the first
    obtain ⟨p, q, rfl⟩ := List.append_of_mem hx
    have hsecond : Linked nil next x (x :: q) := suffix h.2.2
    have hfirst : Linked nil next x (x :: (p ++ x :: q)) := ⟨rfl, h.2⟩
    have hlen := congrArg List.length (hsecond.unique hfirst)
    simp only [List.length_cons, List.length_append] at hlen
    omega

/-- No node points to itself. -/
theorem next_ne {x : α} (h : Linked nil next a (x :: l)) : next x ≠ x := by
  intro hx
  have hnodup := h.nodup
  obtain ⟨-, hne, hl⟩ := h
  cases l with
  | nil => exact hne (hx.symm.trans hl)
  | cons y l =>
    obtain rfl : y = x := hl.1.symm.trans hx
    exact (List.nodup_cons.mp hnodup).1 List.mem_cons_self

/-- A list survives a change of `next` outside its nodes. -/
theorem congr (h : Linked nil next a l) (hnext : ∀ x ∈ l, next' x = next x) :
    Linked nil next' a l := by
  induction l generalizing a with
  | nil => exact h
  | cons x l ih =>
    refine ⟨h.1, h.2.1, ?_⟩
    rw [hnext x List.mem_cons_self]
    exact ih h.2.2 fun y hy => hnext y (List.mem_cons_of_mem _ hy)

/-- A new node in front. -/
theorem cons (h : Linked nil next a l) (hb : b ≠ nil) (hba : next b = a) :
    Linked nil next b (b :: l) :=
  ⟨rfl, hb, hba ▸ h⟩

/-- **A new node at the back.**  The last node is made to point to it, and it points to
`nil`. -/
theorem concat {x : α} (h : Linked nil next a (l ++ [x])) (hb : b ≠ nil)
    (hnext : ∀ y ∈ l, next' y = next y) (hx : next' x = b) (hbn : next' b = nil) :
    Linked nil next' a (l ++ [x, b]) := by
  induction l generalizing a with
  | nil => exact ⟨h.1, h.2.1, hx, hb, hbn⟩
  | cons y l ih =>
    refine ⟨h.1, h.2.1, ?_⟩
    rw [hnext y List.mem_cons_self]
    exact ih h.2.2 fun z hz => hnext z (List.mem_cons_of_mem _ hz)

/-- The first node is determined by the nodes. -/
theorem head_unique (h : Linked nil next a l) (h' : Linked nil next' b l) : a = b := by
  cases l with
  | nil => exact Eq.trans h (Eq.symm h')
  | cons x l => exact h.1.trans h'.1.symm

/-- So is where each node points to. -/
theorem next_unique (h : Linked nil next a l) (h' : Linked nil next' b l) :
    ∀ x ∈ l, next' x = next x := by
  induction l generalizing a b with
  | nil => exact fun x hx => absurd hx List.not_mem_nil
  | cons y l ih =>
    intro x hx
    rcases List.mem_cons.mp hx with rfl | hx
    · exact h'.2.2.head_unique h.2.2
    · exact ih h.2.2 h'.2.2 x hx

/-- **A list whose last node points to another one** goes on there. -/
theorem goes_on {x : α} (h : Linked nil next a (l ++ [x])) (hnext : ∀ y ∈ l, next' y = next y)
    (hx : next' x ≠ nil) (h' : Linked nil next' a l') : ∃ m, l' = l ++ x :: next' x :: m := by
  induction l generalizing a l' with
  | nil =>
    obtain ⟨rfl, hne, -⟩ := h
    cases l' with
    | nil => exact absurd h' hne
    | cons y l' =>
      obtain ⟨rfl, -, hl'⟩ := h'
      cases l' with
      | nil => exact absurd hl' hx
      | cons z m => exact ⟨m, by rw [hl'.1]; rfl⟩
  | cons y l ih =>
    obtain ⟨rfl, hne, hl⟩ := h
    cases l' with
    | nil => exact absurd h' hne
    | cons z l' =>
      obtain ⟨rfl, -, hl'⟩ := h'
      rw [hnext _ List.mem_cons_self] at hl'
      obtain ⟨m, rfl⟩ := ih hl (fun w hw => hnext w (List.mem_cons_of_mem _ hw)) hl'
      exact ⟨m, rfl⟩

/-- **A stretch of a list**: nodes that point to each other in turn come first. -/
theorem stretch_iff {f : ℕ → α} {n : ℕ} (hne : ∀ q < n, f q ≠ nil)
    (hnext : ∀ q < n, next (f q) = f (q + 1)) :
    Linked nil next (f 0) l ↔
      ∃ l', l = (List.range n).map f ++ l' ∧ Linked nil next (f n) l' := by
  induction n with
  | zero => exact ⟨fun h => ⟨l, rfl, h⟩, fun ⟨_, hl, h⟩ => by rw [hl]; exact h⟩
  | succ n ih =>
    rw [ih (fun q hq => hne q (Nat.lt_succ_of_lt hq)) fun q hq => hnext q (Nat.lt_succ_of_lt hq)]
    have hn := hne n (Nat.lt_succ_self n)
    constructor
    · rintro ⟨l', rfl, h⟩
      cases l' with
      | nil => exact absurd h hn
      | cons x l' =>
        obtain ⟨rfl, -, hl⟩ := h
        rw [hnext n (Nat.lt_succ_self n)] at hl
        refine ⟨l', ?_, hl⟩
        rw [List.range_succ, List.map_append, List.append_assoc]
        rfl
    · rintro ⟨l', rfl, h⟩
      refine ⟨f n :: l', ?_, rfl, hn, by rwa [hnext n (Nat.lt_succ_self n)]⟩
      rw [List.range_succ, List.map_append, List.append_assoc]
      rfl

/-- What holds of the head and passes from node to node holds of every node. -/
theorem forall_mem {P : α → Prop} (h : Linked nil next a l) (ha : a ≠ nil → P a)
    (hnext : ∀ x, P x → next x ≠ nil → P (next x)) : ∀ x ∈ l, P x := by
  induction l generalizing a with
  | nil => exact fun x hx => absurd hx List.not_mem_nil
  | cons y l ih =>
    obtain ⟨rfl, hne, hl⟩ := h
    intro x hx
    rcases List.mem_cons.mp hx with rfl | hx
    · exact ha hne
    · exact ih hl (fun hn => hnext _ (ha hne) hn) x hx

/-- The empty list is the one at `nil`. -/
theorem eq_nil_iff (h : Linked nil next a l) : l = [] ↔ a = nil := by
  cases l with
  | nil => exact ⟨fun _ => h, fun _ => rfl⟩
  | cons x l =>
    refine ⟨fun hl => absurd hl (List.cons_ne_nil _ _), fun ha => ?_⟩
    exact absurd (h.1.symm.trans ha) h.2.1

/-- **Nodes with consecutive names**, each pointing to the next and the last to `nil`. -/
theorem range' {name : ℕ → α} {e : ℕ} :
    ∀ {i len : ℕ}, len ≠ 0 → i + len = e → (∀ j, i ≤ j → j < e → name j ≠ nil) →
    (∀ j, i ≤ j → j < e → next (name j) = if j + 1 = e then nil else name (j + 1)) →
    Linked nil next (name i) ((List.range' i len).map name)
  | _, 0, hlen, _, _, _ => absurd rfl hlen
  | i, len + 1, _, he, hname, h => by
    rw [List.range'_succ, List.map_cons]
    refine ⟨rfl, hname i (Nat.le_refl i) (by omega), ?_⟩
    rw [h i (Nat.le_refl i) (by omega)]
    rcases Nat.eq_zero_or_pos len with rfl | hpos
    · rw [if_pos he]
      rfl
    · rw [if_neg (by omega)]
      exact range' (Nat.pos_iff_ne_zero.mp hpos) (by omega)
        (fun j hj hje => hname j (by omega) hje) fun j hj hje => h j (by omega) hje

end Linked

/-- A list of distinct numbers below a bound is no longer than the bound. -/
theorem List.Nodup.length_le_of_lt {l : List ℕ} (h : l.Nodup) {n : ℕ} (hn : ∀ x ∈ l, x < n) :
    l.length ≤ n := by
  have hsub : l ⊆ List.range n := fun x hx => List.mem_range.mpr (hn x hx)
  have hle := (List.subperm_of_subset h hsub).length_le
  rwa [List.length_range] at hle
