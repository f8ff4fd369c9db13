import SimpleFileSystem.Dir
import SimpleFileSystem.FreeChain
import SimpleFileSystem.Library.Execution
import Mathlib.Logic.Relation

/-!
# Iterations end

An iterator trusts nothing but the layer below: the size of the directory and its block
pointers may be anything, the disk may hold anything, and any read or write may fail.
What ends an iteration is that `sfs_fs_inode_block_read` refuses the logical blocks from
76 on (`refuses_past`), so an iterator never gets further than block 76 (`Bounded`).

One iteration of the loop of `sfs_dir_iternext` moves it on or ends the call
(`iternextStep_ensures`); a call that returns an entry moves it on by one slot at least
(`sfsDirIternext_bounded`), and so there are at most 76 of them.
-/

namespace SimpleFileSystem

variable {F : Type}

/-! ## The entries of a block -/

theorem findEntry_zero (block : Block) :
    findEntry block 0 = if (Block.dirEntry block 0).inumber ≠ 0 then some 0 else none := by
  by_cases h : (Block.dirEntry block 0).inumber ≠ 0
  · rw [if_pos h]
    exact List.find?_cons_of_pos (decide_eq_true h)
  · rw [if_neg h]
    exact List.find?_cons_of_neg (by simpa using h)

theorem findEntry_one (block : Block) : findEntry block 1 = none :=
  rfl

theorem findUnused_eq (block : Block) :
    findUnused block = if (Block.dirEntry block 0).inumber = 0 then some 0 else none := by
  by_cases h : (Block.dirEntry block 0).inumber = 0
  · rw [if_pos h]
    exact List.find?_cons_of_pos (decide_eq_true h)
  · rw [if_neg h]
    exact List.find?_cons_of_neg (by simpa using h)

/-! ## Calls that return -/

theorem returns_free (block : Block) : Run.Returns (free block : Fs F Block) := by
  intro fs
  exact ⟨_, _, rfl, trivial⟩

theorem returns_time : Run.Returns (time : Fs F UInt64) := by
  intro fs
  exact ⟨_, _, time_run fs, trivial⟩

theorem returns_writeBack : Run.Returns (writeBack : Fs F ℤ) :=
  Run.returns_get.bind fun _ =>
    ((returns_blockWrite _ _).bind fun _ => Run.returns_pure _).ite (Run.returns_pure _)

theorem returns_cacheInodeBlock (clearDirty : Bool) (n : UInt64) :
    Run.Returns (cacheInodeBlock clearDirty n : Fs F ℤ) := by
  refine Run.returns_get.bind fun _ => (Run.returns_pure _).ite ?_
  refine returns_writeBack.bind fun _ => (Run.returns_pure _).ite ?_
  refine (Run.returns_modify _).bind fun _ => Run.returns_get.bind fun _ => ?_
  refine (returns_blockRead _ _).bind fun _ => ?_
  exact (Run.returns_modify _).bind fun _ => Run.returns_pure _

/-- An inode with a number is read, or not. -/
theorem returns_sfsFsReadInode {k : UInt64} (hk : k ≠ 0) :
    Run.Returns (sfsFsReadInode k : Fs F (Option Inode)) := by
  rw [sfsFsReadInode, decide_eq_true (UInt64.pos_iff_ne_zero.mpr hk), Run.assert_true,
    Run.pure_bind']
  refine (returns_cacheInodeBlock _ _).bind fun _ => (Run.returns_pure _).ite ?_
  exact Run.returns_get.bind fun _ => Run.returns_pure _

theorem returns_sfsFsWriteInode {v : Inode} (hv : v.inumber ≠ 0) :
    Run.Returns (sfsFsWriteInode v : Fs F ℤ) := by
  rw [sfsFsWriteInode, decide_eq_true (UInt64.pos_iff_ne_zero.mpr hv), Run.assert_true,
    Run.pure_bind']
  refine (returns_cacheInodeBlock _ _).bind fun _ => (Run.returns_pure _).ite ?_
  exact (Run.returns_modify _).bind fun _ => Run.returns_pure _

theorem returns_readFromIndirect (n i : UInt64) :
    Run.Returns (readFromIndirect n i false : Fs F (Option UInt64)) := by
  refine (Run.returns_pure _).ite ((returns_blockRead _ _).bind fun _ => ?_)
  refine (Run.returns_pure _).ite ?_
  rw [if_neg (fun h => absurd h.1 (by decide))]
  exact Run.returns_pure _

theorem returns_blockNumberForRead (v : Inode) (iblock : UInt64) :
    Run.Returns (blockNumberForRead v iblock : Fs F (Option UInt64)) :=
  (Run.returns_pure _).ite ((returns_readFromIndirect _ _).ite (Run.returns_pure _))

/-- **A logical block is read, or not**, whatever the inode. -/
theorem returns_sfsFsInodeBlockRead (v : Inode) (iblock : UInt64) (block : Block) :
    Run.Returns (sfsFsInodeBlockRead v iblock block : Fs F (ℤ × Block)) := by
  refine (returns_blockNumberForRead v iblock).bind fun answer => ?_
  cases answer with
  | none => exact Run.returns_pure _
  | some n =>
    refine (Run.returns_pure _).ite (Run.returns_get.bind fun _ => (Run.returns_pure _).ite ?_)
    exact (returns_blockRead _ _).bind fun _ => Run.returns_pure _

/-- **From block 76 on it is not.** -/
theorem refuses_past {iblock : UInt64} (h : ¬ iblock < sfsNdirBlocks + sfsNindBlocks)
    (fs : Filesystem F) (v : Inode) (block : Block) :
    (sfsFsInodeBlockRead v iblock block).run fs = .done (-1, block) fs := by
  have hdirect : ¬ iblock < sfsNdirBlocks := fun hlt =>
    h (UInt64.lt_trans hlt (by decide))
  rw [sfsFsInodeBlockRead, blockNumberForRead, if_neg hdirect, if_neg h]
  rfl

/-! ## How far an iterator gets -/

/-- **An iterator is within the blocks that an inode may map**, or at their end. -/
structure DirIterator.Bounded (it : DirIterator) : Prop where
  inumber : it.inode.inumber ≠ 0
  place : it.entry = 0 ∧ it.iblock.toNat ≤ 76 ∨ it.entry = 1 ∧ it.iblock.toNat < 76

/-- The slots that it has passed. -/
def DirIterator.passed (it : DirIterator) : ℕ :=
  it.iblock.toNat + it.entry.toNat

namespace DirIterator.Bounded

variable {it : DirIterator}

theorem passed_le (h : it.Bounded) : it.passed ≤ 76 := by
  unfold DirIterator.passed
  rcases h.place with ⟨hentry, hblock⟩ | ⟨hentry, hblock⟩
  · rw [hentry]
    exact hblock
  · rw [hentry]
    exact hblock

/-- **The product that is compared with the size does not wrap.** -/
theorem toNat_mul (h : it.Bounded) : (it.iblock * 512).toNat = it.iblock.toNat * 512 := by
  have hblock : it.iblock.toNat ≤ 76 := h.place.elim And.right fun h => Nat.le_of_lt h.2
  rw [UInt64.toNat_mul]
  exact Nat.mod_eq_of_lt (Nat.lt_of_le_of_lt (Nat.mul_le_mul_right 512 hblock) (by decide))

end DirIterator.Bounded

/-- What one iteration of `sfs_dir_iternext` leaves: an iterator at the beginning of the next
block, or one that has passed the slot of the entry. -/
def IterationPost (it : DirIterator) : DirIterator ⊕ IterNext → Prop
  | .inl it' => it'.Bounded ∧ it'.entry = 0 ∧ it'.iblock.toNat = it.iblock.toNat + 1
  | .inr (.entry it' _ _) => it'.Bounded ∧ it'.passed = it.passed + 1
  | .inr (.stop _) => True

section Iterations

variable {fs fs' : Filesystem F} {wantInode : Bool} {it it' : DirIterator}

theorem iterEnd_ends (it it₀ : DirIterator) (fs : Filesystem F) :
    Run.Ensures (iterEnd it) fs fun r _ => IterationPost it₀ r :=
  (returns_free it.cachedBlock).ensures_bind fun _ _ => Run.ensures_pure trivial

theorem toNat_succ_iblock (h : it.iblock.toNat < 76) :
    (it.iblock + 1).toNat = it.iblock.toNat + 1 := by
  rw [UInt64.toNat_add]
  exact Nat.mod_eq_of_lt (by show it.iblock.toNat + 1 < 2 ^ 64; omega)

/-- **One iteration**: it ends, or the iterator moves on. -/
theorem iternextStep_ensures (h : it.Bounded) (fs : Filesystem F) :
    Run.Ensures (iternextStep fsLayer wantInode it) fs fun r _ => IterationPost it r := by
  have hends : ∀ (it₁ : DirIterator) (fs : Filesystem F),
      Run.Ensures (iterEnd it₁ >>= fun r => pure r) fs fun r _ => IterationPost it r :=
    fun it₁ fs => (iterEnd_ends it₁ it fs).bind fun _ _ hr => Run.ensures_pure hr
  rw [iternextStep]
  by_cases hend : it.iblock * 512 ≥ it.inode.size
  · rw [if_pos hend]
    exact hends it fs
  rw [if_neg hend]
  dsimp only
  rcases h.place with ⟨hentry, -⟩ | ⟨hentry, hblock⟩
  · -- the block is read, and the inode written
    rw [if_pos hentry]
    by_cases hmapped : it.iblock < sfsNdirBlocks + sfsNindBlocks
    swap
    · have hread := refuses_past hmapped fs it.inode it.cachedBlock
      refine (Run.Ensures.of_eq (Q := fun answer _ => answer = (-1, it.cachedBlock)) hread
        rfl).bind ?_
      rintro _ fs₁ rfl
      rw [if_pos (by simp)]
      exact hends _ fs₁
    have hblock : it.iblock.toNat < 76 := UInt64.lt_iff_toNat_lt.mp hmapped
    refine (returns_sfsFsInodeBlockRead it.inode it.iblock it.cachedBlock).ensures_bind ?_
    rintro ⟨ret, block⟩ fs₁
    by_cases hret : ret ≠ 0
    · rw [if_pos hret]
      exact hends _ fs₁
    rw [if_neg hret]
    refine returns_time.ensures_bind fun t fs₂ => ?_
    refine (returns_sfsFsWriteInode (v := { it.inode with accessTime := t })
      h.inumber).ensures_bind fun ret fs₃ => ?_
    by_cases hwrite : ret ≠ 0
    · rw [if_pos hwrite]
      exact hends _ fs₃
    rw [if_neg hwrite, hentry]
    have hzero : (0 : UInt64).toNat = 0 := rfl
    rw [hzero, findEntry_zero]
    by_cases hused : (Block.dirEntry block 0).inumber ≠ 0
    · rw [if_pos hused]
      have hpost : ∀ v, IterationPost it (.inr (.entry
          { it with inode := { it.inode with accessTime := t }, cachedBlock := block, entry := 1 }
          0 v)) := fun v => by
        refine ⟨⟨h.inumber, Or.inr ⟨rfl, hblock⟩⟩, ?_⟩
        show it.iblock.toNat + 1 = it.iblock.toNat + it.entry.toNat + 1
        rw [hentry]
        rfl
      cases wantInode with
      | false => exact Run.ensures_pure (hpost Inode.zero)
      | true =>
        dsimp only
        rw [if_pos rfl]
        refine (returns_sfsFsReadInode hused).ensures_bind fun answer fs₄ => ?_
        cases answer with
        | none => exact hends _ fs₄
        | some v => exact Run.ensures_pure (hpost v)
    · rw [if_neg hused]
      exact Run.ensures_pure ⟨⟨h.inumber, Or.inl
        ⟨rfl, by rw [toNat_succ_iblock hblock]; exact hblock⟩⟩,
        rfl, toNat_succ_iblock hblock⟩
  · -- the only slot of the block has been passed
    rw [if_neg (by rw [hentry]; decide), hentry]
    have hone : (1 : UInt64).toNat = 1 := rfl
    rw [hone, findEntry_one]
    exact Run.ensures_pure ⟨⟨h.inumber, Or.inl
      ⟨rfl, by rw [toNat_succ_iblock hblock]; exact hblock⟩⟩,
      rfl, toNat_succ_iblock hblock⟩

/-- What a call leaves that returns an entry. -/
def CallPost (it : DirIterator) : IterNext → Prop
  | .entry it' _ _ => it'.Bounded ∧ it.passed < it'.passed
  | .stop _ => True

/-- The iterations of a call end, and an iterator that comes back has passed a slot. -/
theorem iternextLoop_ends (h : it.Bounded) {n : ℕ} (hn : 76 - it.iblock.toNat < n)
    (fs : Filesystem F) :
    Run.Ensures (Run.loop (iternextStep fsLayer wantInode) n it) fs fun r _ => CallPost it r := by
  induction n generalizing it fs with
  | zero => exact absurd hn (Nat.not_lt_zero _)
  | succ n ih =>
    rw [Run.loop]
    refine (iternextStep_ensures h fs).bind fun r fs₁ hpost => ?_
    cases r with
    | inl it₁ =>
      obtain ⟨hbounded, hentry, hiblock⟩ := hpost
      have hle : it₁.iblock.toNat ≤ 76 := by
        have hpassed := hbounded.passed_le
        unfold DirIterator.passed at hpassed
        omega
      refine (ih hbounded (by omega) fs₁).mono fun r fs₂ hcall => ?_
      cases r with
      | stop directory => exact trivial
      | entry it₂ j v =>
        refine ⟨hcall.1, Nat.lt_of_le_of_lt ?_ hcall.2⟩
        have hplace : it.entry.toNat ≤ 1 := by
          rcases h.place with ⟨he, -⟩ | ⟨he, -⟩ <;> rw [he] <;> decide
        unfold DirIterator.passed
        omega
    | inr answer =>
      refine Run.ensures_pure ?_
      cases answer with
      | stop directory => exact trivial
      | entry it₂ j v =>
        obtain ⟨hbounded, hpassed⟩ := hpost
        exact ⟨hbounded, by omega⟩

/-- **A call returns**, from every filesystem. -/
theorem sfsDirIternext_bounded (h : it.Bounded) (fs : Filesystem F) :
    Run.Ensures (sfsDirIternext fsLayer wantInode it) fs fun r _ => CallPost it r :=
  iternextLoop_ends h (by unfold loopBound; omega) fs

end Iterations

/-! ## Whole iterations -/

/-- A call of `sfs_dir_iternext` that returns an entry, with the inode that it names if that
was asked for.  The filesystem is any, and may have changed since the last call. -/
def EntryCall (F : Type) (it : DirIterator) (e : DirEntry × Inode) (it' : DirIterator) : Prop :=
  ∃ (wantInode : Bool) (fs fs' : Filesystem F) (j : ℕ),
    (sfsDirIternext fsLayer wantInode it).run fs = .done (.entry it' j e.2) fs' ∧
      e.1 = Block.dirEntry it'.cachedBlock j

/-- An iteration of the loop of `sfs_dir_iternext` that does not end the call. -/
def LoopsTo (wantInode : Bool) (c c' : Filesystem F × DirIterator) : Prop :=
  (iternextStep fsLayer wantInode c.2).run c.1 = .done (.inl c'.2) c'.1

theorem EntryCall.bounded {it it' : DirIterator} {e : DirEntry × Inode} (h : it.Bounded)
    (hcall : EntryCall F it e it') : it'.Bounded ∧ it.passed < it'.passed := by
  obtain ⟨wantInode, fs, fs', j, hrun, -⟩ := hcall
  exact (sfsDirIternext_bounded h fs).post hrun

theorem LoopsTo.bounded {wantInode : Bool} {c c' : Filesystem F × DirIterator}
    (h : c.2.Bounded) (hloops : LoopsTo wantInode c c') : c'.2.Bounded :=
  ((iternextStep_ensures h c.1).post hloops).1

theorem LoopsTo.star_bounded {wantInode : Bool} {c c' : Filesystem F × DirIterator}
    (h : c.2.Bounded) (hloops : Relation.ReflTransGen (LoopsTo wantInode) c c') :
    c'.2.Bounded := by
  induction hloops with
  | refl => exact h
  | tail _ hlast ih => exact hlast.bounded ih

/-- The calls of an iteration. -/
theorem EntryCall.exec_bounded {it it' : DirIterator} {tr : List (DirEntry × Inode)}
    (h : it.Bounded) (hexec : Exec (EntryCall F) it tr it') :
    it'.Bounded ∧ it.passed + tr.length ≤ it'.passed := by
  induction hexec with
  | nil it => exact ⟨h, Nat.le_refl _⟩
  | cons head _ ih =>
    obtain ⟨hbounded, hlt⟩ := head.bounded h
    obtain ⟨hend, hle⟩ := ih hbounded
    rw [List.length_cons]
    exact ⟨hend, by omega⟩

/-- **Iterations end.**  Whatever the inode of the directory, but for its number, and
whatever is on the disk and fails at each call: an iteration has at most 76 entries, the
next call returns, and in none of its iterations does the product that is compared with the
size wrap. -/
theorem dir_iteration_ends {inode : Inode} (hinode : inode.inumber ≠ 0) {block : Block}
    {it : DirIterator} {tr : List (DirEntry × Inode)}
    (hexec : Exec (EntryCall F) ⟨inode, 0, 0, block⟩ tr it) :
    tr.length ≤ 76 ∧ ∀ (wantInode : Bool) (fs : Filesystem F),
      (Run.Ensures (sfsDirIternext fsLayer wantInode it) fs fun _ _ => True) ∧
      ∀ (fs' : Filesystem F) (it' : DirIterator),
        Relation.ReflTransGen (LoopsTo wantInode) (fs, it) (fs', it') →
          (it'.iblock * 512).toNat = it'.iblock.toNat * 512 := by
  have hfresh : DirIterator.Bounded ⟨inode, 0, 0, block⟩ :=
    ⟨hinode, Or.inl ⟨rfl, Nat.zero_le 76⟩⟩
  obtain ⟨hbounded, hpassed⟩ := EntryCall.exec_bounded hfresh hexec
  have hle := hbounded.passed_le
  refine ⟨by omega, fun wantInode fs => ⟨?_, fun fs' it' hloops => ?_⟩⟩
  · exact (sfsDirIternext_bounded hbounded fs).mono fun _ _ _ => trivial
  · have hend : it'.Bounded := LoopsTo.star_bounded hbounded hloops
    exact hend.toNat_mul

/-! ## A directory that says it is as long as can be -/

/-- So many iterations of the loop of a call, if none of them ends it. -/
def iternextSteps (wantInode : Bool) : ℕ → DirIterator → Fs F (Option DirIterator)
  | 0, it => pure (some it)
  | n + 1, it => do
    match ← iternextStep fsLayer wantInode it with
    | .inl it => iternextSteps wantInode n it
    | .inr _ => pure none

theorem loopsTo_of_steps {wantInode : Bool} {n : ℕ} {it it' : DirIterator} {fs fs' : Filesystem F}
    (h : (iternextSteps wantInode n it).run fs = .done (some it') fs') :
    Relation.ReflTransGen (LoopsTo wantInode) (fs, it) (fs', it') := by
  induction n generalizing it fs with
  | zero =>
    cases h
    exact Relation.ReflTransGen.refl
  | succ n ih =>
    obtain ⟨r, fs₁, hstep, hrest⟩ := Run.bind_eq_done.mp h
    cases r with
    | inl it₁ => exact Relation.ReflTransGen.head (b := (fs₁, it₁)) hstep (ih hrest)
    | inr answer => cases hrest

/-- Its size is 2^64 - 1; it has one block, which is block 4. -/
def endlessDirectory : Inode :=
  { emptyTwo.setPointer 0 4 with size := 0 - 1 }

/-- A small disk with an entry of inode 3 in that block. -/
def entryInFour : Filesystem Unit :=
  (Filesystem.blank oneFreeBlock ()).writeBlock 4 (Block.setDirInumber Block.zero 0 3)

/-- One call for an entry, and 76 iterations of the next. -/
def walkEndless : Fs Unit (Option (UInt64 × UInt64)) := do
  match ← sfsDirIternext fsLayer false ⟨endlessDirectory, 0, 0, Block.zero⟩ with
  | .entry it j _ =>
    match ← iternextSteps false 76 it with
    | some it' => pure (some ((Block.dirEntry it.cachedBlock j).inumber, it'.iblock))
    | none => pure none
  | .stop _ => pure none

theorem walkEndless_value : (walkEndless.run entryInFour).value = some (some (3, 76)) := by
  decide +kernel

/-- **It has one entry**, and the call after it gets to block 76, which is refused. -/
theorem dir_iteration_ends_endlessDirectory :
    ∃ (e : DirEntry × Inode) (it it' : DirIterator) (fs fs' : Filesystem Unit),
      Exec (EntryCall Unit) ⟨endlessDirectory, 0, 0, Block.zero⟩ [e] it ∧ e.1.inumber = 3 ∧
      Relation.ReflTransGen (LoopsTo false) (fs, it) (fs', it') ∧ it'.iblock = 76 ∧
      (it'.iblock * 512).toNat = 76 * 512 ∧
      (sfsFsInodeBlockRead it'.inode it'.iblock it'.cachedBlock).run fs' =
        .done (-1, it'.cachedBlock) fs' ∧
      Run.Ensures (sfsDirIternext fsLayer false it) fs fun _ _ => True := by
  obtain ⟨last, hrun⟩ := Outcome.exists_of_value walkEndless_value
  obtain ⟨r, fs, hcall, hrest⟩ := Run.bind_eq_done.mp hrun
  cases r with
  | stop directory => cases hrest
  | entry it j inode =>
    obtain ⟨found, fs', hsteps, hend⟩ := Run.bind_eq_done.mp hrest
    cases found with
    | none => cases hend
    | some it' =>
      obtain ⟨hinumber, hiblock⟩ :=
        Prod.mk.inj (Option.some.inj (Outcome.done.inj hend).1)
      have hexec : Exec (EntryCall Unit) ⟨endlessDirectory, 0, 0, Block.zero⟩
          [(Block.dirEntry it.cachedBlock j, inode)] it :=
        .cons ⟨false, _, fs, j, hcall, rfl⟩ (.nil it)
      have hloops := loopsTo_of_steps hsteps
      obtain ⟨-, hnext⟩ := dir_iteration_ends (by decide) hexec
      obtain ⟨hreturns, hproduct⟩ := hnext false fs
      refine ⟨_, it, it', fs, fs', hexec, hinumber, hloops, hiblock, ?_, ?_, hreturns⟩
      · rw [hproduct fs' it' hloops, hiblock]
        rfl
      · exact refuses_past (by rw [hiblock]; decide) fs' _ _

end SimpleFileSystem
