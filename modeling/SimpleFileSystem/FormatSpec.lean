import SimpleFileSystem.Format
import SimpleFileSystem.FreeChain
import Mathlib.Data.UInt

/-!
# What `format_fs` writes

A disk of `B` blocks is cut at `tableBlocks B` and `firstFree B`; between them are the
index nodes, from `spareHead B` on.  The sizes are natural numbers here, and the first
section says that the 64-bit arithmetic of the code computes them.

`formatFs_run` is the whole function on a host that does not fail: it either ends in
the assertion after its second loop, for the disks that do not satisfy `Fits`, or leaves
a disk that is `Formatted`.  `formatted_of_run` says the second for every host on which
it returns 0.
-/

open ByteCodec

namespace SimpleFileSystem

variable {F : Type}

/-! ## The layout of a disk -/

/-- The blocks of the inode table. -/
def tableBlocks (B : ℕ) : ℕ := max 1 ((B - 1) / 16)

/-- The first index node. -/
def spareHead (B : ℕ) : ℕ := tableBlocks B + 2

/-- The blocks from the first index node on. -/
def spareBlocks (B : ℕ) : ℕ := B - spareHead B

/-- The blocks that the slots of the index nodes name. -/
def dataBlocks (B : ℕ) : ℕ := spareBlocks B * 63 / 64

/-- The blocks set aside for index nodes. -/
def indexBlocks (B : ℕ) : ℕ := spareBlocks B - dataBlocks B

/-- The first block that a slot names. -/
def firstFree (B : ℕ) : ℕ := spareHead B + indexBlocks B

/-- The index nodes that the loop fills, and only these are written to the disk. -/
def filledBlocks (B : ℕ) : ℕ := dataBlocks B / 63

/-- The disks on which the assertion after the second loop holds. -/
def Fits (B : ℕ) : Prop :=
  spareBlocks B ≠ 0 ∧ (spareBlocks B % 64 = 1 → spareBlocks B = 1)

instance (B : ℕ) : Decidable (Fits B) := inferInstanceAs (Decidable (_ ∧ _))

section Layout

variable {B : ℕ}

theorem tableBlocks_pos (B : ℕ) : 1 ≤ tableBlocks B := Nat.le_max_left _ _

theorem spareHead_le (hB : 3 ≤ B) : spareHead B ≤ B := by
  unfold spareHead tableBlocks
  omega

theorem firstFree_add_dataBlocks (hB : 3 ≤ B) : firstFree B + dataBlocks B = B := by
  have := spareHead_le hB
  unfold firstFree indexBlocks dataBlocks spareBlocks
  omega

theorem spareBlocks_eq_zero_iff (hB : 3 ≤ B) : spareBlocks B = 0 ↔ B = 3 := by
  unfold spareBlocks spareHead tableBlocks
  omega

/-- Of every 64 spare blocks one is an index node; the rest of them have one too. -/
theorem dataBlocks_eq (B : ℕ) : dataBlocks B =
    63 * (spareBlocks B / 64) + (spareBlocks B % 64 - 1) := by
  have hsplit := Nat.div_add_mod (spareBlocks B) 64
  have hlt := Nat.mod_lt (spareBlocks B) (show 0 < 64 by decide)
  rw [dataBlocks]
  generalize spareBlocks B / 64 = q at *
  generalize spareBlocks B % 64 = r at *
  rw [← hsplit]
  omega

/-- How many index nodes are set aside and how many are filled. -/
theorem indexBlocks_eq (B : ℕ) :
    indexBlocks B = filledBlocks B + if spareBlocks B % 64 = 0 then 0 else 1 := by
  have hdata := dataBlocks_eq B
  have hsplit := Nat.div_add_mod (spareBlocks B) 64
  have hlt := Nat.mod_lt (spareBlocks B) (show 0 < 64 by decide)
  unfold filledBlocks indexBlocks
  split <;> omega

theorem fits_iff (B : ℕ) :
    Fits B ↔ (if dataBlocks B = 0 then 0 else (dataBlocks B - 1) / 63) + 1 = indexBlocks B := by
  have hdata := dataBlocks_eq B
  have hsplit := Nat.div_add_mod (spareBlocks B) 64
  have hlt := Nat.mod_lt (spareBlocks B) (show 0 < 64 by decide)
  unfold Fits indexBlocks
  split <;> omega

variable {blocks now : UInt64}

theorem toNat_inodeTableBlocksFor (hblocks : blocks.toNat = B) (hB : 3 ≤ B) :
    (inodeTableBlocksFor blocks).toNat = tableBlocks B := by
  have hle : (1 : UInt64) ≤ blocks := by
    rw [UInt64.le_iff_toNat_le, hblocks]
    show 1 ≤ B
    omega
  have h1 : (blocks - 1).toNat = B - 1 := by
    rw [UInt64.toNat_sub_of_le _ _ hle, hblocks]
    rfl
  have h16 : ((blocks - 1) / 16).toNat = (B - 1) / 16 := by
    rw [UInt64.toNat_div, h1]
    rfl
  rw [inodeTableBlocksFor, tableBlocks]
  split
  · have h0 := congrArg UInt64.toNat ‹(blocks - 1) / 16 = 0›
    rw [h16] at h0
    rw [h0]
    rfl
  · have h0 : (B - 1) / 16 ≠ 0 := fun e =>
      ‹¬ _› (UInt64.toNat_inj.mp (h16.trans (e.trans UInt64.toNat_zero.symm)))
    rw [h16]
    omega

variable (now) in
theorem toNat_freeBlocksHead (hblocks : blocks.toNat = B) (hB : 3 ≤ B) :
    (superblockFor blocks now).freeBlocksHead.toNat = spareHead B := by
  have hlt := blocks.toNat_lt
  have hle := spareHead_le hB
  show (2 + inodeTableBlocksFor blocks).toNat = _
  rw [UInt64.toNat_add, toNat_inodeTableBlocksFor hblocks hB]
  show (2 + tableBlocks B) % 2 ^ 64 = tableBlocks B + 2
  unfold spareHead at hle
  omega

theorem toNat_inodes (hblocks : blocks.toNat = B) (hB : 3 ≤ B) :
    (superblockFor blocks now).inodes.toNat = 3 * tableBlocks B := by
  have hlt := blocks.toNat_lt
  show (inodeTableBlocksFor blocks * 3).toNat = _
  rw [UInt64.toNat_mul, toNat_inodeTableBlocksFor hblocks hB]
  show tableBlocks B * 3 % 2 ^ 64 = 3 * tableBlocks B
  unfold tableBlocks
  omega

variable (now) in
/-- `free_blocks` -/
theorem toNat_freeBlocks (hblocks : blocks.toNat = B) (hB : 3 ≤ B) :
    (superblockFor blocks now).freeBlocksHead ≤ (superblockFor blocks now).blocks ∧
      ((superblockFor blocks now).blocks - (superblockFor blocks now).freeBlocksHead).toNat =
        spareBlocks B := by
  have hle := spareHead_le hB
  have hhead := toNat_freeBlocksHead now hblocks hB
  have hfree : (superblockFor blocks now).freeBlocksHead ≤ (superblockFor blocks now).blocks := by
    rw [UInt64.le_iff_toNat_le, hhead]
    show _ ≤ blocks.toNat
    omega
  refine ⟨hfree, ?_⟩
  rw [UInt64.toNat_sub_of_le _ _ hfree, hhead]
  show blocks.toNat - spareHead B = _
  rw [hblocks, spareBlocks]

variable (now) in
/-- `free_blocks * slots_per_block` -/
theorem toNat_freeSlots (hblocks : blocks.toNat = B) (hB : 3 ≤ B) (hlt : B < 2 ^ 55) :
    (((superblockFor blocks now).blocks - (superblockFor blocks now).freeBlocksHead) *
      slotsPerBlock).toNat = spareBlocks B * 63 := by
  rw [UInt64.toNat_mul, (toNat_freeBlocks now hblocks hB).2]
  show spareBlocks B * 63 % 2 ^ 64 = _
  exact Nat.mod_eq_of_lt (by unfold spareBlocks; omega)

variable (now) in
/-- `free_blocks_head + free_blocks` -/
theorem toNat_head_add (hblocks : blocks.toNat = B) (hB : 3 ≤ B) :
    ((superblockFor blocks now).freeBlocksHead +
      ((superblockFor blocks now).blocks - (superblockFor blocks now).freeBlocksHead)).toNat =
      B := by
  have hlt := blocks.toNat_lt
  have hle := spareHead_le hB
  rw [UInt64.toNat_add, (toNat_freeBlocks now hblocks hB).2, toNat_freeBlocksHead now hblocks hB,
    spareBlocks]
  omega

variable (now) in
/-- `first_free_block`, and that its last subtraction is one of the numbers. -/
theorem toNat_firstFreeBlock_of_le (hblocks : blocks.toNat = B) (hB : 3 ≤ B) (hlt : B < 2 ^ 55) :
    ((superblockFor blocks now).blocks - (superblockFor blocks now).freeBlocksHead) *
        slotsPerBlock / (slotsPerBlock + 1) ≤
      (superblockFor blocks now).freeBlocksHead +
        ((superblockFor blocks now).blocks - (superblockFor blocks now).freeBlocksHead) ∧
      (firstFreeBlock (superblockFor blocks now)).toNat = firstFree B := by
  have hsum := toNat_head_add now hblocks hB
  have hdata : (((superblockFor blocks now).blocks -
      (superblockFor blocks now).freeBlocksHead) * slotsPerBlock / (slotsPerBlock + 1)).toNat =
      dataBlocks B := by
    rw [UInt64.toNat_div, toNat_freeSlots now hblocks hB hlt]
    rfl
  have hsplit := firstFree_add_dataBlocks hB
  have hle : ((superblockFor blocks now).blocks - (superblockFor blocks now).freeBlocksHead) *
      slotsPerBlock / (slotsPerBlock + 1) ≤ (superblockFor blocks now).freeBlocksHead +
        ((superblockFor blocks now).blocks - (superblockFor blocks now).freeBlocksHead) := by
    rw [UInt64.le_iff_toNat_le, hsum, hdata]
    omega
  refine ⟨hle, ?_⟩
  rw [firstFreeBlock, UInt64.toNat_sub_of_le _ _ hle, hsum, hdata]
  omega

variable (now) in
theorem toNat_firstFreeBlock (hblocks : blocks.toNat = B) (hB : 3 ≤ B) (hlt : B < 2 ^ 55) :
    (firstFreeBlock (superblockFor blocks now)).toNat = firstFree B :=
  (toNat_firstFreeBlock_of_le now hblocks hB hlt).2

end Layout

/-! ## The inode table -/

/-- The inode that `format_fs` gives a number. -/
def FormattedInode (k : ℕ) (v : Inode) : Prop :=
  if k = 1 then
    v.inumber = 1 ∧ v.mode = rootMode ∧ v.links = 1 ∧ v.size = 0 ∧ ∀ i, v.pointer i = 0
  else v = { Inode.zero with inumber := UInt64.ofNat k, size := UInt64.ofNat (k + 1) }

/-- What does not change while the table is written: I/O works, the superblock in
memory, and the size of the disk. -/
structure SameMachine (fs fs' : Filesystem F) : Prop where
  noFaults : fs'.host.NoFaults
  superblock : fs'.superblock = fs.superblock
  size : fs'.disk.size = fs.disk.size

theorem SameMachine.trans {fs fs' fs'' : Filesystem F} (h : SameMachine fs fs')
    (h' : SameMachine fs' fs'') : SameMachine fs fs'' :=
  ⟨h'.noFaults, h'.superblock.trans h.superblock, h'.size.trans h.size⟩

theorem toNat_succ {x : UInt64} {n : ℕ} (h : x.toNat = n) (hn : n + 1 < 2 ^ 64) :
    (x + 1).toNat = n + 1 := by
  rw [UInt64.toNat_add, h]
  exact Nat.mod_eq_of_lt hn

theorem eq_ofNat_of_toNat {x : UInt64} {n : ℕ} (h : x.toNat = n) : x = UInt64.ofNat n := by
  rw [← h, UInt64.ofNat_toNat]

theorem toNat_ofNat_of_lt' {n : ℕ} (h : n < 2 ^ 64) : (UInt64.ofNat n).toNat = n :=
  (UInt64.toNat_ofNat).trans (Nat.mod_eq_of_lt h)

/-- The free inode that the inner loop writes. -/
theorem formatInode_free {fs : Filesystem F} {i nextFree : UInt64} {j : ℕ} {tmp : Block}
    (h : ¬ (i = 1 ∧ j = 0)) :
    (formatInode i (tmp, nextFree) j).run fs =
      .done (tmp.setInode j { Inode.zero with inumber := nextFree - 1, size := nextFree },
        nextFree + 1) fs := by
  rw [formatInode, if_neg h, Run.run_pure]

/-- The root inode. -/
theorem formatInode_root (fs : Filesystem F) (nextFree : UInt64) :
    ∃ v, FormattedInode 1 v ∧
      (formatInode 1 (Block.zero, nextFree) 0).run fs =
        .done (Block.zero.setInode 0 v, nextFree) fs.ticked := by
  refine ⟨_, ?_, rfl⟩
  rw [FormattedInode, if_pos rfl, Block.inode_zero]
  exact ⟨rfl, rfl, rfl, rfl, Inode.pointer_zero⟩

/-- What `format_fs` gives the inode whose number is one less than `next_free`. -/
theorem formattedInode_of_toNat {nextFree : UInt64} {k : ℕ} (hnext : nextFree.toNat = k + 1)
    (hk : 2 ≤ k) : FormattedInode k
      { Inode.zero with inumber := nextFree - 1, size := nextFree } := by
  have hpred : (nextFree - 1).toNat = k := by
    rw [UInt64.toNat_sub_of_le _ _
      (by rw [UInt64.le_iff_toNat_le, hnext]; exact Nat.le_add_left 1 k),
      hnext]
    rfl
  rw [FormattedInode, if_neg (by omega), eq_ofNat_of_toNat hpred, eq_ofNat_of_toNat hnext]

/-- The three inodes of a block are those of the numbers after `3 * n`. -/
def FormattedBlock (n : ℕ) (b : Block) : Prop :=
  ∀ j < 3, FormattedInode (3 * n + j + 1) (b.inode j)

/-- **The inner loop** fills the scratch block with the inodes of block `i`. -/
theorem formatInode_block (fs : Filesystem F) {i nextFree : UInt64} {n : ℕ} {tmp : Block}
    (hi : i.toNat = n + 1) (hn : n < 2 ^ 55) (htmp : n = 0 → tmp = Block.zero)
    (hnext : nextFree.toNat = if n = 0 then 3 else 3 * n + 2) :
    ∃ r fs', ([0, 1, 2].foldlM (formatInode i) (tmp, nextFree)).run fs = .done r fs' ∧
      FormattedBlock n r.1 ∧ r.2.toNat = 3 * n + 5 ∧ (fs' = fs ∨ fs' = fs.ticked) := by
  simp only [List.foldlM_cons, List.foldlM_nil, Run.run_bind]
  by_cases h0 : n = 0
  · obtain rfl : i = 1 := UInt64.toNat_inj.mp (by rw [hi, h0]; rfl)
    rw [if_pos h0] at hnext
    obtain ⟨root, hroot, hrun⟩ := formatInode_root fs nextFree
    have hnext' := toNat_succ hnext (by decide)
    rw [htmp h0, hrun, Run.andThen_done, Run.run_bind, formatInode_free (j := 1) (by simp),
      Run.andThen_done, Run.run_bind, formatInode_free (j := 2) (by simp), Run.andThen_done,
      Run.run_pure]
    refine ⟨_, _, rfl, ?_, ?_, Or.inr rfl⟩
    · intro j hj
      rw [h0]
      rcases (by omega : j = 0 ∨ j = 1 ∨ j = 2) with rfl | rfl | rfl
      · rw [Block.inode_setInode_of_ne _ _ (by decide), Block.inode_setInode_of_ne _ _ (by decide),
          Block.inode_setInode _ _ (by decide)]
        exact hroot
      · rw [Block.inode_setInode_of_ne _ _ (by decide), Block.inode_setInode _ _ (by decide)]
        exact formattedInode_of_toNat hnext (by decide)
      · rw [Block.inode_setInode _ _ (by decide)]
        exact formattedInode_of_toNat hnext' (by decide)
    · rw [toNat_succ hnext' (by decide), h0]
  · have hi1 : ∀ j, ¬ (i = 1 ∧ j = 0) := fun j h => h0 (by
      have := congrArg UInt64.toNat h.1
      rw [hi] at this
      exact Nat.succ.inj this)
    rw [if_neg h0] at hnext
    have hnext₁ := toNat_succ hnext (by omega)
    have hnext₂ := toNat_succ hnext₁ (by omega)
    rw [formatInode_free (hi1 0), Run.andThen_done, Run.run_bind, formatInode_free (hi1 1),
      Run.andThen_done, Run.run_bind, formatInode_free (hi1 2), Run.andThen_done, Run.run_pure]
    refine ⟨_, _, rfl, ?_, toNat_succ hnext₂ (by omega), Or.inl rfl⟩
    intro j hj
    rcases (by omega : j = 0 ∨ j = 1 ∨ j = 2) with rfl | rfl | rfl
    · rw [Block.inode_setInode_of_ne _ _ (by decide), Block.inode_setInode_of_ne _ _ (by decide),
        Block.inode_setInode _ _ (by decide)]
      exact formattedInode_of_toNat hnext (by omega)
    · rw [Block.inode_setInode_of_ne _ _ (by decide), Block.inode_setInode _ _ (by decide)]
      exact formattedInode_of_toNat hnext₁ (by omega)
    · rw [Block.inode_setInode _ _ (by decide)]
      exact formattedInode_of_toNat hnext₂ (by omega)

/-- Where the loop over the table stands after `n` blocks. -/
structure TableBuilt (fs₀ : Filesystem F) (B n : ℕ) (w : UInt64 × Block × UInt64)
    (fs : Filesystem F) : Prop where
  machine : SameMachine fs₀ fs
  le : n ≤ tableBlocks B
  i : w.1.toNat = n + 1
  fresh : n = 0 → w.2.1 = Block.zero
  nextFree : w.2.2.toNat = if n = 0 then 3 else 3 * n + 2
  table : ∀ m < n, FormattedBlock m (fs.disk.block (m + 1))
  others : ∀ m, m = 0 ∨ n < m → fs.disk.block m = fs₀.disk.block m

/-- Where the loop over the table ends. -/
structure TableDone (fs₀ : Filesystem F) (B : ℕ) (fs : Filesystem F) : Prop where
  machine : SameMachine fs₀ fs
  table : ∀ m < tableBlocks B, FormattedBlock m (fs.disk.block (m + 1))
  others : ∀ m, m = 0 ∨ tableBlocks B < m → fs.disk.block m = fs₀.disk.block m

section TableLoop

variable {fs₀ fs : Filesystem F} {B n : ℕ} {tableSize : UInt64}

/-- A block of the disk, in the machine that the loop started with. -/
theorem SameMachine.holds {x : UInt64} (h : SameMachine fs₀ fs) (hx : x.toNat < B)
    (hsize : 512 * B ≤ fs₀.disk.size) (hlt : fs₀.disk.size < 2 ^ 63) : fs.disk.Holds x :=
  ⟨by rw [h.size]; omega, by rw [h.size]; exact hlt⟩

/-- **One iteration of the loop over the table.** -/
theorem formatTableStep_ensures (hsize : 512 * B ≤ fs₀.disk.size) (hlt : fs₀.disk.size < 2 ^ 63)
    (hB : 3 ≤ B) (htable : tableSize.toNat = tableBlocks B) {w : UInt64 × Block × UInt64}
    (hw : TableBuilt fs₀ B n w fs) :
    Run.Ensures (formatTableStep tableSize w) fs fun r fs' =>
      match r with
      | .inl w' => n < tableBlocks B ∧ TableBuilt fs₀ B (n + 1) w' fs'
      | .inr ret => (∃ tmp, ret = some tmp) ∧ TableDone fs₀ B fs' := by
  obtain ⟨i, tmp, nextFree⟩ := w
  have hle := spareHead_le hB
  rw [spareHead] at hle
  have hend : (tableSize + 1).toNat = tableBlocks B + 1 := toNat_succ htable (by omega)
  have hcond : i < tableSize + 1 ↔ n < tableBlocks B := by
    rw [UInt64.lt_iff_toNat_lt, hend, hw.i]
    exact Nat.succ_lt_succ_iff
  rw [formatTableStep]
  by_cases hlast : n < tableBlocks B
  · obtain ⟨⟨tmp', next'⟩, fs₁, hrun, hblock, hnext', hfs₁⟩ := formatInode_block fs
      hw.i (by omega) hw.fresh hw.nextFree
    have hmachine : SameMachine fs fs₁ := by
      rcases hfs₁ with rfl | rfl
      · exact ⟨hw.machine.noFaults, rfl, rfl⟩
      · exact ⟨hw.machine.noFaults, rfl, rfl⟩
    have hdisk : fs₁.disk = fs.disk := by
      rcases hfs₁ with rfl | rfl <;> rfl
    have hholds := (hw.machine.trans hmachine).holds (x := i)
      (by rw [hw.i]; omega) hsize hlt
    refine ⟨.inl (i + 1, tmp', next'), fs₁.writeBlock i tmp', ?_, hlast, ?_⟩
    · rw [if_neg (not_not.mpr (hcond.mpr hlast)), Run.run_bind, hrun, Run.andThen_done,
        Run.run_bind, blockWrite_of_holds hmachine.noFaults hholds, Run.andThen_done,
        if_neg (by simp), Run.run_pure]
    have hi : i.toNat = n + 1 := hw.i
    have hother : ∀ m, m ≠ n + 1 → (fs₁.writeBlock i tmp').disk.block m = fs.disk.block m :=
      fun m hm => by
        rw [Filesystem.block_writeBlock_of_ne _ hholds (by rw [hi]; exact Ne.symm hm), hdisk]
    constructor
    · exact (hw.machine.trans hmachine).trans
        ⟨hmachine.noFaults, rfl, Filesystem.size_writeBlock _ hholds⟩
    · exact hlast
    · exact toNat_succ hi (by omega)
    · exact fun h => absurd h (Nat.succ_ne_zero n)
    · rw [if_neg (Nat.succ_ne_zero n)]
      show next'.toNat = _
      omega
    · intro m hm
      rcases Nat.lt_succ_iff_lt_or_eq.mp hm with hm | rfl
      · rw [hother _ (by omega)]
        exact hw.table m hm
      · rw [← hi, Filesystem.block_writeBlock]
        exact hblock
    · intro m hm
      rw [hother m (by omega)]
      exact hw.others m (by omega)
  · refine ⟨.inr (some tmp), fs, ?_, ⟨tmp, rfl⟩, ?_⟩
    · rw [if_pos (mt hcond.mp hlast), Run.run_pure]
    obtain rfl : n = tableBlocks B := Nat.le_antisymm hw.le (Nat.not_lt.mp hlast)
    exact ⟨hw.machine, hw.table, hw.others⟩

variable (fs) in
/-- **The loop over the table.** -/
theorem formatTable_ensures (hsize : 512 * B ≤ fs.disk.size) (hlt : fs.disk.size < 2 ^ 63)
    (hB : 3 ≤ B) (htable : tableSize.toNat = tableBlocks B) (hnf : fs.host.NoFaults) :
    Run.Ensures (Run.loop (formatTableStep tableSize) loopBound (1, Block.zero, 3)) fs
      fun ret fs' => (∃ tmp, ret = some tmp) ∧ TableDone fs B fs' := by
  refine Run.Ensures.loop (TableBuilt fs B) (fun n => tableBlocks B - n) ?_ (g := 0)
    ⟨⟨hnf, rfl, rfl⟩, Nat.zero_le _, rfl, fun _ => rfl, rfl, fun _ h =>
      absurd h (Nat.not_lt_zero _),
      fun _ _ => rfl⟩ ?_
  · intro n w fs' hw
    refine (formatTableStep_ensures hsize hlt hB htable hw).mono fun r fs'' hpost => ?_
    cases r with
    | inl w' => exact ⟨n + 1, hpost.2, by have := hpost.1; omega⟩
    | inr ret => exact hpost
  · rw [← htable]
    exact Nat.lt_of_le_of_lt (Nat.sub_le _ _) tableSize.toNat_lt

end TableLoop

/-! ## The free space index -/

/-- The first `p` words of index node `q`: the pointer to the next node, and the slots. -/
structure IndexPrefix (B q p : ℕ) (b : Block) : Prop where
  next : (b.word 0).toNat = if q + 1 < indexBlocks B then spareHead B + q + 1 else 0
  slots : ∀ s, 1 ≤ s → s < p → (b.word s).toNat = firstFree B + 63 * q + (s - 1)

/-- The cursor after `t` free blocks.  A full node is not left before the next block. -/
structure Cursor (B t : ℕ) (c : IndexCursor) : Prop where
  le : t ≤ dataBlocks B
  i : c.i.toNat = firstFree B + t
  start : t = 0 → c.curIndexBlock.toNat = spareHead B ∧ c.curIndexBlockPos = 0
  here : t ≠ 0 → c.curIndexBlock.toNat = spareHead B + (t - 1) / 63 ∧
    c.curIndexBlockPos.toNat = (t - 1) % 63 + 2 ∧
    IndexPrefix B ((t - 1) / 63) ((t - 1) % 63 + 2) c.freeIndex

/-- The cursor that is about to be given the free block after the first `t`. -/
structure CursorReady (B t : ℕ) (c : IndexCursor) : Prop where
  i : c.i.toNat = firstFree B + t
  cur : c.curIndexBlock.toNat = spareHead B + t / 63
  pos : c.curIndexBlockPos.toNat = t % 63 + 1
  index : IndexPrefix B (t / 63) (t % 63 + 1) c.freeIndex

section Cursor

variable {B t : ℕ} {c : IndexCursor} {first : UInt64}

theorem div_lt_indexBlocks (ht : t < dataBlocks B) : t / 63 < indexBlocks B := by
  have hdata := dataBlocks_eq B
  have hindex := indexBlocks_eq B
  unfold filledBlocks at hindex
  split at hindex <;> omega

/-- A fresh node: its pointer to the next one, and no slots yet. -/
theorem IndexCursor.link_of_zero (hB : 3 ≤ B) (hlt : B < 2 ^ 55) {q : ℕ}
    (hfirst : first.toNat = firstFree B) (hpos : c.curIndexBlockPos = 0)
    (hcur : c.curIndexBlock.toNat = spareHead B + q) (hq : q < indexBlocks B) :
    (c.link first).curIndexBlockPos.toNat = 1 ∧ IndexPrefix B q 1 (c.link first).freeIndex := by
  have hsum := firstFree_add_dataBlocks hB
  have hfirst' : firstFree B = spareHead B + indexBlocks B := rfl
  have hpred : (first - 1).toNat = firstFree B - 1 := by
    rw [UInt64.toNat_sub_of_le _ _ (by rw [UInt64.le_iff_toNat_le, hfirst]; show 1 ≤ _; omega),
      hfirst]
    rfl
  have hcond : c.curIndexBlock < first - 1 ↔ q + 1 < indexBlocks B := by
    rw [UInt64.lt_iff_toNat_lt, hpred, hcur]
    omega
  rw [IndexCursor.link, if_pos hpos]
  refine ⟨rfl, ?_, fun s h1 h2 => absurd h1 (by omega)⟩
  show (Block.word (Block.setWord _ 0 _) 0).toNat = _
  rw [Block.word_setWord _ _ (by decide)]
  by_cases hnext : q + 1 < indexBlocks B
  · rw [if_pos (hcond.mpr hnext), if_pos hnext, toNat_succ hcur (by omega)]
  · rw [if_neg (mt hcond.mp hnext), if_neg hnext]
    rfl

theorem Cursor.ready (hB : 3 ≤ B) (hlt : B < 2 ^ 55) (hfirst : first.toNat = firstFree B)
    (h : Cursor B t c) (ht : t < dataBlocks B) :
    CursorReady B t (c.advance.link first) ∧
      c.advance.curIndexBlock.toNat = spareHead B + t / 63 := by
  have hsum := firstFree_add_dataBlocks hB
  have hsplit : firstFree B = spareHead B + indexBlocks B := rfl
  have hq := div_lt_indexBlocks ht
  by_cases h0 : t = 0
  · -- the first node
    obtain ⟨hcur, hpos⟩ := h.start h0
    have hadvance : c.advance = c := by
      rw [IndexCursor.advance, hpos]
      rfl
    have hcur' : c.curIndexBlock.toNat = spareHead B + t / 63 := by
      rw [hcur, h0]
      rfl
    obtain ⟨hlink, hindex⟩ := IndexCursor.link_of_zero hB hlt hfirst hpos hcur' hq
    rw [hadvance]
    refine ⟨⟨?_, ?_, ?_, ?_⟩, hcur'⟩
    · rw [IndexCursor.link, if_pos hpos]
      exact h.i
    · rw [IndexCursor.link, if_pos hpos]
      exact hcur'
    · rw [hlink, h0]
    · rw [h0] at hindex ⊢
      exact hindex
  · obtain ⟨hcur, hpos, hindex⟩ := h.here h0
    by_cases hfull : (t - 1) % 63 + 2 = 64
    · -- the node is full
      have h64 : c.curIndexBlockPos = 64 := UInt64.toNat_inj.mp (hpos.trans hfull)
      have hcur' : c.advance.curIndexBlock.toNat = spareHead B + t / 63 := by
        rw [IndexCursor.advance, if_pos h64]
        show (c.curIndexBlock + 1).toNat = _
        rw [toNat_succ hcur (by omega)]
        omega
      have hpos' : c.advance.curIndexBlockPos = 0 := by
        rw [IndexCursor.advance, if_pos h64]
      have hi : c.advance.i.toNat = firstFree B + t := by
        rw [IndexCursor.advance, if_pos h64]
        exact h.i
      obtain ⟨hlink, hindex'⟩ := IndexCursor.link_of_zero hB hlt hfirst hpos' hcur' hq
      have hmod : t % 63 = 0 := by omega
      refine ⟨⟨?_, ?_, ?_, ?_⟩, hcur'⟩
      · rw [IndexCursor.link, if_pos hpos']
        exact hi
      · rw [IndexCursor.link, if_pos hpos']
        exact hcur'
      · rw [hlink, hmod]
      · rw [hmod]
        exact hindex'
    · -- there is room in the node
      have hmod : (t - 1) % 63 + 2 = t % 63 + 1 := by omega
      have hdiv : (t - 1) / 63 = t / 63 := by omega
      rw [hmod, hdiv] at hindex
      rw [hmod] at hpos hfull
      rw [hdiv] at hcur
      have hadvance : c.advance = c := by
        rw [IndexCursor.advance, if_neg]
        intro e
        rw [e] at hpos
        exact hfull hpos.symm
      have hlink : c.link first = c := by
        rw [IndexCursor.link, if_neg]
        intro e
        rw [e] at hpos
        exact absurd hpos (by show (0 : ℕ) ≠ _; omega)
      rw [hadvance, hlink]
      exact ⟨⟨h.i, hcur, hpos, hindex⟩, hcur⟩

/-- The cursor that has been given a block. -/
theorem CursorReady.put (hB : 3 ≤ B) (hlt : B < 2 ^ 55) (h : CursorReady B t c)
    (ht : t < dataBlocks B) :
    Cursor B (t + 1) { c.put with i := c.put.i + 1 } ∧
      c.put.curIndexBlockPos.toNat = t % 63 + 2 ∧
      IndexPrefix B (t / 63) (t % 63 + 2) c.put.freeIndex := by
  have hsum := firstFree_add_dataBlocks hB
  have hpos : c.put.curIndexBlockPos.toNat = t % 63 + 2 := toNat_succ h.pos (by omega)
  have hindex : IndexPrefix B (t / 63) (t % 63 + 2) c.put.freeIndex := by
    constructor
    · show (Block.word (Block.setWord _ _ _) 0).toNat = _
      rw [Block.word_setWord_of_ne _ _ (by rw [h.pos]; exact Nat.succ_ne_zero _)]
      exact h.index.next
    · intro s h1 h2
      show (Block.word (Block.setWord _ _ _) s).toNat = _
      by_cases hs : s = t % 63 + 1
      · rw [hs, h.pos, Block.word_setWord _ _ (by omega), h.i]
        omega
      · rw [h.pos, Block.word_setWord_of_ne _ _ (Ne.symm hs)]
        exact h.index.slots s h1 (by omega)
  refine ⟨⟨ht, toNat_succ (n := firstFree B + t) h.i (by omega), fun e =>
    absurd e (Nat.succ_ne_zero t), fun _ => ?_⟩,
    hpos, hindex⟩
  exact ⟨h.cur, hpos, hindex⟩

end Cursor

/-- Where the loop over the free blocks stands after `t` of them. -/
structure IndexBuilt (fs₀ : Filesystem F) (B t : ℕ) (c : IndexCursor) (fs : Filesystem F) :
    Prop where
  machine : SameMachine fs₀ fs
  cursor : Cursor B t c
  index : ∀ q < t / 63, IndexPrefix B q 64 (fs.disk.block (spareHead B + q))
  others : ∀ m, (∀ q < t / 63, m ≠ spareHead B + q) → fs.disk.block m = fs₀.disk.block m

section IndexLoop

variable {fs₀ fs : Filesystem F} {B t : ℕ} {blocks first : UInt64} {c : IndexCursor}

/-- **One iteration of the loop over the free blocks.** -/
theorem freeIndexStep_ensures (hsize : 512 * B ≤ fs₀.disk.size) (hlt : fs₀.disk.size < 2 ^ 63)
    (hB : 3 ≤ B) (hblocks : blocks.toNat = B) (hfirst : first.toNat = firstFree B)
    (hc : IndexBuilt fs₀ B t c fs) :
    Run.Ensures (freeIndexStep blocks first c) fs fun r fs' =>
      match r with
      | .inl c' => t < dataBlocks B ∧ IndexBuilt fs₀ B (t + 1) c' fs'
      | .inr ret => ret = some c.curIndexBlock ∧ IndexBuilt fs₀ B (dataBlocks B) c fs' := by
  have hB55 : B < 2 ^ 55 := by omega
  have hsum := firstFree_add_dataBlocks hB
  have hcond : c.i < blocks ↔ t < dataBlocks B := by
    rw [UInt64.lt_iff_toNat_lt, hc.cursor.i, hblocks]
    omega
  rw [freeIndexStep]
  by_cases hlast : t < dataBlocks B
  · obtain ⟨hready, hcur⟩ := hc.cursor.ready hB hB55 hfirst hlast
    obtain ⟨hput, hpos, hindex⟩ := hready.put hB hB55 hlast
    have hq := div_lt_indexBlocks hlast
    have hassert : c.advance.curIndexBlock < first := by
      rw [UInt64.lt_iff_toNat_lt, hcur, hfirst, firstFree]
      omega
    rw [if_neg (not_not.mpr (hcond.mpr hlast))]
    dsimp only
    rw [decide_eq_true hassert, Run.assert_true, Run.pure_bind']
    set c' := (c.advance.link first).put with hc'
    have hcur' : c'.curIndexBlock.toNat = spareHead B + t / 63 := hready.cur
    by_cases hfull : t % 63 + 2 = 64
    · have h64 : c'.curIndexBlockPos = 64 := UInt64.toNat_inj.mp (hpos.trans hfull)
      have hholds := hc.machine.holds (x := c'.curIndexBlock)
        (by rw [hcur']; unfold firstFree at hsum; omega) hsize hlt
      have hdiv : (t + 1) / 63 = t / 63 + 1 := by omega
      rw [hfull] at hindex
      refine ⟨.inl { c' with i := c'.i + 1 }, fs.writeBlock c'.curIndexBlock c'.freeIndex, ?_,
        hlast, ?_, hput, ?_, ?_⟩
      · simp only [if_pos h64, Run.run_bind, blockWrite_of_holds hc.machine.noFaults hholds,
          Run.andThen_done, ne_eq, not_true_eq_false, if_false, Run.run_pure]
      · exact hc.machine.trans
          ⟨hc.machine.noFaults, rfl, Filesystem.size_writeBlock _ hholds⟩
      · rw [hdiv]
        intro q hq
        rcases Nat.lt_succ_iff_lt_or_eq.mp hq with hq | rfl
        · rw [Filesystem.block_writeBlock_of_ne _ hholds (by omega)]
          exact hc.index q hq
        · rw [← hcur', Filesystem.block_writeBlock]
          exact hindex
      · rw [hdiv]
        intro m hm
        have hne := hm (t / 63) (Nat.lt_succ_self _)
        rw [Filesystem.block_writeBlock_of_ne _ hholds (by rw [hcur']; exact Ne.symm hne)]
        exact hc.others m fun q hq => hm q (Nat.lt_succ_of_lt hq)
    · have h64 : c'.curIndexBlockPos ≠ 64 := fun e => hfull (by rw [← hpos, e]; rfl)
      have hdiv : (t + 1) / 63 = t / 63 := by omega
      refine ⟨.inl { c' with i := c'.i + 1 }, fs, ?_, hlast, hc.machine, hput, ?_, ?_⟩
      · simp only [if_neg h64, Run.run_pure]
      · rw [hdiv]
        exact hc.index
      · rw [hdiv]
        exact hc.others
  · refine ⟨.inr (some c.curIndexBlock), fs, ?_, rfl, ?_⟩
    · rw [if_pos (mt hcond.mp hlast), Run.run_pure]
    obtain rfl : t = dataBlocks B := Nat.le_antisymm hc.cursor.le (Nat.not_lt.mp hlast)
    exact hc

/-- The index block that the second loop ends in. -/
def lastIndexBlock (B : ℕ) : ℕ :=
  spareHead B + if dataBlocks B = 0 then 0 else (dataBlocks B - 1) / 63

variable (fs) in
/-- **The loop over the free blocks.** -/
theorem freeIndex_ensures (hsize : 512 * B ≤ fs.disk.size) (hlt : fs.disk.size < 2 ^ 63)
    (hB : 3 ≤ B) (hblocks : blocks.toNat = B) (hfirst : first.toNat = firstFree B)
    {head : UInt64} (hhead : head.toNat = spareHead B) (tmp : Block) (hnf : fs.host.NoFaults) :
    Run.Ensures (Run.loop (freeIndexStep blocks first) loopBound ⟨first, head, 0, tmp⟩) fs
      fun ret fs' => ∃ cur, ret = some cur ∧ cur.toNat = lastIndexBlock B ∧
        SameMachine fs fs' ∧
        (∀ q < filledBlocks B, IndexPrefix B q 64 (fs'.disk.block (spareHead B + q))) ∧
        ∀ m, (∀ q < filledBlocks B, m ≠ spareHead B + q) →
          fs'.disk.block m = fs.disk.block m := by
  refine Run.Ensures.loop (IndexBuilt fs B) (fun t => dataBlocks B - t) ?_ (g := 0)
    ⟨⟨hnf, rfl, rfl⟩, ⟨Nat.zero_le _, hfirst, fun _ => ⟨hhead, rfl⟩, fun h => absurd rfl h⟩,
      fun _ h => absurd h (Nat.not_lt_zero _), fun _ _ => rfl⟩ ?_
  · intro t c fs' hc
    refine (freeIndexStep_ensures hsize hlt hB hblocks hfirst hc).mono fun r fs'' hpost => ?_
    cases r with
    | inl c' => exact ⟨t + 1, hpost.2, by have := hpost.1; omega⟩
    | inr ret =>
      obtain ⟨hret, hbuilt⟩ := hpost
      refine ⟨c.curIndexBlock, hret, ?_, hbuilt.machine, hbuilt.index, hbuilt.others⟩
      rw [lastIndexBlock]
      by_cases h0 : dataBlocks B = 0
      · rw [if_pos h0]
        exact (hbuilt.cursor.start h0).1
      · rw [if_neg h0]
        exact (hbuilt.cursor.here h0).1
  · have := firstFree_add_dataBlocks hB
    have := blocks.toNat_lt
    show dataBlocks B - 0 < 2 ^ 64
    omega

end IndexLoop

/-! ## The whole function -/

/-- **A freshly formatted disk of `B` blocks**, over what the disk held before. -/
structure Formatted (B : ℕ) (fs fs' : Filesystem F) : Prop where
  superblock : ∃ now, fs'.superblock = superblockFor (UInt64.ofNat B) now
  synced : fs'.Synced
  size : fs'.disk.size = fs.disk.size
  table : ∀ m < tableBlocks B, FormattedBlock m (fs'.disk.block (m + 1))
  index : ∀ q < filledBlocks B, IndexPrefix B q 64 (fs'.disk.block (spareHead B + q))
  others : ∀ m, tableBlocks B < m → (∀ q < filledBlocks B, m ≠ spareHead B + q) →
    fs'.disk.block m = fs.disk.block m

/-- The filesystem with the superblock that `format_fs` makes. -/
def Filesystem.partitioned (fs : Filesystem F) (B : ℕ) : Filesystem F :=
  { fs.ticked with superblock := superblockFor (UInt64.ofNat B) (fs.host.clock 0) }

section Whole

variable {fs : Filesystem F} {B : ℕ}

variable (fs) in
theorem diskBlocks_run (hnf : fs.host.NoFaults) (hB : fs.disk.size / 512 = B) :
    (diskBlocks : Fs F (Option UInt64)).run fs = .done (some (UInt64.ofNat B)) fs := by
  rw [diskBlocks, Run.run_bind, nextFault_of_noFaults hnf, Run.andThen_done, Run.run_bind,
    Run.run_get, Run.andThen_done, hB]
  rfl

/-- The disk after the two loops. -/
theorem formatted_of_loops {fs₁ fs₂ : Filesystem F}
    (h₁ : TableDone (fs.partitioned B) B fs₁) (hm : SameMachine fs₁ fs₂)
    (hindex : ∀ q < filledBlocks B, IndexPrefix B q 64 (fs₂.disk.block (spareHead B + q)))
    (hothers : ∀ m, (∀ q < filledBlocks B, m ≠ spareHead B + q) →
      fs₂.disk.block m = fs₁.disk.block m) (h0 : fs₂.disk.Holds 0) :
    Formatted B fs fs₂.synced := by
  have hsame : ∀ m, m ≠ 0 → fs₂.synced.disk.block m = fs₂.disk.block m := fun m hm0 =>
    Filesystem.block_writeBlock_of_ne _ h0 (Ne.symm hm0)
  have hhead : ∀ q, tableBlocks B < spareHead B + q := fun q => by
    unfold spareHead
    omega
  constructor
  · refine ⟨fs.host.clock 0, ?_⟩
    show fs₂.superblock = _
    rw [hm.superblock, h₁.machine.superblock]
    rfl
  · exact Filesystem.Synced.of_synced fs₂
  · rw [Filesystem.synced, Filesystem.size_writeBlock _ h0, hm.size, h₁.machine.size]
    rfl
  · intro m hlt
    have hout : ∀ q < filledBlocks B, m + 1 ≠ spareHead B + q := fun q _ => by
      have := hhead q
      omega
    rw [hsame _ (Nat.succ_ne_zero m), hothers _ hout]
    exact h₁.table m hlt
  · intro q hq
    rw [hsame _ (by have := hhead q; omega)]
    exact hindex q hq
  · intro m hlt hout
    rw [hsame _ (by omega), hothers m hout, h₁.others m (Or.inr hlt)]
    rfl

variable (fs) in
/-- **`format_fs` on a host that does not fail**: the assertion after the second loop
fails exactly on the disks that do not fit, and otherwise the disk is formatted. -/
theorem formatFs_run (hnf : fs.host.NoFaults) (hlt : fs.disk.size < 2 ^ 63)
    (hB : fs.disk.size / 512 = B) (hB3 : 3 ≤ B) :
    (Fits B → ∃ fs', (formatFs : Fs F ℤ).run fs = .done 0 fs' ∧ Formatted B fs fs') ∧
      (¬ Fits B → (formatFs : Fs F ℤ).run fs = .halt .assertion) := by
  have hblocks : (UInt64.ofNat B).toNat = B := toNat_ofNat_of_lt' (by omega)
  have h3 : ¬ UInt64.ofNat B < 3 := by
    rw [UInt64.lt_iff_toNat_lt, hblocks]
    exact Nat.not_lt.mpr hB3
  have hsize : 512 * B ≤ (fs.partitioned B).disk.size := by
    show 512 * B ≤ fs.disk.size
    omega
  have htable : (superblockFor (UInt64.ofNat B) (fs.host.clock 0)).inodeTableBlocks.toNat =
      tableBlocks B := toNat_inodeTableBlocksFor hblocks hB3
  have hblocks' : (superblockFor (UInt64.ofNat B) (fs.host.clock 0)).blocks.toNat = B := hblocks
  obtain ⟨_, fs₁, hrun₁, ⟨tmp, rfl⟩, hdone₁⟩ := formatTable_ensures (fs.partitioned B)
    hsize hlt hB3 htable (by exact hnf)
  have hfirst := toNat_firstFreeBlock (fs.host.clock 0) hblocks hB3 (by omega)
  have hhead := toNat_freeBlocksHead (fs.host.clock 0) hblocks hB3
  obtain ⟨_, fs₂, hrun₂, cur, rfl, hcur, hm, hindex, hothers⟩ := freeIndex_ensures fs₁
    (by rw [hdone₁.machine.size]; exact hsize) (by rw [hdone₁.machine.size]; exact hlt) hB3
    hblocks' hfirst hhead tmp hdone₁.machine.noFaults
  have hr : fs₂.Reliable := by
    refine ⟨hm.noFaults, ?_, ?_⟩
    · rw [hm.superblock, hdone₁.machine.superblock, hm.size, hdone₁.machine.size]
      show 512 * (UInt64.ofNat B).toNat ≤ _
      rw [hblocks]
      exact hsize
    · rw [hm.size, hdone₁.machine.size]
      exact hlt
  have hpos : 0 < fs₂.superblock.blocks := by
    rw [hm.superblock, hdone₁.machine.superblock, UInt64.lt_iff_toNat_lt]
    show 0 < (UInt64.ofNat B).toNat
    omega
  have hassert : cur = firstFreeBlock (superblockFor (UInt64.ofNat B) (fs.host.clock 0)) - 1 ↔
      Fits B := by
    rw [fits_iff, ← UInt64.toNat_inj, hcur, UInt64.toNat_sub_of_le, hfirst, lastIndexBlock]
    · show spareHead B + _ = firstFree B - 1 ↔ _
      have hsplit : firstFree B = spareHead B + indexBlocks B := rfl
      have hspare : 2 ≤ spareHead B := Nat.le_add_left _ _
      omega
    · rw [UInt64.le_iff_toNat_le, hfirst]
      show 1 ≤ tableBlocks B + 2 + indexBlocks B
      omega
  have hloops : (formatFs : Fs F ℤ).run fs =
      (Run.assert (cur = firstFreeBlock (superblockFor (UInt64.ofNat B) (fs.host.clock 0)) - 1) >>=
        fun _ => syncSuperblock >>= fun r => if r ≠ 0 then pure (-1) else pure 0 :
          Fs F ℤ).run fs₂ := by
    rw [formatFs, Run.run_bind, diskBlocks_run fs hnf hB, Run.andThen_done]
    simp only [if_neg h3]
    rw [Filesystem.partitioned] at hrun₁
    rw [Run.run_bind, time_run, Run.andThen_done, Run.run_bind, Run.run_modify, Run.andThen_done,
      Run.run_bind, hrun₁, Run.andThen_done]
    dsimp only
    rw [Run.run_bind, hrun₂, Run.andThen_done]
  refine ⟨fun hfits => ⟨fs₂.synced, ?_, formatted_of_loops hdone₁ hm hindex hothers
    (hr.holds hpos)⟩, fun hfits => ?_⟩
  · rw [hloops, decide_eq_true (hassert.mpr hfits), Run.assert_true, Run.pure_bind',
      Run.run_bind, syncSuperblock_of_reliable hr hpos, Run.andThen_done, if_neg (by simp),
      Run.run_pure]
  · rw [hloops, decide_eq_false (mt hassert.mp hfits), Run.assert_false, Run.halt_bind,
      Run.run_halt]

end Whole

/-! ## Every host

A run of `format_fs` that returns 0 is one in which every system call did what it was
asked to, so it is also the run on a host that does not fail. -/

/-- The filesystem on a host that does not fail. -/
def Filesystem.faultless (fs : Filesystem F) : Filesystem F :=
  { fs with host := { fs.host with faults := fun _ => .none } }

section Follows

open Run

theorem blockWrite_follows (n : UInt64) (b : Block) :
    Follows (Filesystem.faultless (F := F)) (blockWrite n b) (· = 512) := by
  intro fs ret fs' hrun hret
  rw [blockWrite_run] at hrun ⊢
  cases hrun
  have hfull := Disk.pwrite_of_full hret
  have hdisk : fs.faultless.disk.pwrite (fs.faultless.host.faults 0) (n * 512) b =
      fs.disk.pwrite (fs.host.faults 0) (n * 512) b := hfull.symm
  rw [hdisk]
  rfl

/-- The last step of a function that writes: anything but a whole block is an error. -/
theorem blockWrite_bind_follows {α : Type} (n : UInt64) (b : Block) {bad : α} {good : Fs F α}
    {ok : α → Prop} (hbad : ¬ ok bad) (hgood : Follows (Filesystem.faultless (F := F)) good ok) :
    Follows (Filesystem.faultless (F := F))
      (blockWrite n b >>= fun ret => if ret ≠ 512 then pure bad else good) ok := by
  refine (blockWrite_follows n b).bind (fun ret hret => ?_) fun ret fs a fs' hret hrun => ?_
  · rw [if_neg (not_not.mpr hret)]
    exact hgood
  · rw [if_pos hret] at hrun
    cases hrun
    exact hbad

theorem time_follows (ok : UInt64 → Prop) :
    Follows (Filesystem.faultless (F := F)) time ok := by
  intro fs a fs' hrun _
  rw [time_run] at hrun ⊢
  cases hrun
  rfl

theorem formatInode_follows (i : UInt64) (w : Block × UInt64) (j : ℕ)
    (ok : Block × UInt64 → Prop) :
    Follows (Filesystem.faultless (F := F)) (formatInode i w j) ok := by
  rw [formatInode]
  split
  · refine Follows.get_bind (fun _ => rfl) fun fs => ?_
    exact (time_follows _).bind_of_all fun now => follows_pure _ _ _
  · exact follows_pure _ _ _

theorem formatTableStep_follows (tableSize : UInt64) (w : UInt64 × Block × UInt64) :
    Follows (Filesystem.faultless (F := F)) (formatTableStep tableSize w)
      (Sum.elim (fun _ => True) (· ≠ none)) := by
  obtain ⟨i, tmp, nextFree⟩ := w
  rw [formatTableStep]
  split
  · exact follows_pure _ _ _
  · refine Follows.bind_of_all ?_ fun r => ?_
    · simp only [List.foldlM_cons, List.foldlM_nil]
      exact (formatInode_follows _ _ _ _).bind_of_all fun _ =>
        (formatInode_follows _ _ _ _).bind_of_all fun _ =>
          (formatInode_follows _ _ _ _).bind_of_all fun _ => follows_pure _ _ _
    · exact blockWrite_bind_follows _ _ (fun h => h rfl) (follows_pure _ _ _)

theorem freeIndexStep_follows (blocks first : UInt64) (c : IndexCursor) :
    Follows (Filesystem.faultless (F := F)) (freeIndexStep blocks first c)
      (Sum.elim (fun _ => True) (· ≠ none)) := by
  rw [freeIndexStep]
  split
  · exact follows_pure _ _ _
  · refine (follows_assert _ _ _).bind_of_all fun _ => ?_
    dsimp only
    split
    · exact blockWrite_bind_follows _ _ (fun h => h rfl) (follows_pure _ _ _)
    · exact follows_pure _ _ _

theorem diskBlocks_follows :
    Follows (Filesystem.faultless (F := F)) diskBlocks (· ≠ none) := by
  intro fs a fs' hrun hok
  have h : (diskBlocks : Fs F (Option UInt64)).run fs =
      .done (if fs.host.faults 0 = .error then none else some (UInt64.ofNat (fs.disk.size / 512)))
        { fs with host := { fs.host with faults := fun i => fs.host.faults (i + 1) } } := rfl
  rw [h] at hrun
  cases hrun
  rw [if_neg fun e => hok (if_pos e)]
  rfl

theorem syncSuperblock_follows :
    Follows (Filesystem.faultless (F := F)) syncSuperblock (· = 0) := by
  refine Follows.get_bind (fun _ => rfl) fun fs => ?_
  exact blockWrite_bind_follows _ _ (by decide) (follows_pure _ _ _)

theorem formatFs_follows :
    Follows (Filesystem.faultless (F := F)) formatFs (· = 0) := by
  have hbad : ¬ (-1 : ℤ) = 0 := by decide
  rw [formatFs]
  refine diskBlocks_follows.bind_option (fun blocks => ?_) rfl hbad
  dsimp only
  split
  · exact follows_pure _ _ _
  refine (time_follows _).bind_of_all fun now => ?_
  refine Follows.bind_of_all (follows_modify (fun _ => by rfl) _) fun _ => ?_
  refine (Follows.loop (formatTableStep_follows _) _ _).bind_option (fun tmp => ?_) rfl hbad
  refine (Follows.loop (freeIndexStep_follows _ _) _ _).bind_option (fun cur => ?_) rfl hbad
  refine (follows_assert _ _ _).bind_of_all fun _ => ?_
  refine syncSuperblock_follows.bind (fun ret _ => ?_) fun ret fs b fs' hret hrun => ?_
  · split <;> exact follows_pure _ _ _
  · rw [if_pos hret] at hrun
    cases hrun
    exact hbad

end Follows

/-- **Every run of `format_fs` that returns 0** leaves a formatted disk of blocks that
fit. -/
theorem formatted_of_run (fs : Filesystem F) {fs' : Filesystem F} {B : ℕ}
    (hlt : fs.disk.size < 2 ^ 63)
    (hB : fs.disk.size / 512 = B) (hB3 : 3 ≤ B) (hrun : (formatFs : Fs F ℤ).run fs = .done 0 fs') :
    Fits B ∧ Formatted B fs fs' := by
  have hrun' := formatFs_follows fs 0 fs' hrun rfl
  obtain ⟨hgood, hbad⟩ := formatFs_run fs.faultless (fun _ => rfl) hlt hB hB3
  by_cases hfits : Fits B
  · obtain ⟨fs₁, hrun₁, hformatted⟩ := hgood hfits
    rw [hrun'] at hrun₁
    cases hrun₁
    exact ⟨hfits, hformatted.superblock, hformatted.synced, hformatted.size, hformatted.table,
      hformatted.index, hformatted.others⟩
  · rw [hbad hfits] at hrun'
    exact nomatch hrun'

end SimpleFileSystem
