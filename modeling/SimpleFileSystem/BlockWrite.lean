import SimpleFileSystem.Ownership

/-!
# Logical blocks

A logical block of a file is found through the inode: the first twelve by a direct
pointer, the next sixty-four by an entry of the index block.  `Disk.resolve` is that
lookup, and `sfs_fs_inode_block_read` reads what it finds (`sfsFsInodeBlockRead_run`).

A write goes the same way but fills in what is missing, and in doing so it may take up
to two blocks from the pool.  `WritePlan` lists the ways it can go, each with the block
number it arrives at and the state in which it does, and `blockNumberForWrite_run` says
that there are no others.  What is proved about the writes of a file is proved by cases
on the plan.
-/

open ByteCodec

namespace SimpleFileSystem

variable {F : Type}

/-! ## Reading -/

/-- The entry of an index block, if there is one. -/
def Disk.entry (d : Disk) (p : UInt64) (i : ℕ) : UInt64 :=
  if p = 0 then 0 else Block.word (d.block p.toNat) i

/-- **The block number of a logical block**: zero in a hole, none past the end of what
an inode maps. -/
def Disk.resolve (d : Disk) (v : Inode) (i : UInt64) : Option UInt64 :=
  if i < sfsNdirBlocks then some (v.pointer i.toNat)
  else if i < sfsNdirBlocks + sfsNindBlocks then
    some (d.entry (v.pointer 12) (i - sfsNdirBlocks).toNat)
  else none

/-- What `sfs_fs_inode_block_read` answers once it has the block number. -/
def Filesystem.fetch (fs : Filesystem F) (found : Option UInt64) (block : Block) : ℤ × Block :=
  match found with
  | none => (-1, block)
  | some n =>
    if n = 0 then (0, Block.zero)
    else if fs.superblock.inRange n then (0, fs.disk.block n.toNat)
    else (-1, block)

/-- What `sfs_fs_inode_block_write` does once it has the block number. -/
def Filesystem.store (fs : Filesystem F) (found : Option UInt64) (block : Block) :
    ℤ × Filesystem F :=
  match found with
  | none => (-1, fs)
  | some n => if fs.superblock.inRange n then (0, fs.writeBlock n block) else (-1, fs)

/-- An index pointer that may be followed. -/
def Superblock.IndexOk (s : Superblock) (p : UInt64) : Prop :=
  p ≠ 0 → s.inRange p = true

section Geometry

variable {i : UInt64}

theorem toNat_lt_of_direct (hi : i < sfsNdirBlocks) : i.toNat < 12 :=
  UInt64.lt_iff_toNat_lt.mp hi

/-- The entry of a logical block that is not a direct one. -/
theorem toNat_sub_ndir (h12 : ¬ i < sfsNdirBlocks) :
    (i - sfsNdirBlocks).toNat = i.toNat - 12 := by
  rw [UInt64.toNat_sub_of_le _ _ (UInt64.not_lt.mp h12)]
  rfl

theorem toNat_entry_lt (h12 : ¬ i < sfsNdirBlocks) (h76 : i < sfsNdirBlocks + sfsNindBlocks) :
    (i - sfsNdirBlocks).toNat < 64 := by
  have hlt : i.toNat < 76 := UInt64.lt_iff_toNat_lt.mp h76
  have hge : 12 ≤ i.toNat := UInt64.le_iff_toNat_le.mp (UInt64.not_lt.mp h12)
  rw [toNat_sub_ndir h12]
  omega

/-- Different logical blocks have different entries. -/
theorem toNat_entry_ne {j : UInt64} (hi : ¬ i < sfsNdirBlocks) (hj : ¬ j < sfsNdirBlocks)
    (hij : i ≠ j) : (i - sfsNdirBlocks).toNat ≠ (j - sfsNdirBlocks).toNat := by
  have hi' : 12 ≤ i.toNat := UInt64.le_iff_toNat_le.mp (UInt64.not_lt.mp hi)
  have hj' : 12 ≤ j.toNat := UInt64.le_iff_toNat_le.mp (UInt64.not_lt.mp hj)
  have hne := toNat_ne_of_ne hij
  rw [toNat_sub_ndir hi, toNat_sub_ndir hj]
  omega

end Geometry

section Resolve

variable {d : Disk} {v : Inode} {i j x : UInt64}

/-- What it means for a logical block not to be a hole. -/
theorem resolve_cases (h : d.resolve v i = some x) (hx : x ≠ 0) :
    (i < sfsNdirBlocks ∧ v.pointer i.toNat = x) ∨
      (¬ i < sfsNdirBlocks ∧ i < sfsNdirBlocks + sfsNindBlocks ∧ v.pointer 12 ≠ 0 ∧
        Block.word (d.block (v.pointer 12).toNat) (i - sfsNdirBlocks).toNat = x) := by
  rw [Disk.resolve] at h
  by_cases h12 : i < sfsNdirBlocks
  · rw [if_pos h12] at h
    exact Or.inl ⟨h12, Option.some.inj h⟩
  by_cases h76 : i < sfsNdirBlocks + sfsNindBlocks
  · rw [if_neg h12, if_pos h76, Disk.entry] at h
    by_cases hp : v.pointer 12 = 0
    · rw [if_pos hp] at h
      exact absurd (Option.some.inj h).symm hx
    · rw [if_neg hp] at h
      exact Or.inr ⟨h12, h76, hp, Option.some.inj h⟩
  · rw [if_neg h12, if_neg h76] at h
    exact nomatch h

/-- A logical block that is not a hole is in a data block of the file. -/
theorem mem_leaves_of_resolve (h : d.resolve v i = some x) (hx : x ≠ 0) : x ∈ v.leaves d := by
  rcases resolve_cases h hx with ⟨h12, rfl⟩ | ⟨h12, h76, hp, rfl⟩
  · exact Inode.pointer_mem_leaves (toNat_lt_of_direct h12) hx
  · exact Inode.word_mem_leaves hp (toNat_entry_lt h12 h76) hx

/-- The logical block with a given entry. -/
theorem exists_entry {e : ℕ} (he : e < 64) :
    ∃ i : UInt64, ¬ i < sfsNdirBlocks ∧ i < sfsNdirBlocks + sfsNindBlocks ∧
      (i - sfsNdirBlocks).toNat = e := by
  have hlt : e + 12 < 2 ^ 64 := by omega
  have hnat : (UInt64.ofNat (e + 12)).toNat = e + 12 := UInt64.toNat_ofNat_of_lt' hlt
  have h12 : ¬ UInt64.ofNat (e + 12) < sfsNdirBlocks := by
    rw [UInt64.lt_iff_toNat_lt, hnat]
    exact Nat.not_lt.mpr (Nat.le_add_left 12 e)
  refine ⟨UInt64.ofNat (e + 12), h12, ?_, ?_⟩
  · rw [UInt64.lt_iff_toNat_lt, hnat]
    exact Nat.add_lt_add_right he 12
  · rw [toNat_sub_ndir h12, hnat, Nat.add_sub_cancel]

/-- Every data block of a file is that of a logical block. -/
theorem exists_resolve_of_mem_leaves (h : x ∈ v.leaves d) : ∃ i, d.resolve v i = some x := by
  rcases List.mem_append.mp h with h | h
  · obtain ⟨-, e, he, rfl⟩ := mem_nonzero.mp h
    have hlt := List.mem_range.mp he
    have hnat : (UInt64.ofNat e).toNat = e :=
      UInt64.toNat_ofNat_of_lt' (show e < 2 ^ 64 by omega)
    refine ⟨UInt64.ofNat e, ?_⟩
    rw [Disk.resolve, if_pos (by rw [UInt64.lt_iff_toNat_lt, hnat]; exact hlt), hnat]
  · rw [Disk.indexEntries] at h
    split at h
    · exact absurd h List.not_mem_nil
    · rename_i hp
      obtain ⟨-, e, he, rfl⟩ := mem_nonzero.mp h
      obtain ⟨i, h12, h76, hi⟩ := exists_entry (List.mem_range.mp he)
      refine ⟨i, ?_⟩
      rw [Disk.resolve, if_neg h12, if_pos h76, Disk.entry, if_neg hp, hi]

/-- **Two logical blocks do not share a data block.** -/
theorem resolve_injective (hnodup : (v.leaves d).Nodup) (hx : x ≠ 0)
    (hi : d.resolve v i = some x) (hj : d.resolve v j = some x) : i = j := by
  obtain ⟨hdirect, hentry, hdisj⟩ := List.nodup_append.mp hnodup
  have hdir : ∀ {k : UInt64}, k < sfsNdirBlocks → k.toNat ∈ List.range 12 := fun hk =>
    List.mem_range.mpr (toNat_lt_of_direct hk)
  have hent : ∀ {k : UInt64}, ¬ k < sfsNdirBlocks → k < sfsNdirBlocks + sfsNindBlocks →
      (k - sfsNdirBlocks).toNat ∈ List.range 64 := fun h12 h76 =>
    List.mem_range.mpr (toNat_entry_lt h12 h76)
  rcases resolve_cases hi hx with ⟨hi12, hi⟩ | ⟨hi12, hi76, hp, hi⟩ <;>
    rcases resolve_cases hj hx with ⟨hj12, hj⟩ | ⟨hj12, hj76, hp', hj⟩
  · exact UInt64.toNat_inj.mp (eq_of_nonzero_nodup hdirect (hdir hi12) (hdir hj12)
      (hi.trans hj.symm) (hi ▸ hx))
  · refine absurd rfl (hdisj x (mem_nonzero.mpr ⟨hx, _, hdir hi12, hi⟩) x ?_)
    rw [Disk.indexEntries, if_neg hp']
    exact mem_nonzero.mpr ⟨hx, _, hent hj12 hj76, hj⟩
  · refine absurd rfl (hdisj x (mem_nonzero.mpr ⟨hx, _, hdir hj12, hj⟩) x ?_)
    rw [Disk.indexEntries, if_neg hp]
    exact mem_nonzero.mpr ⟨hx, _, hent hi12 hi76, hi⟩
  · rw [Disk.indexEntries, if_neg hp] at hentry
    have hsub := eq_of_nonzero_nodup hentry (hent hi12 hi76) (hent hj12 hj76) (hi.trans hj.symm)
      (by rw [hi]; exact hx)
    by_contra hij
    exact toNat_entry_ne hi12 hj12 hij hsub

end Resolve

section Read

variable {fs : Filesystem F} {v : Inode} {i : UInt64}

theorem readFromIndirect_false_run (hr : fs.Reliable) {p : UInt64}
    (hp : fs.superblock.IndexOk p) (idx : UInt64) :
    (readFromIndirect p idx false).run fs = .done (some (fs.disk.entry p idx.toNat)) fs := by
  rw [readFromIndirect, Disk.entry]
  by_cases h0 : p = 0
  · rw [if_pos h0, if_pos h0, Run.run_pure]
  · have hholds := hr.holds (Superblock.lt_of_inRange (hp h0))
    rw [if_neg h0, if_neg h0, Run.run_bind, blockRead_of_holds hr.noFaults hholds,
      Run.andThen_done]
    simp

theorem blockNumberForRead_run (hr : fs.Reliable) (hp : fs.superblock.IndexOk (v.pointer 12)) :
    (blockNumberForRead v i).run fs = .done (fs.disk.resolve v i) fs := by
  rw [blockNumberForRead, Disk.resolve]
  by_cases h12 : i < sfsNdirBlocks
  · rw [if_pos h12, if_pos h12, Run.run_pure]
  by_cases h76 : i < sfsNdirBlocks + sfsNindBlocks
  · rw [if_neg h12, if_neg h12, if_pos h76, if_pos h76]
    exact readFromIndirect_false_run hr hp _
  · rw [if_neg h12, if_neg h12, if_neg h76, if_neg h76, Run.run_pure]

/-- **`sfs_fs_inode_block_read`** fetches what the lookup finds and changes nothing. -/
theorem sfsFsInodeBlockRead_run (hr : fs.Reliable) (hp : fs.superblock.IndexOk (v.pointer 12))
    (block : Block) :
    (sfsFsInodeBlockRead v i block).run fs =
      .done (fs.fetch (fs.disk.resolve v i) block) fs := by
  rw [sfsFsInodeBlockRead, Run.run_bind, blockNumberForRead_run hr hp, Run.andThen_done]
  cases hfound : fs.disk.resolve v i with
  | none => rfl
  | some n =>
    by_cases h0 : n = 0
    · simp [Filesystem.fetch, h0]
    by_cases hrange : fs.superblock.inRange n = true
    · have hholds := hr.holds (Superblock.lt_of_inRange hrange)
      simp [Filesystem.fetch, h0, hrange, blockRead_of_holds hr.noFaults hholds]
    · simp [Filesystem.fetch, h0, hrange]

end Read

/-! ## Writing -/

/-- The inode of a file that has been given an index block. -/
def Inode.withIndex (v : Inode) (n now : UInt64) : Inode :=
  { v.setPointer 12 n with changeTime := now }

@[simp] theorem Inode.withIndex_inumber (v : Inode) (n now : UInt64) :
    (v.withIndex n now).inumber = v.inumber := rfl

@[simp] theorem Inode.withIndex_pointer (v : Inode) (n now : UInt64) (i : ℕ) :
    (v.withIndex n now).pointer i = (v.setPointer 12 n).pointer i := rfl

/-- The filesystem after a file has been given its index block. -/
def Filesystem.afterIndex (fs : Filesystem F) (v : Inode) (n : UInt64) : Filesystem F :=
  fs.afterAllocate.ticked.withInode (v.withIndex n (fs.afterAllocate.host.clock 0))

/-- **The ways of finding or filling an entry** of the index block `p`. -/
inductive EntryPlan (fs : Filesystem F) (p : UInt64) (i : ℕ) :
    Option UInt64 → Filesystem F → Prop where
  | present (h : Block.word (fs.disk.block p.toNat) i ≠ 0) :
      EntryPlan fs p i (some (Block.word (fs.disk.block p.toNat) i)) fs
  | full (h : Block.word (fs.disk.block p.toNat) i = 0) (hfull : fs.nextFree = none) :
      EntryPlan fs p i none fs.afterAllocate
  | fresh (h : Block.word (fs.disk.block p.toNat) i = 0) (n : UInt64)
      (hn : fs.nextFree = some n) :
      EntryPlan fs p i (some n)
        (fs.afterAllocate.writeBlock p (Block.setWord (fs.disk.block p.toNat) i n))

/-- **The ways of finding or filling a logical block**: the inode afterwards, the block
number or failure, the state. -/
inductive WritePlan (fs : Filesystem F) (v : Inode) (i : UInt64) :
    Inode → Option UInt64 → Filesystem F → Prop where
  | beyond (h : ¬ i < sfsNdirBlocks + sfsNindBlocks) : WritePlan fs v i v none fs
  | direct (hi : i < sfsNdirBlocks) (h : v.pointer i.toNat ≠ 0) :
      WritePlan fs v i v (some (v.pointer i.toNat)) fs
  | directFull (hi : i < sfsNdirBlocks) (h : v.pointer i.toNat = 0)
      (hfull : fs.nextFree = none) : WritePlan fs v i v none fs.afterAllocate
  | directFresh (hi : i < sfsNdirBlocks) (h : v.pointer i.toNat = 0) (n : UInt64)
      (hn : fs.nextFree = some n) :
      WritePlan fs v i (v.setPointer i.toNat n) (some n)
        (fs.afterAllocate.withInode (v.setPointer i.toNat n))
  | entry (h12 : ¬ i < sfsNdirBlocks) (h76 : i < sfsNdirBlocks + sfsNindBlocks)
      (h : v.pointer 12 ≠ 0) (t : Option UInt64) (fs' : Filesystem F)
      (plan : EntryPlan fs (v.pointer 12) (i - sfsNdirBlocks).toNat t fs') :
      WritePlan fs v i v t fs'
  | indexFull (h12 : ¬ i < sfsNdirBlocks) (h76 : i < sfsNdirBlocks + sfsNindBlocks)
      (h : v.pointer 12 = 0) (hfull : fs.nextFree = none) :
      WritePlan fs v i v none fs.afterAllocate
  | newIndex (h12 : ¬ i < sfsNdirBlocks) (h76 : i < sfsNdirBlocks + sfsNindBlocks)
      (h : v.pointer 12 = 0) (n : UInt64) (hn : fs.nextFree = some n) (t : Option UInt64)
      (fs' : Filesystem F)
      (plan : EntryPlan (fs.afterIndex v n) n (i - sfsNdirBlocks).toNat t fs') :
      WritePlan fs v i (v.withIndex n (fs.afterAllocate.host.clock 0)) t fs'

/-- The caller's copy of the inode of an allocated file. -/
structure Filesystem.Current (fs : Filesystem F) (A : List UInt64) (v : Inode) : Prop where
  mem : v.inumber ∈ A
  pointers : v.blockPointers = (fs.logicalInode v.inumber).blockPointers

section Write

variable {fs : Filesystem F} {nodes A X : List UInt64} {v : Inode} {i : UInt64}

theorem Filesystem.Current.pointer (h : fs.Current A v) (j : ℕ) :
    v.pointer j = (fs.logicalInode v.inumber).pointer j := by
  rw [Inode.pointer, h.pointers, Inode.pointer]

theorem Filesystem.Current.owned (h : fs.Current A v) : v.owned fs.disk = fs.ownedBy v.inumber :=
  Inode.owned_congr h.pointers fun _ => rfl

theorem Filesystem.Current.leaves (h : fs.Current A v) :
    v.leaves fs.disk = (fs.logicalInode v.inumber).leaves fs.disk := by
  have hpointer : v.pointer = (fs.logicalInode v.inumber).pointer := funext h.pointer
  rw [Inode.leaves, hpointer, Inode.leaves]

theorem Filesystem.Current.indexOk (hv : fs.Current A v) (h : Image fs nodes A X) :
    fs.superblock.IndexOk (v.pointer 12) := by
  intro h0
  rw [hv.pointer] at h0 ⊢
  exact h.index_inRange hv.mem h0

/-- Taking a block leaves the index block of a file alone. -/
theorem Filesystem.Current.index_block (hv : fs.Current A v) (h : Image fs nodes A X)
    (h0 : v.pointer 12 ≠ 0) : fs.afterAllocate.disk.block (v.pointer 12).toNat =
      fs.disk.block (v.pointer 12).toNat := by
  refine h.block_afterAllocate (hv.indexOk h h0) ?_
  rw [hv.pointer] at h0 ⊢
  exact h.owned_notMem_pool hv.mem (Image.index_mem h0)

/-- A step on the inode table leaves the free chain alone. -/
theorem Image.chain_of_tableFrame {fs' : Filesystem F} (h : Image fs nodes A X)
    (hframe : TableFrame fs fs') : FreeChain fs' nodes := by
  have hsame : ∀ m ∈ nodes, fs'.disk.block m.toNat = fs.disk.block m.toNat := fun m hm =>
    h.block_of_tableFrame hframe (h.inRange m (Image.node_mem hm))
  refine ⟨?_, ?_, ?_⟩
  · rw [hframe.superblock]
    refine h.linked.congr fun m hm => ?_
    rw [Disk.nextNode, hsame m hm, Disk.nextNode]
  · rw [poolOf_congr hsame]
    exact h.chain.nodup
  · rw [poolOf_congr hsame, hframe.superblock]
    exact h.chain.inDisk

/-- The allocator goes on as if nothing had happened. -/
theorem Image.nextFree_of_tableFrame {fs' : Filesystem F} (h : Image fs nodes A X)
    (hframe : TableFrame fs fs') : fs'.nextFree = fs.nextFree := by
  rw [Filesystem.nextFree, Filesystem.nextFree, hframe.superblock]
  cases nodes with
  | nil =>
    have h0 : fs.superblock.freeBlocksHead = 0 := h.linked
    rw [if_pos h0, if_pos h0]
  | cons n ns =>
    have hhead : fs.superblock.freeBlocksHead = n := h.linked.1
    rw [hhead, h.block_of_tableFrame hframe (h.inRange n (node_mem List.mem_cons_self))]

theorem Image.block_afterAllocate_of_tableFrame {fs' : Filesystem F} (h : Image fs nodes A X)
    (hframe : TableFrame fs fs') {x : UInt64} (hx : fs.superblock.inRange x = true) :
    fs'.afterAllocate.disk.block x.toNat = fs.afterAllocate.disk.block x.toNat := by
  have hsame := h.block_of_tableFrame hframe hx
  rw [Filesystem.afterAllocate, Filesystem.afterAllocate, hframe.superblock]
  cases nodes with
  | nil =>
    have h0 : fs.superblock.freeBlocksHead = 0 := h.linked
    rw [if_pos h0, if_pos h0]
    exact hsame
  | cons n ns =>
    have hhead : fs.superblock.freeBlocksHead = n := h.linked.1
    have hn := h.inRange n (node_mem List.mem_cons_self)
    have hholds := h.state.reliable.holds (Superblock.lt_of_inRange hn)
    have hholds' : fs'.disk.Holds n := (hframe.reliable h.state.reliable).holds
      (by rw [hframe.superblock]; exact Superblock.lt_of_inRange hn)
    rw [hhead, if_neg h.linked.2.1, if_neg h.linked.2.1, h.block_of_tableFrame hframe hn]
    dsimp only
    split
    · by_cases hxn : n = x
      · rw [hxn, Filesystem.block_writeBlock, Filesystem.block_writeBlock]
      · rw [Filesystem.block_writeBlock_of_ne _ hholds (toNat_ne_of_ne hxn),
          Filesystem.block_writeBlock_of_ne _ hholds' (toNat_ne_of_ne hxn), hsame]
    · have hx0 : x.toNat ≠ 0 := fun e => h.ne_zero_of_inRange hx (UInt64.toNat_inj.mp e)
      rw [block_withHead _ hx0, block_withHead _ hx0, hsame]

theorem ticked_writeBlock (fs : Filesystem F) (n : UInt64) (b : Block) :
    fs.ticked.writeBlock n b = (fs.writeBlock n b).ticked := rfl

theorem ticked_withHead (fs : Filesystem F) (x : UInt64) :
    fs.ticked.withHead x = (fs.withHead x).ticked := rfl

theorem ticked_nextFree (fs : Filesystem F) : fs.ticked.nextFree = fs.nextFree := by
  have hdisk : fs.ticked.disk = fs.disk := rfl
  have hsuper : fs.ticked.superblock = fs.superblock := rfl
  rw [Filesystem.nextFree, hdisk, hsuper, Filesystem.nextFree]

/-- The allocator does not look at the clock. -/
theorem ticked_afterAllocate (fs : Filesystem F) :
    fs.ticked.afterAllocate = fs.afterAllocate.ticked := by
  have hdisk : fs.ticked.disk = fs.disk := rfl
  have hsuper : fs.ticked.superblock = fs.superblock := rfl
  unfold Filesystem.afterAllocate
  rw [hdisk, hsuper]
  dsimp only
  by_cases h0 : fs.superblock.freeBlocksHead = 0
  · rw [if_pos h0, if_pos h0]
  · rw [if_neg h0, if_neg h0]
    cases findSlot (fun x => decide (x ≠ 0)) (fs.disk.block fs.superblock.freeBlocksHead.toNat) with
    | some i => exact ticked_writeBlock fs _ _
    | none => exact ticked_withHead fs _

theorem readFromIndirect_true_run (hr : fs.Reliable) (hc : FreeChain fs nodes) {p idx : UInt64}
    (hp0 : p ≠ 0) (hlt : p < fs.superblock.blocks) (hidx : idx.toNat < 64) :
    ∃ t fs', (readFromIndirect p idx true).run fs = .done t fs' ∧
      EntryPlan fs p idx.toNat t fs' := by
  rw [readFromIndirect, if_neg hp0, Run.run_bind, blockRead_of_holds hr.noFaults (hr.holds hlt),
    Run.andThen_done]
  by_cases hword : Block.word (fs.disk.block p.toNat) idx.toNat = 0
  · rcases allocate_spec hr hc with ⟨hnone, -, -⟩ | ⟨n, nodes', hsome, htakes⟩
    · refine ⟨none, fs.afterAllocate, ?_, EntryPlan.full hword hnone⟩
      simp [hword, sfsFsAllocateBlock_run hr hc, hnone]
    · have hr' := htakes.frame.reliable hr
      have hlt' : p < fs.afterAllocate.superblock.blocks := by
        rw [htakes.frame.blocks]
        exact hlt
      refine ⟨some n, _, ?_, EntryPlan.fresh hword n hsome⟩
      simp [hword, sfsFsAllocateBlock_run hr hc, hsome,
        blockWrite_of_holds hr'.noFaults (hr'.holds hlt'), Block.word_setWord _ n hidx]
  · refine ⟨_, fs, ?_, EntryPlan.present hword⟩
    simp [hword]

theorem directForWrite_run (h : Image fs nodes A X) (hv : fs.Current A v)
    (hi : i < sfsNdirBlocks) :
    ∃ r t fs', (directForWrite v i.toNat).run fs = .done (r, t) fs' ∧ WritePlan fs v i r t fs' := by
  by_cases h0 : v.pointer i.toNat = 0
  · rcases h.allocate with ⟨hnone, -⟩ | ⟨n, nodes', hsome, -, himage, hstep⟩
    · refine ⟨v, none, fs.afterAllocate, ?_, WritePlan.directFull hi h0 hnone⟩
      simp [directForWrite, h0, sfsFsAllocateBlock_run h.state.reliable h.chain, hnone]
    · refine ⟨_, _, _, ?_, WritePlan.directFresh hi h0 n hsome⟩
      have hvalid : fs.afterAllocate.superblock.ValidInumber (v.setPointer i.toNat n).inumber :=
        himage.valid _ hv.mem
      simp [directForWrite, h0, sfsFsAllocateBlock_run h.state.reliable h.chain, hsome,
        sfsFsWriteInode_run himage.state hvalid, Filesystem.withInode]
  · refine ⟨v, _, fs, ?_, WritePlan.direct hi h0⟩
    simp [directForWrite, h0]

/-- Giving an inode its index block. -/
theorem ensureIndirect_run (h : Image fs nodes A X) (hv : fs.Current A v) (h0 : v.pointer 12 = 0) :
    (ensureIndirect v).run fs =
      match fs.nextFree with
      | none => .done (v, -1) fs.afterAllocate
      | some n => .done (v.withIndex n (fs.afterAllocate.host.clock 0), 0) (fs.afterIndex v n) := by
  have h12 : sfsNdirBlocks.toNat = 12 := rfl
  rw [ensureIndirect, h12, if_neg (not_not.mpr h0), Run.run_bind,
    sfsFsAllocateBlock_run h.state.reliable h.chain, Run.andThen_done]
  rcases h.allocate with ⟨hnone, -⟩ | ⟨n, nodes', hsome, -, himage, -⟩
  · rw [hnone]
    rfl
  · have hvalid : fs.afterAllocate.ticked.superblock.ValidInumber
        (v.withIndex n (fs.afterAllocate.host.clock 0)).inumber := himage.valid _ hv.mem
    rw [hsome]
    show (time >>= fun now => sfsFsWriteInode (v.withIndex n now) >>= _).run _ = _
    rw [Run.run_bind, time_run, Run.andThen_done, Run.run_bind,
      sfsFsWriteInode_run himage.ticked.state hvalid, Run.andThen_done]
    rfl

/-- **The first part of `sfs_fs_inode_block_write`** goes one of the ways of the plan. -/
theorem blockNumberForWrite_run (h : Image fs nodes A X) (hv : fs.Current A v) :
    ∃ r t fs', (blockNumberForWrite v i).run fs = .done (r, t) fs' ∧ WritePlan fs v i r t fs' := by
  by_cases h12 : i < sfsNdirBlocks
  · rw [blockNumberForWrite, if_pos h12]
    exact directForWrite_run h hv h12
  by_cases h76 : i < sfsNdirBlocks + sfsNindBlocks
  · rw [blockNumberForWrite, if_neg h12, if_pos h76, Run.run_bind]
    have hidx := toNat_entry_lt h12 h76
    have hndir : sfsNdirBlocks.toNat = 12 := rfl
    by_cases h0 : v.pointer 12 = 0
    · rw [ensureIndirect_run h hv h0]
      rcases h.allocate with ⟨hnone, -⟩ | ⟨n, nodes', hsome, -, himage, -⟩
      · rw [hnone]
        exact ⟨v, none, fs.afterAllocate, rfl, WritePlan.indexFull h12 h76 h0 hnone⟩
      have hrange := himage.inRange n (Image.loose_mem List.mem_cons_self)
      have hframe : TableFrame fs.afterAllocate.ticked (fs.afterIndex v n) :=
        withInode_frame himage.ticked.state _
      have hlt : n < (fs.afterIndex v n).superblock.blocks := by
        rw [hframe.superblock]
        exact Superblock.lt_of_inRange hrange
      obtain ⟨t, fs', hrun, hplan⟩ := readFromIndirect_true_run
        (hframe.reliable himage.ticked.state.reliable)
        (himage.ticked.chain_of_tableFrame hframe) (himage.ne_zero_of_inRange hrange) hlt hidx
      refine ⟨_, t, fs', ?_, WritePlan.newIndex h12 h76 h0 n hsome t fs' hplan⟩
      rw [hsome]
      dsimp only [Run.andThen_done]
      rw [if_neg (by simp), hndir, Inode.withIndex_pointer,
        Inode.pointer_setPointer _ _ (by decide), Run.run_bind, hrun, Run.andThen_done,
        Run.run_pure]
    · have hrange := hv.indexOk h h0
      obtain ⟨t, fs', hrun, hplan⟩ := readFromIndirect_true_run h.state.reliable h.chain h0
        (Superblock.lt_of_inRange hrange) hidx
      refine ⟨v, t, fs', ?_, WritePlan.entry h12 h76 h0 t fs' hplan⟩
      rw [ensureIndirect, hndir, if_pos h0, Run.run_pure]
      dsimp only [Run.andThen_done]
      rw [if_neg (by simp), Run.run_bind, hrun, Run.andThen_done, Run.run_pure]
  · refine ⟨v, none, fs, ?_, WritePlan.beyond h76⟩
    rw [blockNumberForWrite, if_neg h12, if_neg h76, Run.run_pure]

/-! ### What a plan leaves alone -/

/-- Between two states the data blocks outside `S` stay what they are, and I/O goes on
not to fail. -/
structure DataFrame (S : UInt64 → Prop) (fs fs' : Filesystem F) : Prop where
  reliable : fs'.Reliable
  inRange : fs'.superblock.inRange = fs.superblock.inRange
  block : ∀ x, fs.superblock.inRange x = true → ¬ S x →
    fs'.disk.block x.toNat = fs.disk.block x.toNat

namespace DataFrame

variable {S T : UInt64 → Prop} {fs' fs'' : Filesystem F}

theorem refl (hr : fs.Reliable) : DataFrame S fs fs :=
  ⟨hr, rfl, fun _ _ _ => rfl⟩

theorem mono (h : DataFrame S fs fs') (hST : ∀ x, S x → T x) : DataFrame T fs fs' :=
  { h with block := fun x hx hT => h.block x hx fun hS => hT (hST x hS) }

theorem trans (h : DataFrame S fs fs') (h' : DataFrame S fs' fs'') : DataFrame S fs fs'' where
  reliable := h'.reliable
  inRange := h'.inRange.trans h.inRange
  block x hx hS := (h'.block x (by rw [h.inRange]; exact hx) hS).trans (h.block x hx hS)

theorem of_allocatorFrame (hr : fs.Reliable)
    (hs : fs.superblock.inodeTableBlocks < fs.superblock.blocks) (h : AllocatorFrame S fs fs')
    (hST : ∀ x, S x → x = 0 ∨ T x) : DataFrame T fs fs' where
  reliable := h.reliable hr
  inRange := Superblock.inRange_congr h.inodeTableBlocks h.blocks
  block x hx hT := h.block _ fun b hb e => by
    rw [UInt64.toNat_inj.mp e] at hb
    exact (hST x hb).elim (Superblock.ne_zero_of_inRange hs hx) hT

theorem of_tableFrame (hr : fs.Reliable)
    (hs : fs.superblock.inodeTableBlocks < fs.superblock.blocks) (h : TableFrame fs fs') :
    DataFrame S fs fs' where
  reliable := h.reliable hr
  inRange := by rw [h.superblock]
  block x hx _ := h.block _ fun _ hn e =>
    Superblock.notInTable_of_inRange hs hx (UInt64.toNat_inj.mp e ▸ hn)

theorem of_writeBlock (hr : fs.Reliable) {n : UInt64} (hn : n < fs.superblock.blocks)
    (b : Block) : DataFrame (· = n) fs (fs.writeBlock n b) where
  reliable := (AllocatorFrame.of_writeBlock (S := fun _ => True) b (hr.holds hn)
    trivial).reliable hr
  inRange := rfl
  block _ _ hx := Filesystem.block_writeBlock_of_ne b (hr.holds hn) (toNat_ne_of_ne (Ne.symm hx))

end DataFrame

/-- What giving a file its index block `n` does: `n` leaves the pool, and the data
blocks other than index nodes stay what they are. -/
theorem afterIndex_spec (h : Image fs nodes A X) (v : Inode) {n : UInt64}
    (hn : fs.nextFree = some n) :
    ∃ nodes', FreeChain (fs.afterIndex v n) nodes' ∧
      (poolOf fs.disk nodes).Perm (n :: poolOf (fs.afterIndex v n).disk nodes') ∧
      DataFrame (fun x => x ∈ nodes ∧ x ≠ n) fs (fs.afterIndex v n) ∧
      (fs.afterIndex v n).superblock = fs.afterAllocate.superblock ∧
      (fs.afterIndex v n).superblock.inodeTableBlocks < (fs.afterIndex v n).superblock.blocks := by
  obtain ⟨nodes', hperm, himage, hstep⟩ := h.allocate_some hn
  have hframe : TableFrame fs.afterAllocate.ticked (fs.afterIndex v n) :=
    withInode_frame himage.ticked.state _
  have hsame : ∀ x ∈ nodes', (fs.afterIndex v n).disk.block x.toNat =
      fs.afterAllocate.disk.block x.toNat := fun x hx =>
    himage.ticked.block_of_tableFrame hframe (himage.inRange x (Image.node_mem hx))
  refine ⟨nodes', himage.ticked.chain_of_tableFrame hframe, ?_, ?_, hframe.superblock, ?_⟩
  · rw [poolOf_congr hsame]
    exact hperm
  · have htake : DataFrame (fun x => x ∈ nodes ∧ x ≠ n) fs fs.afterAllocate :=
      DataFrame.of_allocatorFrame h.state.reliable h.state.table.inDisk hstep.frame fun _ hx => hx
    have hindex : DataFrame (fun x => x ∈ nodes ∧ x ≠ n) fs.afterAllocate.ticked
        (fs.afterIndex v n) :=
      DataFrame.of_tableFrame himage.ticked.state.reliable himage.ticked.state.table.inDisk hframe
    exact htake.trans ⟨hindex.reliable, hindex.inRange, hindex.block⟩
  · rw [hframe.superblock]
    exact himage.state.table.inDisk

/-- Finding or filling an entry writes index nodes and the index block. -/
theorem EntryPlan.dataFrame {fs' : Filesystem F} {p : UInt64} {idx : ℕ} {t : Option UInt64}
    (hr : fs.Reliable) (hs : fs.superblock.inodeTableBlocks < fs.superblock.blocks)
    (hc : FreeChain fs nodes) (hp : p < fs.superblock.blocks) (hplan : EntryPlan fs p idx t fs') :
    DataFrame (fun x => x ∈ poolOf fs.disk nodes ∨ x = p) fs fs' ∧
      ∀ n, t = some n → Block.word (fs.disk.block p.toNat) idx = n ∨ n ∈ poolOf fs.disk nodes := by
  rcases allocate_spec hr hc with ⟨hnone, -, hsame⟩ | ⟨n, nodes', hsome, htakes⟩
  · cases hplan with
    | present h => exact ⟨DataFrame.refl hr, fun _ e => Or.inl (Option.some.inj e)⟩
    | full =>
      rw [hsame]
      exact ⟨DataFrame.refl hr, fun _ e => nomatch e⟩
    | fresh h m hm =>
      rw [hnone] at hm
      exact nomatch hm
  · have htake : DataFrame (fun x => x ∈ poolOf fs.disk nodes ∨ x = p) fs fs.afterAllocate :=
      DataFrame.of_allocatorFrame hr hs htakes.frame fun x hx =>
        hx.imp id fun hx => Or.inl (mem_poolOf_of_mem hx.1)
    cases hplan with
    | present h => exact ⟨DataFrame.refl hr, fun _ e => Or.inl (Option.some.inj e)⟩
    | full => exact ⟨htake, fun _ e => nomatch e⟩
    | fresh h m hm =>
      rw [hsome] at hm
      cases hm
      have hp' : p < fs.afterAllocate.superblock.blocks := by
        rw [htakes.frame.blocks]
        exact hp
      refine ⟨htake.trans ((DataFrame.of_writeBlock htake.reliable hp' _).mono
        fun _ hx => Or.inr hx), fun _ e => Or.inr ?_⟩
      cases e
      exact htakes.perm.mem_iff.mpr List.mem_cons_self

/-- **Whichever way a write goes**, it finds its block without touching a data block
that is not free, the index block of the file apart. -/
theorem WritePlan.dataFrame {fs' : Filesystem F} {r : Inode} {t : Option UInt64}
    (h : Image fs nodes A X) (hv : fs.Current A v) (hplan : WritePlan fs v i r t fs') :
    DataFrame (fun x => x ∈ poolOf fs.disk nodes ∨ x = v.pointer 12) fs fs' := by
  have hr := h.state.reliable
  have hs := h.state.table.inDisk
  have htake : DataFrame (fun x => x ∈ poolOf fs.disk nodes ∨ x = v.pointer 12) fs
      fs.afterAllocate := by
    rcases h.allocate with ⟨-, hsame⟩ | ⟨n, nodes', -, -, -, hstep⟩
    · rw [hsame]
      exact DataFrame.refl hr
    · exact DataFrame.of_allocatorFrame hr hs hstep.frame fun x hx =>
        hx.imp id fun hx => Or.inl (mem_poolOf_of_mem hx.1)
  cases hplan with
  | beyond => exact DataFrame.refl hr
  | direct => exact DataFrame.refl hr
  | directFull => exact htake
  | directFresh hi h0 n hn =>
    obtain ⟨nodes', -, himage, -⟩ := h.allocate_some hn
    exact htake.trans (DataFrame.of_tableFrame himage.state.reliable himage.state.table.inDisk
      (withInode_frame himage.state _))
  | entry h12 h76 h0 t fs' plan =>
    exact (plan.dataFrame hr hs h.chain (Superblock.lt_of_inRange (hv.indexOk h h0))).1
  | indexFull => exact htake
  | newIndex h12 h76 h0 n hn t fs' plan =>
    obtain ⟨nodes', hchain, hperm, hframe, -, hs'⟩ := afterIndex_spec h v hn
    have hrange : (fs.afterIndex v n).superblock.inRange n = true := by
      rw [hframe.inRange]
      exact h.nextFree_inRange hn
    have hentry := (plan.dataFrame hframe.reliable hs' hchain (Superblock.lt_of_inRange hrange)).1
    refine (hframe.mono fun x hx => Or.inl (mem_poolOf_of_mem hx.1)).trans
      (hentry.mono fun x hx => Or.inl ?_)
    rcases hx with hx | rfl
    · exact hperm.mem_iff.mpr (List.mem_cons_of_mem n hx)
    · exact h.nextFree_mem hn

/-- The index pointer of the inode that a write leaves may be followed. -/
theorem WritePlan.indexOk {fs' : Filesystem F} {r : Inode} {t : Option UInt64}
    (h : Image fs nodes A X) (hv : fs.Current A v) (hplan : WritePlan fs v i r t fs') :
    fs.superblock.IndexOk (r.pointer 12) := by
  cases hplan with
  | directFresh hi h0 n hn =>
    have hi12 := toNat_lt_of_direct hi
    rw [Inode.pointer_setPointer_of_ne _ _ (by omega)]
    exact hv.indexOk h
  | newIndex h12 h76 h0 n hn t fs' plan =>
    rw [Inode.withIndex_pointer, Inode.pointer_setPointer _ _ (by decide)]
    exact fun _ => h.nextFree_inRange hn
  | _ => exact hv.indexOk h

/-- **`sfs_fs_inode_block_write`** finds its block in one of the ways of the plan and
stores the data in it. -/
theorem sfsFsInodeBlockWrite_run (h : Image fs nodes A X) (hv : fs.Current A v) (i : UInt64) :
    ∃ r t fs', WritePlan fs v i r t fs' ∧ ∀ block,
      (sfsFsInodeBlockWrite v i block).run fs =
        .done ((fs'.store t block).1, r) (fs'.store t block).2 := by
  obtain ⟨r, t, fs', hrun, hplan⟩ := blockNumberForWrite_run (i := i) h hv
  have hframe := hplan.dataFrame h hv
  refine ⟨r, t, fs', hplan, fun block => ?_⟩
  rw [sfsFsInodeBlockWrite, Run.run_bind, hrun]
  dsimp only [Run.andThen_done]
  cases t with
  | none => rfl
  | some n =>
    by_cases hrange : fs'.superblock.inRange n = true
    · have hholds := hframe.reliable.holds (Superblock.lt_of_inRange hrange)
      simp [Filesystem.store, hrange, blockWrite_of_holds hframe.reliable.noFaults hholds]
    · simp [Filesystem.store, hrange]

end Write

end SimpleFileSystem
