import SimpleFileSystem.WriteLaw

/-!
# What a deallocation gives back

"Deallocates an inode and all of its blocks", says `fs.h` of `sfs_fs_inode_deallocate`.
The loop of the function goes over the twelve direct pointers, so a file with an index
block loses that block and all blocks that its entries name: nothing refers to them any
more, and they are not in the pool.  `deallocate_reclaims_iff` is the exact condition.

Its second half is about the inode cache, which keeps the number of a block in an `int`.
The write of the inode leaves the cache with the number that its block has as an `int`,
and if that is the number of another block of the table, the inodes there are hidden by
what the cache holds.  In a table of fewer than `2 ^ 31` blocks it is not
(`cachedApart_of_lt`).

`sfs_fs_inode_block_remove` is to "punch a hole in the logical file block".  It frees the
block and leaves the pointer, so the file goes on reading, and would write, a block of
the pool; only a hole that is there already is punched (`remove_punches_iff`).
-/

open ByteCodec

namespace SimpleFileSystem

variable {F : Type}

/-- **The cache does not hide other inodes**: the number that the block of an inode is
cached under is not that of a block with other inodes in it. -/
def Filesystem.CachedApart (fs : Filesystem F) (v : Inode) : Prop :=
  fs.cachedBlock ≠ inodeBlock v.inumber → ∀ k, fs.superblock.ValidInumber k → k ≠ v.inumber →
    ofCInt (toCInt (inodeBlock v.inumber)) = inodeBlock k →
      ((fs.tableBlock (inodeBlock v.inumber)).setInode (inodeSlot v.inumber) v).inode
        (inodeSlot k) = fs.logicalInode k

/-- **All blocks of the file join the pool**, each once, and the other inodes and their
blocks are unchanged: what a deallocation is for. -/
def Filesystem.Reclaims (fs : Filesystem F) (A : List UInt64) (v : Inode) : Prop :=
  ∀ fs', (sfsFsInodeDeallocate v).run fs = .done 0 fs' →
    (∃ nodes nodes', FreeChain fs nodes ∧ FreeChain fs' nodes' ∧
      (poolOf fs'.disk nodes').Perm (v.owned fs.disk ++ poolOf fs.disk nodes)) ∧
    (∀ k, fs.superblock.ValidInumber k → k ≠ v.inumber →
      fs'.logicalInode k = fs.logicalInode k) ∧
    ∀ k ∈ A, k ≠ v.inumber → ∀ b ∈ fs.ownedBy k,
      fs'.disk.block b.toNat = fs.disk.block b.toNat

section Cache

variable {fs : Filesystem F} {v : Inode} {k : UInt64}

/-- What a write of an inode makes of another one, whatever the size of the table. -/
theorem logicalInode_withInode_iff (h : InodeState fs) (hv : fs.superblock.ValidInumber v.inumber) :
    (∀ k, fs.superblock.ValidInumber k → k ≠ v.inumber →
      (fs.withInode v).logicalInode k = fs.logicalInode k) ↔ fs.CachedApart v := by
  by_cases hhit : fs.cachedBlock = inodeBlock v.inumber
  · refine ⟨fun _ hmiss => absurd hhit hmiss, fun _ k hk hne => ?_⟩
    rw [Filesystem.withInode, Filesystem.afterCache, if_pos hhit,
      logicalInode_setCachedInode hv.1 hhit hk.1, Function.update_of_ne hne]
  constructor
  · intro hsame _ k hk hne halias
    rw [← hsame k hk hne, logicalInode_withInode h hv.1 hhit hk.1, if_pos halias]
  · intro hapart k hk hne
    rw [logicalInode_withInode h hv.1 hhit hk.1]
    split
    · exact hapart hhit k hk hne ‹_›
    · rfl

/-- In the first `2 ^ 31` blocks, block numbers are what they are. -/
theorem cachedApart_of_lt (hv : 0 < v.inumber) (hint : (inodeBlock v.inumber).toNat < 2 ^ 31) :
    fs.CachedApart v := by
  intro _ k hk hne halias
  rw [ofCInt_toCInt hint] at halias
  have hslot : inodeSlot v.inumber ≠ inodeSlot k := fun hslot =>
    hne (inode_place_injective hv hk.1 halias hslot).symm
  rw [Block.inode_setInode_of_ne _ _ hslot, halias]
  rfl

end Cache

section Reclaims

variable {fs fs' : Filesystem F} {nodes nodes' A X : List UInt64} {v : Inode}

theorem direct_filter : v.direct.filter (· ≠ 0) = nonzero v.pointer (List.range 12) := rfl

/-- What the deallocation does to the pool, to the blocks of the other files, and to the
other inodes. -/
theorem freed_withFreed (h : Image fs nodes A []) (hv : fs.Current A v)
    (hfreed : Freed (fs.withFreed v) nodes (v.direct.filter (· ≠ 0)) fs' nodes') :
    (poolOf fs'.disk nodes').Perm (v.direct.filter (· ≠ 0) ++ poolOf fs.disk nodes) ∧
    (∀ k ∈ A, k ≠ v.inumber → ∀ b ∈ fs.ownedBy k,
      fs'.disk.block b.toNat = fs.disk.block b.toNat) ∧
    ∀ k, fs.superblock.ValidInumber k → fs'.logicalInode k =
      (fs.withInode { v with size := fs.superblock.freeInodeHead }).logicalInode k := by
  have hreleased := hv.released h
  have hstep := dataStep_withFreed hreleased hfreed
  refine ⟨?_, fun k hk hne b hb => ?_, fun k hk => ?_⟩
  · rw [← poolOf_withFreed h]
    exact hfreed.perm
  · have hrange := h.inRange b (Image.owned_mem hk hb)
    refine (hstep.block ?_).trans (block_withFreed h hrange)
    have hk' : k ∈ A.erase v.inumber := (List.mem_erase_of_ne hne).mpr hk
    rintro (hS | hS | hS)
    · exact h.ne_zero_of_inRange hrange hS
    · exact h.owned_notMem_pool hk hb hS
    · exact hreleased.loose_notMem_owned hk' (List.mem_append_left _ hS) hb
  · rw [hstep.logicalInode (inodeTable_withFreed h.state) ?_, Filesystem.withFreed,
      logicalInode_withInodeHead _ hk.1]
    rw [withFreed_superblock h.state]
    exact hk

/-- The blocks of the file are the direct ones only if it has no index block. -/
theorem owned_perm_direct_iff (d : Disk) :
    (v.direct.filter (· ≠ 0)).Perm (v.owned d) ↔ v.pointer 12 = 0 := by
  rw [direct_filter]
  constructor
  · intro hperm
    by_contra h0
    have hlen := hperm.length_eq.trans Inode.owned_perm.length_eq
    have hone : (nonzero v.pointer [12]).length = 1 := by
      simp [nonzero, h0]
    rw [Inode.leaves, List.length_append, List.length_append, hone] at hlen
    omega
  · intro h0
    have hnone : nonzero v.pointer [12] = [] := by
      simp [nonzero, h0]
    have howned := Inode.owned_perm (v := v) (d := d)
    rw [hnone, Inode.leaves, Disk.indexEntries, if_pos h0, List.append_nil,
      List.nil_append] at howned
    exact howned.symm

theorem Filesystem.Reclaims.pointer_eq_zero (hreclaims : fs.Reclaims A v)
    (h : Image fs nodes A []) (hv : fs.Current A v) : v.pointer 12 = 0 := by
  obtain ⟨ret, fs', hrun, rfl, nodes', hfreed⟩ :=
    sfsFsInodeDeallocate_freed (hv.released h) (h.valid _ hv.mem)
  obtain ⟨hpool, -⟩ := freed_withFreed h hv hfreed
  obtain ⟨⟨m, m', hm, hm', hperm⟩, -⟩ := hreclaims fs' hrun
  rw [← h.chain.nodes_unique hm, ← hfreed.chain.nodes_unique hm'] at hperm
  exact (owned_perm_direct_iff fs.disk).mp
    ((List.perm_append_right_iff _).mp (hpool.symm.trans hperm))

/-- **A deallocation gives back all blocks of the file** exactly if the file has no index
block and the inode cache does not hide another inode. -/
theorem deallocate_reclaims_iff (h : Image fs nodes A []) (hv : fs.Current A v) :
    fs.Reclaims A v ↔ v.pointer 12 = 0 ∧
      fs.CachedApart { v with size := fs.superblock.freeInodeHead } := by
  have hvalid := h.valid _ hv.mem
  have hother := logicalInode_withInode_iff h.state
    (v := { v with size := fs.superblock.freeInodeHead }) hvalid
  obtain ⟨ret, fs', hrun, rfl, nodes', hfreed⟩ := sfsFsInodeDeallocate_freed (hv.released h) hvalid
  obtain ⟨hpool, hblocks, hinodes⟩ := freed_withFreed h hv hfreed
  constructor
  · intro hreclaims
    refine ⟨hreclaims.pointer_eq_zero h hv, hother.mp fun k hk hne => ?_⟩
    rw [← hinodes k hk, (hreclaims fs' hrun).2.1 k hk hne]
  · rintro ⟨h0, hapart⟩ fs'' hrun'
    cases hrun.symm.trans hrun'
    refine ⟨⟨nodes, nodes', h.chain, hfreed.chain, ?_⟩, fun k hk hne => ?_, hblocks⟩
    · exact hpool.trans (((owned_perm_direct_iff fs.disk).mpr h0).append_right _)
    · rw [hinodes k hk, hother.mpr hapart k hk hne]

end Reclaims

/-- An inode 2 that names block 4 and no other block, on a small disk. -/
theorem exists_withFour {v : Inode} (hk : v.inumber = 2)
    (howned : (v.owned (Filesystem.blank oneFreeBlock ()).disk).Perm
      (4 :: emptyTwo.owned (Filesystem.blank oneFreeBlock ()).disk))
    (hindex : v.pointer 12 ≠ 0 → v.pointer 12 = 4) :
    ∃ fs : Filesystem Unit, Image fs [3] [2] [] ∧ fs.Current [2] v := by
  have himage := smallDisk_blank.image
  have hfile : emptyTwo.owned (Filesystem.blank oneFreeBlock ()).disk =
      (Filesystem.blank oneFreeBlock ()).ownedBy 2 := smallDisk_blank.current.owned
  have hempty : emptyTwo.owned (Filesystem.blank oneFreeBlock ()).disk = [] := by
    rw [Inode.owned, Inode.pointers, emptyTwo_pointer, Disk.indexEntries, if_pos rfl,
      List.append_nil, nonzero, List.filter_eq_nil_iff]
    intro x hx
    obtain ⟨j, -, rfl⟩ := List.mem_map.mp hx
    simp [emptyTwo_pointer]
  have hadopt := himage.adopt (W := [4]) (List.nodup_singleton 4)
    (fun b hb => by rw [List.mem_singleton.mp hb]; decide) fun b hb hc => by
      rw [List.mem_singleton.mp hb, census, poolOf_oneFreeBlock, List.flatMap_cons, ← hfile,
        hempty] at hc
      simp at hc
  have hperm : ([] ++ v.owned (Filesystem.blank oneFreeBlock ()).disk).Perm
      ([4] ++ [] ++ (Filesystem.blank oneFreeBlock ()).ownedBy v.inumber) := by
    rw [hk, ← hfile]
    exact howned
  have hmem : v.inumber ∈ [2] := List.mem_singleton.mpr hk
  obtain ⟨-, fs, -, -, hdone, -, hset, -⟩ := hadopt.writeInode [] (v := v) hmem
    (by rw [hk]; decide) hperm fun h0 => by rw [hindex h0]; decide
  exact ⟨fs, hdone, hmem, congrArg Inode.blockPointers hset.symm⟩

/-- The inode of a file of one block, which is block 4. -/
def directTwo : Inode := emptyTwo.setPointer 0 4

theorem directTwo_index : directTwo.pointer 12 = 0 := by
  rw [directTwo, Inode.pointer_setPointer_of_ne _ _ (by decide), emptyTwo_pointer]

/-- A small disk with that file. -/
theorem exists_directTwo :
    ∃ fs : Filesystem Unit, Image fs [3] [2] [] ∧ fs.Current [2] directTwo :=
  exists_withFour rfl (Inode.owned_setPointer (by decide) (emptyTwo_pointer 0) (by decide))
    fun h0 => absurd directTwo_index h0

/-- **Its deallocation** gives block 4 back. -/
theorem deallocate_reclaims_iff_directTwo :
    ∃ fs : Filesystem Unit, Image fs [3] [2] [] ∧ fs.Current [2] directTwo ∧
      fs.Reclaims [2] directTwo := by
  obtain ⟨fs, himage, hcurrent⟩ := exists_directTwo
  exact ⟨fs, himage, hcurrent, (deallocate_reclaims_iff himage hcurrent).mpr
    ⟨directTwo_index, cachedApart_of_lt (show 0 < (2 : UInt64) by decide)
      (show (inodeBlock 2).toNat < 2 ^ 31 by decide)⟩⟩

/-- The inode of a file with an index block, which is block 4, and no other block. -/
def indexedTwo : Inode := emptyTwo.setPointer 12 4

/-- A small disk with that file. -/
theorem exists_indexedTwo :
    ∃ fs : Filesystem Unit, Image fs [3] [2] [] ∧ fs.Current [2] indexedTwo := by
  refine exists_withFour rfl ?_ fun _ => Inode.pointer_setPointer _ _ (by decide)
  have hwords : (Filesystem.blank oneFreeBlock ()).disk.indexEntries 4 = [] := by
    have hblock : (Filesystem.blank oneFreeBlock ()).disk.block (4 : UInt64).toNat = Block.zero :=
      block_blank (by decide)
    rw [Disk.indexEntries, if_neg (by decide), hblock, nonzero, List.filter_eq_nil_iff]
    intro x hx
    obtain ⟨j, -, rfl⟩ := List.mem_map.mp hx
    simp
  have hset := Inode.owned_setIndex (d := (Filesystem.blank oneFreeBlock ()).disk)
    (emptyTwo_pointer 12) (show (4 : UInt64) ≠ 0 by decide)
  rwa [hwords] at hset

/-- **The deallocation of that file leaks block 4.** -/
theorem deallocate_leaks_index_block :
    ∃ fs : Filesystem Unit, Image fs [3] [2] [] ∧ fs.Current [2] indexedTwo ∧
      ¬ fs.Reclaims [2] indexedTwo := by
  obtain ⟨fs, himage, hcurrent⟩ := exists_indexedTwo
  refine ⟨fs, himage, hcurrent, fun hreclaims => ?_⟩
  have h0 := hreclaims.pointer_eq_zero himage hcurrent
  rw [indexedTwo, Inode.pointer_setPointer _ _ (by decide)] at h0
  exact absurd h0 (by decide)

/-! ## Punching a hole -/

/-- **A hole is punched**: the logical block reads as zeros, the others as before, the old
block is free and in no file, and there is nothing left to remove. -/
def Filesystem.Punches (fs : Filesystem F) (A : List UInt64) (v : Inode) (i : UInt64) : Prop :=
  Run.Ensures (sfsFsInodeBlockRemove v i) fs fun ret fs' => ret = 0 →
    (∀ block, Run.Ensures (sfsFsInodeBlockRead v i block) fs' fun x _ => x = (0, Block.zero)) ∧
    (∀ j, j ≠ i → ReadsSame fs fs' v v j) ∧
    (∀ k ∈ A, k ≠ v.inumber → ∀ j,
      ReadsSame fs fs' (fs.logicalInode k) (fs'.logicalInode k) j) ∧
    (v.pointer i.toNat ≠ 0 → ∃ nodes', FreeChain fs' nodes' ∧
      (poolOf fs'.disk nodes').count (v.pointer i.toNat) = 1 ∧
      ∀ k ∈ A, v.pointer i.toNat ∉ fs'.ownedBy k) ∧
    Run.Ensures (sfsFsInodeBlockRemove v i) fs' fun ret' fs'' => ret' = 0 ∧ fs'' = fs'

section Punch

variable {fs fs' : Filesystem F} {nodes A X : List UInt64} {v : Inode} {i : UInt64}

/-- **What `sfs_fs_inode_block_remove` does** to a block that is there: the block joins the
pool, and no inode changes. -/
theorem sfsFsInodeBlockRemove_ensures (h : Image fs nodes A []) (hv : fs.Current A v)
    (hi : i < sfsNdirBlocks) (h0 : v.pointer i.toNat ≠ 0) :
    Run.Ensures (sfsFsInodeBlockRemove v i) fs fun ret fs' => ret = 0 ∧
      (∃ nodes', PoolGets fs nodes (v.pointer i.toNat) fs' nodes') ∧
      ∀ k, fs.superblock.ValidInumber k → fs'.logicalInode k = fs.logicalInode k := by
  have hmem : v.pointer i.toNat ∈ fs.ownedBy v.inumber := by
    rw [← hv.owned]
    exact Inode.pointer_mem_owned (by have := toNat_lt_of_direct hi; omega) h0
  have hrange := h.inRange _ (Image.owned_mem hv.mem hmem)
  rw [sfsFsInodeBlockRemove, if_neg (UInt64.not_le.mpr hi), if_neg h0]
  refine (free_spec h.state.reliable h.chain h0 (Superblock.lt_of_inRange hrange)
    (h.owned_notMem_pool hv.mem hmem)).bind ?_
  rintro ret fs' ⟨rfl, nodes', hgets⟩
  rw [if_neg (by simp)]
  refine Run.ensures_pure ⟨rfl, ⟨nodes', hgets⟩, fun k hk => ?_⟩
  -- what is written is the superblock and data blocks
  have hstep : DataStep (fun x => x = 0 ∨ x ∈ nodes ∨ x = v.pointer i.toNat) fs fs' := by
    refine ⟨hgets.frame, ?_⟩
    rintro b (rfl | hb | rfl) hin
    · exact UInt64.lt_irrefl 0 hin.1
    · exact h.notInTable (h.inRange b (Image.node_mem hb)) hin
    · exact h.notInTable hrange hin
  exact hstep.logicalInode h.state.table hk

/-- **Punching a hole works exactly where there already is one.**  A block that is there is
freed, and the inode still names it. -/
theorem remove_punches_iff (h : Image fs nodes A []) (hv : fs.Current A v)
    (hi : i < sfsNdirBlocks) : fs.Punches A v i ↔ v.pointer i.toNat = 0 := by
  constructor
  · intro hpunches
    by_contra h0
    obtain ⟨ret, fs', hrun, hret, -, hinodes⟩ := sfsFsInodeBlockRemove_ensures h hv hi h0
    obtain ⟨-, -, -, hfree, -⟩ := hpunches.post hrun hret
    obtain ⟨nodes', -, -, hnone⟩ := hfree h0
    refine hnone _ hv.mem ?_
    rw [Filesystem.ownedBy, hinodes _ (h.valid _ hv.mem), hv.pointer]
    rw [hv.pointer] at h0
    exact Inode.pointer_mem_owned (by have := toNat_lt_of_direct hi; omega) h0
  · intro h0
    have hremove : ∀ fs : Filesystem F, (sfsFsInodeBlockRemove v i).run fs = .done 0 fs := by
      intro fs
      rw [sfsFsInodeBlockRemove, if_neg (UInt64.not_le.mpr hi), if_pos h0, Run.run_pure]
    refine Run.Ensures.of_eq (hremove fs) fun _ => ⟨fun block => ?_, fun j _ block x hx => hx,
      fun k _ _ j block x hx => hx, fun hne => absurd h0 hne,
      Run.Ensures.of_eq (hremove fs) ⟨rfl, rfl⟩⟩
    refine Run.Ensures.of_eq
      (sfsFsInodeBlockRead_run h.state.reliable (hv.indexOk h) block) ?_
    rw [Disk.resolve, if_pos hi, h0, Filesystem.fetch, if_pos rfl]

end Punch

/-- A hole in an empty file. -/
theorem remove_punches_iff_emptyTwo : (Filesystem.blank oneFreeBlock ()).Punches [2] emptyTwo 0 :=
  (remove_punches_iff smallDisk_blank.image smallDisk_blank.current (by decide)).mpr
    (emptyTwo_pointer _)

/-- **Removing that block** frees it and leaves it in the file. -/
theorem remove_leaves_pointer :
    ∃ fs : Filesystem Unit, Image fs [3] [2] [] ∧ fs.Current [2] directTwo ∧
      ¬ fs.Punches [2] directTwo 0 := by
  obtain ⟨fs, himage, hcurrent⟩ := exists_directTwo
  refine ⟨fs, himage, hcurrent, fun hpunches => ?_⟩
  have h0 : directTwo.pointer 0 = 0 :=
    (remove_punches_iff himage hcurrent (by decide)).mp hpunches
  rw [directTwo, Inode.pointer_setPointer _ _ (by decide)] at h0
  exact absurd h0 (by decide)

end SimpleFileSystem
