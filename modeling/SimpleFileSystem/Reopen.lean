import SimpleFileSystem.InodeList
import SimpleFileSystem.BlockWrite
import SimpleFileSystem.Format

/-!
# Closing a disk and opening it again

What a mounted filesystem knows is in three places: the superblock in memory, the one
block in the inode cache, and the disk file.  `sfs_fs_close` brings the first two to the
disk, and `sfs_fs_open_disk` on a disk with the signature reads the superblock and
nothing else, so the new handle sees the logical inodes and the blocks that the old one
saw (`remounted_sees`).

The memory of a handle comes from `malloc`, and opening a disk fills in the superblock
and the number of the cached block only.  What is said here is said of memory in which
the dirty flag is clear; `CacheMemory` is about the other.
-/

namespace SimpleFileSystem

variable {F : Type}

/-- The memory that `malloc` returns for a `struct filesystem`. -/
structure HandleMemory where
  superblock : Superblock
  inodeCache : InodeCache

/-- The disk with a handle in such memory, to be opened. -/
def Filesystem.unopened (fs : Filesystem F) (memory : HandleMemory) : Filesystem F :=
  { fs with superblock := memory.superblock, inodeCache := memory.inodeCache }

/-- A formatted disk, on a host on which I/O does not fail. -/
structure FormattedDisk (fs : Filesystem F) : Prop where
  noFaults : fs.host.NoFaults
  holds : fs.disk.Holds 0
  signature : (fs.disk.block 0).superblock.signature = sfsFileTypeSignature

/-- The handle that `sfs_fs_open_disk` makes of a formatted disk. -/
def Filesystem.opened (fs : Filesystem F) : Filesystem F where
  disk := fs.disk
  superblock := (fs.disk.block 0).superblock
  inodeCache := { fs.inodeCache with blockNumber := 0 }
  host := { fs.host with mallocs := fun i => fs.host.mallocs (i + 1) }
  files := fs.files

section Open

variable {fs : Filesystem F}

/-- **Opening a formatted disk** reads the superblock and writes nothing. -/
theorem sfsFsOpenDisk_run (h : FormattedDisk fs) (hmalloc : fs.host.mallocs 0 = true)
    (maybeFormat : Bool) : (sfsFsOpenDisk maybeFormat).run fs = .done true fs.opened := by
  rw [sfsFsOpenDisk, Run.run_bind, malloc_run, Run.andThen_done, hmalloc, if_neg (by simp),
    Run.run_bind, Run.run_modify, Run.andThen_done, Run.run_bind,
    blockRead_of_holds (by exact h.noFaults) (by exact h.holds), Run.andThen_done]
  dsimp only
  rw [if_neg (by simp), if_pos (by exact h.signature)]
  rfl

/-- Opening returns no handle without memory for it. -/
theorem mallocs_of_sfsFsOpenDisk {fs' : Filesystem F} {maybeFormat : Bool}
    (h : (sfsFsOpenDisk maybeFormat).run fs = .done true fs') : fs.host.mallocs 0 = true := by
  by_contra hnone
  rw [sfsFsOpenDisk, Run.run_bind, malloc_run, Run.andThen_done, if_pos hnone, Run.run_pure] at h
  cases h

end Open

/-! ## Closing -/

section Close

variable {fs : Filesystem F}

/-- The filesystem after `sfs_fs_close`. -/
def Filesystem.closed (fs : Filesystem F) : Filesystem F :=
  fs.flushed.synced

theorem sfsFsClose_run (h : InodeState fs) :
    (sfsFsClose : Fs F ℤ).run fs = .done 0 fs.closed := by
  have hframe := flushed_frame h
  have hpos : 0 < fs.flushed.superblock.blocks := by
    rw [hframe.superblock]
    exact blocks_pos h.table.inDisk
  rw [sfsFsClose, Run.run_bind, writeBack_run h, Run.andThen_done, if_neg (by simp), Run.run_bind,
    syncSuperblock_of_reliable (hframe.reliable h.reliable) hpos, Run.andThen_done]
  rfl

theorem closed_superblock (h : InodeState fs) :
    (fs.closed.disk.block 0).superblock = fs.superblock := by
  have hsynced : (fs.closed.disk.block 0).superblock = fs.flushed.superblock :=
    Filesystem.Synced.of_synced fs.flushed
  rw [hsynced, (flushed_frame h).superblock]

theorem closed_size (h : InodeState fs) : fs.closed.disk.size = fs.disk.size := by
  have hframe := flushed_frame h
  have hholds : fs.flushed.disk.Holds 0 := by
    refine (hframe.reliable h.reliable).holds ?_
    rw [hframe.superblock]
    exact blocks_pos h.table.inDisk
  exact (Disk.setBlock_size _ _ hholds.le_size).trans hframe.size

theorem closed_block {m : ℕ} (hm : m ≠ 0) :
    fs.closed.disk.block m = fs.flushed.disk.block m :=
  Disk.block_setBlock_of_ne _ _ (Ne.symm hm) (Nat.zero_le _)

theorem formattedDisk_closed (h : InodeState fs)
    (hsignature : fs.superblock.signature = sfsFileTypeSignature) (memory : HandleMemory) :
    FormattedDisk (fs.closed.unopened memory) where
  noFaults := ((flushed_frame h).reliable h.reliable).noFaults
  holds := by
    have hholds := h.reliable.holds (blocks_pos h.table.inDisk)
    exact ⟨by rw [Filesystem.unopened, closed_size h]; exact hholds.le_size,
      by rw [Filesystem.unopened, closed_size h]; exact hholds.addressable⟩
  signature := by
    rw [Filesystem.unopened, closed_superblock h]
    exact hsignature

/-- The handle on the disk that has been closed and opened again. -/
def Filesystem.remounted (fs : Filesystem F) (memory : HandleMemory) : Filesystem F :=
  (fs.closed.unopened memory).opened

theorem remounted_superblock (h : InodeState fs) (memory : HandleMemory) :
    (fs.remounted memory).superblock = fs.superblock :=
  closed_superblock h

/-- **The new handle sees the logical inodes of the old one.** -/
theorem remounted_sees (memory : HandleMemory) (h : InodeState fs) {k : UInt64} (hk : 0 < k) :
    (fs.remounted memory).logicalInode k = fs.logicalInode k := by
  have hn0 := inodeBlock_ne_zero hk
  have hcached : (fs.remounted memory).cachedBlock ≠ inodeBlock k := fun e => hn0 e.symm
  have hblock : (fs.remounted memory).tableBlock (inodeBlock k) = fs.tableBlock (inodeBlock k) := by
    rw [Filesystem.tableBlock, if_neg hcached, ← flushed_block h hn0]
    exact closed_block fun e => hn0 (UInt64.toNat_inj.mp e)
  rw [Filesystem.logicalInode, hblock, Filesystem.logicalInode]

theorem inodeState_remounted (h : InodeState fs) {memory : HandleMemory}
    (hclean : memory.inodeCache.dirty = false) : InodeState (fs.remounted memory) where
  reliable := by
    have hreliable := (flushed_frame h).reliable h.reliable
    refine ⟨hreliable.noFaults, ?_, ?_⟩
    · rw [remounted_superblock h, show (fs.remounted memory).disk.size = fs.disk.size from
        closed_size h]
      exact h.reliable.covers
    · rw [show (fs.remounted memory).disk.size = fs.disk.size from closed_size h]
      exact h.reliable.addressable
  table := by
    refine ⟨?_, ?_⟩
    · rw [remounted_superblock h]
      exact h.table.inodes_le
    · rw [remounted_superblock h]
      exact h.table.inDisk
  cache := ⟨Or.inl rfl, fun _ => hclean, fun h0 => absurd rfl h0⟩

/-- **Close and reopen loses nothing**, from any state between calls. -/
theorem close_reopen_ensures (h : InodeState fs)
    (hsignature : fs.superblock.signature = sfsFileTypeSignature)
    (hsmall : fs.superblock.inodeTableBlocks.toNat < 2 ^ 31) :
    Run.Ensures sfsFsClose fs fun ret closed => ret = 0 ∧
      ∀ (memory : HandleMemory) (maybeFormat : Bool), memory.inodeCache.dirty = false →
        closed.host.mallocs 0 = true →
        Run.Ensures (sfsFsOpenDisk maybeFormat) (closed.unopened memory) fun ok fs' =>
          ok = true ∧ fs'.disk = closed.disk ∧ fs'.superblock = fs.superblock ∧
          (∀ k, fs.superblock.ValidInumber k → ∃ v,
            Run.Ensures (sfsFsReadInode k) fs (fun answer _ => answer = some v) ∧
            Run.Ensures (sfsFsReadInode k) fs' (fun answer _ => answer = some v)) ∧
          ∀ m : ℕ, m ≠ 0 → (∀ n, fs.superblock.InTable n → n.toNat ≠ m) →
            fs'.disk.block m = fs.disk.block m := by
  refine Run.Ensures.of_eq (sfsFsClose_run h) ⟨rfl, fun memory maybeFormat hclean hmalloc => ?_⟩
  have hrun := sfsFsOpenDisk_run (formattedDisk_closed h hsignature memory) hmalloc maybeFormat
  refine Run.Ensures.of_eq hrun ⟨rfl, rfl, remounted_superblock h memory, fun k hk => ?_,
    fun m hm hoff => ?_⟩
  · have hint := h.table.lt_int hk hsmall
    have hk' : (fs.remounted memory).superblock.ValidInumber k := by
      rw [remounted_superblock h]
      exact hk
    refine ⟨fs.logicalInode k, (sfsFsReadInode_ensures h hk hint).mono fun _ _ hpost => hpost.1,
      (sfsFsReadInode_ensures (inodeState_remounted h hclean) hk' hint).mono fun _ _ hpost => ?_⟩
    rw [hpost.1, remounted_sees memory h hk.1]
  · exact (closed_block hm).trans ((flushed_frame h).block m hoff)

end Close

/-! ## Runs -/

/-- **Close and reopen loses nothing.**  A formatted disk is opened, any calls are made
on the handle, and the handle is closed; then opening the disk again does not format it,
and the new handle has the superblock that was in memory, reads the inodes that the old
one would have read, and finds the data blocks as they were. -/
theorem close_and_reopen_loses_nothing {disk fs fs' : Filesystem F} {maybeFormat : Bool}
    {nodes L : List UInt64} {tr : List FsEvent} (hformatted : FormattedDisk disk)
    (hopen : (sfsFsOpenDisk maybeFormat).run disk = .done true fs) (h : Mounted fs nodes L)
    (hexec : Exec FsCall fs tr fs') :
    Run.Ensures sfsFsClose fs' fun ret closed => ret = 0 ∧
      ∀ (memory : HandleMemory) (maybeFormat : Bool), memory.inodeCache.dirty = false →
        closed.host.mallocs 0 = true →
        Run.Ensures (sfsFsOpenDisk maybeFormat) (closed.unopened memory) fun ok fs'' =>
          ok = true ∧ fs''.disk = closed.disk ∧ fs''.superblock = fs'.superblock ∧
          (∀ k, fs'.superblock.ValidInumber k → ∃ v,
            Run.Ensures (sfsFsReadInode k) fs' (fun answer _ => answer = some v) ∧
            Run.Ensures (sfsFsReadInode k) fs'' (fun answer _ => answer = some v)) ∧
          ∀ m : ℕ, m ≠ 0 → (∀ n, fs'.superblock.InTable n → n.toNat ≠ m) →
            fs''.disk.block m = fs'.disk.block m := by
  obtain ⟨nodes', L', hmounted, hlayout, -⟩ := h.exec hexec
  have hsuper : fs.superblock = (disk.disk.block 0).superblock := by
    rw [sfsFsOpenDisk_run hformatted (mallocs_of_sfsFsOpenDisk hopen)] at hopen
    cases hopen
    rfl
  refine close_reopen_ensures hmounted.image.state ?_ hmounted.small
  rw [hlayout, hsuper]
  exact hformatted.signature

/-- The superblock of a formatted disk of eight blocks with one free block and no free
inode. -/
def fullTable : Superblock :=
  { oneFreeBlock with signature := sfsFileTypeSignature, freeInodeHead := 0 }

/-- That disk is opened. -/
theorem mounted_fullTable :
    FormattedDisk (Filesystem.blank fullTable ()) ∧
    (sfsFsOpenDisk false).run (Filesystem.blank fullTable ()) =
      .done true (Filesystem.blank fullTable ()).malloced ∧
    Mounted (Filesystem.blank fullTable ()).malloced [3] [] := by
  have hsynced : ((Filesystem.blank fullTable ()).disk.block 0).superblock = fullTable :=
    Filesystem.Synced.of_synced _
  have himage : Image (Filesystem.blank fullTable ()) [3] [] [] := image_blank rfl rfl rfl rfl
  have hdisk : FormattedDisk (Filesystem.blank fullTable ()) := by
    refine ⟨himage.state.reliable.noFaults, himage.state.reliable.holds himage.blocks_pos', ?_⟩
    rw [hsynced]
    rfl
  have hopened : (Filesystem.blank fullTable ()).opened =
      (Filesystem.blank fullTable ()).malloced := by
    rw [Filesystem.opened, hsynced]
    rfl
  have hopen := sfsFsOpenDisk_run hdisk rfl false
  rw [hopened] at hopen
  refine ⟨hdisk, hopen, himage.malloced, ⟨rfl, fun k hk => absurd hk List.not_mem_nil,
    fun k hk => absurd hk List.not_mem_nil⟩, ?_⟩
  show (1 : UInt64).toNat < 2 ^ 31
  decide

/-- On that disk an inode is written and the last block is taken.  It is closed and opened again,
and the inode is read as it was written. -/
theorem close_and_reopen_loses_nothing_fullTable :
    ∃ fs fs' closed fs'' : Filesystem Unit,
      (sfsFsOpenDisk false).run (Filesystem.blank fullTable ()) = .done true fs ∧
      Exec FsCall fs [.writeInode { emptyTwo with size := 7 }, .allocateBlock (some 3)] fs' ∧
      sfsFsClose.run fs' = .done 0 closed ∧
      (sfsFsOpenDisk false).run (closed.unopened ⟨fullTable, ⟨false, 0, Block.zero⟩⟩) =
        .done true fs'' ∧
      fs''.superblock = fs'.superblock ∧
      Run.Ensures (sfsFsReadInode 2) fs'' fun answer _ =>
        answer = some { emptyTwo with size := 7 } := by
  obtain ⟨hdisk, hopen, hmounted⟩ := mounted_fullTable
  have hstate := hmounted.image.state
  have hvalid : (Filesystem.blank fullTable ()).malloced.superblock.ValidInumber 2 := by
    constructor <;> decide
  have hinUse : (Filesystem.blank fullTable ()).malloced.InUse 2 :=
    ⟨hvalid, fun L hL => by
      rw [hL.unique hmounted.list]
      exact List.not_mem_nil⟩
  obtain ⟨ret, fs₁, hwrite, -, -, hframe, hset, -⟩ :=
    sfsFsWriteInode_ensures (v := { emptyTwo with size := 7 }) hstate hvalid (by decide)
  obtain ⟨-, hlayout, nodes₁, hmounted₁⟩ := (hmounted.writeInode_ensures hinUse).post hwrite
  have hnext : fs₁.nextFree = some 3 := by
    have hblock : (Filesystem.blank fullTable ()).malloced.disk.block (3 : UInt64).toNat =
        Block.zero := block_blank (by decide)
    have hhead : (Filesystem.blank fullTable ()).malloced.superblock.freeBlocksHead = 3 := rfl
    rw [hmounted.image.nextFree_of_tableFrame hframe]
    exact (allocate_of_slots_eq_nil hhead (by decide) (by rw [hblock, Block.slots_zero])).1
  have htake := sfsFsAllocateBlock_run hmounted₁.image.state.reliable hmounted₁.image.chain
  rw [hnext] at htake
  obtain ⟨nodes₂, -, himage₂, hstep⟩ := hmounted₁.image.allocate_some hnext
  have hexec := Exec.cons (FsCall.writeInode hinUse hwrite)
    (.cons (FsCall.allocateBlock htake) (.nil _))
  obtain ⟨ret', closed, hclose, rfl, hreopen⟩ :=
    close_and_reopen_loses_nothing hdisk hopen hmounted hexec
  have hmalloc : closed.host.mallocs 0 = true := by
    rw [sfsFsClose_run himage₂.state] at hclose
    cases hclose
    show fs₁.afterAllocate.flushed.host.mallocs 0 = true
    rw [(flushed_frame himage₂.state).host, hstep.frame.host, hframe.host]
    rfl
  obtain ⟨ok, fs₃, hrun, rfl, -, hsuper, hreads, -⟩ :=
    hreopen ⟨fullTable, ⟨false, 0, Block.zero⟩⟩ false rfl hmalloc
  have hvalid₁ : fs₁.superblock.ValidInumber 2 := by
    rw [hframe.superblock]
    exact hvalid
  have hvalid₂ : fs₁.afterAllocate.superblock.ValidInumber 2 := by
    rw [Superblock.ValidInumber, hstep.frame.inodes]
    exact hvalid₁
  obtain ⟨v, hbefore, hafter⟩ := hreads 2 hvalid₂
  refine ⟨_, _, closed, fs₃, hopen, hexec, hclose, hrun, hsuper, ?_⟩
  -- what the old handle would have read is what was written
  obtain ⟨answer, fs₄, hread, hanswer, -⟩ :=
    sfsFsReadInode_ensures himage₂.state hvalid₂ (by decide)
  have hv : v = { emptyTwo with size := 7 } := by
    have hsame := hbefore.post hread
    rw [hanswer, hstep.logicalInode hmounted₁.image.state.table hvalid₁] at hsame
    exact (Option.some.inj hsame).symm.trans hset
  rw [← hv]
  exact hafter

end SimpleFileSystem
