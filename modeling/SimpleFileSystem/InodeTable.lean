import SimpleFileSystem.FreeChain
import SimpleFileSystem.Library.Store
import Mathlib.Data.UInt

/-!
# The inode table behind its cache

`sfs_fs_read_inode` and `sfs_fs_write_inode` see the inode table through a write-back
cache of one block.  The table they mean is `fs.logicalInode`: an inode is in the
cached block if the cache holds its block, and on the disk otherwise.  Both functions
bring the block of the inode into the cache, which evicts another one; `cacheInodeBlock`
is that step, and `logicalInode_afterCache` says that it changes no logical inode.

The number of the cached block is kept in an `int`, so what is said about the inodes
is said about those in the first `2 ^ 31` blocks.  Which blocks of the disk are written
does not depend on that (`withInode_frame`).
-/

open ByteCodec

namespace SimpleFileSystem

variable {F : Type}

/-! ## Where an inode is -/

/-- The number of the cached block, as the code compares it. -/
def Filesystem.cachedBlock (fs : Filesystem F) : UInt64 :=
  ofCInt fs.inodeCache.blockNumber

/-- The number of the cached block is a C `int`. -/
def Filesystem.CacheInt (fs : Filesystem F) : Prop :=
  -2 ^ 31 ≤ fs.inodeCache.blockNumber ∧ fs.inodeCache.blockNumber < 2 ^ 31

/-- What a block of the inode table holds. -/
def Filesystem.tableBlock (fs : Filesystem F) (n : UInt64) : Block :=
  if fs.cachedBlock = n then fs.inodeCache.data else fs.disk.block n.toNat

/-- **The logical inode table.** -/
def Filesystem.logicalInode (fs : Filesystem F) (k : UInt64) : Inode :=
  (fs.tableBlock (inodeBlock k)).inode (inodeSlot k)

/-- The inode table of a filesystem: it has the blocks for its inodes, and they are
blocks of the disk. -/
structure Filesystem.InodeTable (fs : Filesystem F) : Prop where
  inodes_le : fs.superblock.inodes.toNat ≤ 3 * fs.superblock.inodeTableBlocks.toNat
  inDisk : fs.superblock.inodeTableBlocks < fs.superblock.blocks

/-- An inode number of the table. -/
def Superblock.ValidInumber (s : Superblock) (k : UInt64) : Prop :=
  0 < k ∧ k ≤ s.inodes

/-- A block number of the table. -/
def Superblock.InTable (s : Superblock) (n : UInt64) : Prop :=
  0 < n ∧ n ≤ s.inodeTableBlocks

section Geometry

variable {k j : UInt64}

theorem toNat_sub_one (hk : 0 < k) : (k - 1).toNat = k.toNat - 1 := by
  rw [UInt64.lt_iff_toNat_lt] at hk
  have h1 : (1 : UInt64) ≤ k := by
    rw [UInt64.le_iff_toNat_le]
    exact hk
  rw [UInt64.toNat_sub_of_le _ _ h1]
  rfl

theorem toNat_inodeBlock (hk : 0 < k) : (inodeBlock k).toNat = (k.toNat - 1) / 3 + 1 := by
  have hlt := k.toNat_lt
  rw [inodeBlock, UInt64.toNat_add, UInt64.toNat_div, toNat_sub_one hk]
  show ((k.toNat - 1) / 3 + 1) % 2 ^ 64 = (k.toNat - 1) / 3 + 1
  omega

theorem inodeBlock_ne_zero (hk : 0 < k) : inodeBlock k ≠ 0 := by
  intro e
  have h := toNat_inodeBlock hk
  rw [e] at h
  exact nomatch h

theorem inodeSlot_eq (hk : 0 < k) : inodeSlot k = (k.toNat - 1) % 3 := by
  rw [inodeSlot, UInt64.toNat_mod, toNat_sub_one hk]
  rfl

theorem inodeSlot_lt (hk : 0 < k) : inodeSlot k < 3 := by
  rw [inodeSlot_eq hk]
  exact Nat.mod_lt _ (by decide)

/-- **Distinct inode numbers never share a slot.** -/
theorem inode_place_injective (hj : 0 < j) (hk : 0 < k) (hblock : inodeBlock j = inodeBlock k)
    (hslot : inodeSlot j = inodeSlot k) : j = k := by
  have hb := congrArg UInt64.toNat hblock
  rw [toNat_inodeBlock hj, toNat_inodeBlock hk] at hb
  rw [inodeSlot_eq hj, inodeSlot_eq hk] at hslot
  rw [UInt64.lt_iff_toNat_lt] at hj hk
  have h0 : (0 : UInt64).toNat = 0 := rfl
  exact UInt64.toNat_inj.mp (by omega)

/-- The inodes of the table are in blocks of the table. -/
theorem inTable_inodeBlock {s : Superblock} (h : s.inodes.toNat ≤ 3 * s.inodeTableBlocks.toNat)
    (hk : s.ValidInumber k) : s.InTable (inodeBlock k) := by
  have hle := UInt64.le_iff_toNat_le.mp hk.2
  have hpos := UInt64.lt_iff_toNat_lt.mp hk.1
  have h0 : (0 : UInt64).toNat = 0 := rfl
  constructor
  · rw [UInt64.lt_iff_toNat_lt, toNat_inodeBlock hk.1]
    omega
  · rw [UInt64.le_iff_toNat_le, toNat_inodeBlock hk.1]
    omega

theorem Filesystem.InodeTable.inTable {fs : Filesystem F} (h : fs.InodeTable)
    (hk : fs.superblock.ValidInumber k) : fs.superblock.InTable (inodeBlock k) :=
  inTable_inodeBlock h.inodes_le hk

/-- In a table of fewer than `2 ^ 31` blocks every block number fits into an `int`. -/
theorem Filesystem.InodeTable.lt_int {fs : Filesystem F} (h : fs.InodeTable)
    (hk : fs.superblock.ValidInumber k) (hint : fs.superblock.inodeTableBlocks.toNat < 2 ^ 31) :
    (inodeBlock k).toNat < 2 ^ 31 :=
  Nat.lt_of_le_of_lt (UInt64.le_iff_toNat_le.mp (h.inTable hk).2) hint

end Geometry

/-! ## The cache -/

/-- The cache is empty and clean, or it holds a block of the table, which is the
disk's if it is clean. -/
structure Filesystem.CacheCoherent (fs : Filesystem F) : Prop where
  inTable : fs.cachedBlock = 0 ∨ fs.superblock.InTable fs.cachedBlock
  clean : fs.cachedBlock = 0 → fs.inodeCache.dirty = false
  agrees : fs.cachedBlock ≠ 0 → fs.inodeCache.dirty = false →
    fs.inodeCache.data = fs.disk.block fs.cachedBlock.toNat

/-- Between two states only the cache and the inode table on the disk changed. -/
structure TableFrame (fs fs' : Filesystem F) : Prop where
  superblock : fs'.superblock = fs.superblock
  host : fs'.host = fs.host
  files : fs'.files = fs.files
  size : fs'.disk.size = fs.disk.size
  block : ∀ m : ℕ, (∀ n, fs.superblock.InTable n → n.toNat ≠ m) →
    fs'.disk.block m = fs.disk.block m

namespace TableFrame

variable {fs fs' fs'' : Filesystem F}

theorem refl (fs : Filesystem F) : TableFrame fs fs :=
  ⟨rfl, rfl, rfl, rfl, fun _ _ => rfl⟩

theorem trans (h : TableFrame fs fs') (h' : TableFrame fs' fs'') : TableFrame fs fs'' where
  superblock := h'.superblock.trans h.superblock
  host := h'.host.trans h.host
  files := h'.files.trans h.files
  size := h'.size.trans h.size
  block m hm := (h'.block m (by rwa [h.superblock])).trans (h.block m hm)

theorem reliable (h : TableFrame fs fs') (hr : fs.Reliable) : fs'.Reliable where
  noFaults := by rw [h.host]; exact hr.noFaults
  covers := by rw [h.superblock, h.size]; exact hr.covers
  addressable := by rw [h.size]; exact hr.addressable

theorem inodeTable (h : TableFrame fs fs') (ht : fs.InodeTable) : fs'.InodeTable where
  inodes_le := by rw [h.superblock]; exact ht.inodes_le
  inDisk := by rw [h.superblock]; exact ht.inDisk

end TableFrame

/-- What the functions on inodes rely on. -/
structure InodeState (fs : Filesystem F) : Prop where
  reliable : fs.Reliable
  table : fs.InodeTable
  cache : fs.CacheCoherent

namespace InodeState

variable {fs fs' : Filesystem F}

theorem holds (h : InodeState fs) {n : UInt64} (hn : fs.superblock.InTable n) :
    fs.disk.Holds n :=
  h.reliable.holds (UInt64.lt_of_le_of_lt hn.2 h.table.inDisk)

/-- The cache is dirty only with a block of the table in it. -/
theorem inTable_of_dirty (h : InodeState fs) (hdirty : fs.inodeCache.dirty = true) :
    fs.superblock.InTable fs.cachedBlock := by
  rcases h.cache.inTable with h0 | hin
  · rw [h.cache.clean h0] at hdirty
    exact nomatch hdirty
  · exact hin

end InodeState

/-- The filesystem after `writeBack`. -/
def Filesystem.flushed (fs : Filesystem F) : Filesystem F :=
  if fs.inodeCache.dirty then fs.writeBlock fs.cachedBlock fs.inodeCache.data else fs

section Flush

variable {fs : Filesystem F}

theorem writeBack_run (h : InodeState fs) : (writeBack : Fs F ℤ).run fs = .done 0 fs.flushed := by
  rw [writeBack, Run.run_bind, Run.run_get, Run.andThen_done, Filesystem.flushed]
  cases hdirty : fs.inodeCache.dirty with
  | false => rfl
  | true =>
    have hholds : fs.disk.Holds (ofCInt fs.inodeCache.blockNumber) :=
      h.holds (h.inTable_of_dirty hdirty)
    rw [if_pos rfl, if_pos rfl, Run.run_bind, blockWrite_of_holds h.reliable.noFaults hholds,
      Run.andThen_done, if_neg (by simp), Run.run_pure]
    rfl

theorem flushed_frame (h : InodeState fs) : TableFrame fs fs.flushed := by
  rw [Filesystem.flushed]
  cases hdirty : fs.inodeCache.dirty with
  | false => exact TableFrame.refl fs
  | true =>
    have hin := h.inTable_of_dirty hdirty
    exact ⟨rfl, rfl, rfl, Filesystem.size_writeBlock _ (h.holds hin), fun m hm =>
      Filesystem.block_writeBlock_of_ne _ (h.holds hin) (hm _ hin)⟩

theorem flushed_inodeCache : fs.flushed.inodeCache = fs.inodeCache := by
  rw [Filesystem.flushed]
  split <;> rfl

/-- After the write-back the disk has every block of the table. -/
theorem flushed_block (h : InodeState fs) {n : UInt64} (hn : n ≠ 0) :
    fs.flushed.disk.block n.toNat = fs.tableBlock n := by
  rw [Filesystem.flushed, Filesystem.tableBlock]
  cases hdirty : fs.inodeCache.dirty with
  | false =>
    by_cases hcached : fs.cachedBlock = n
    · rw [if_pos hcached, h.cache.agrees (hcached ▸ hn) hdirty, hcached]
      rfl
    · rw [if_neg hcached]
      rfl
  | true =>
    by_cases hcached : fs.cachedBlock = n
    · rw [if_pos hcached, if_pos rfl, ← hcached, Filesystem.block_writeBlock]
    · rw [if_neg hcached, if_pos rfl, Filesystem.block_writeBlock_of_ne _
        (h.holds (h.inTable_of_dirty hdirty)) (toNat_ne_of_ne hcached)]

end Flush

/-- The filesystem after the eviction of the cached block and the read of another. -/
def Filesystem.recached (fs : Filesystem F) (dirty : Bool) (n : UInt64) : Filesystem F :=
  { fs.flushed with inodeCache :=
    { dirty := dirty, blockNumber := toCInt n, data := fs.flushed.disk.block n.toNat } }

section Recache

variable {fs : Filesystem F} {n : UInt64} {dirty : Bool}

theorem recached_frame (h : InodeState fs) : TableFrame fs (fs.recached dirty n) :=
  let hframe := flushed_frame h
  ⟨hframe.superblock, hframe.host, hframe.files, hframe.size, hframe.block⟩

theorem cachedBlock_recached (hint : n.toNat < 2 ^ 31) :
    (fs.recached dirty n).cachedBlock = n :=
  ofCInt_toCInt hint

theorem tableBlock_recached (h : InodeState fs) (hint : n.toNat < 2 ^ 31) {m : UInt64}
    (hm : m ≠ 0) : (fs.recached dirty n).tableBlock m = fs.tableBlock m := by
  rw [← flushed_block h hm, Filesystem.tableBlock, cachedBlock_recached hint]
  by_cases hnm : n = m
  · rw [if_pos hnm, ← hnm]
    rfl
  · rw [if_neg hnm]
    rfl

theorem inodeState_recached (h : InodeState fs) (hn : fs.superblock.InTable n)
    (hint : n.toNat < 2 ^ 31) : InodeState (fs.recached dirty n) where
  reliable := (recached_frame h).reliable h.reliable
  table := (recached_frame h).inodeTable h.table
  cache := by
    have hn0 : n ≠ 0 := fun e => by rw [e] at hn; exact UInt64.lt_irrefl 0 hn.1
    refine ⟨Or.inr ?_, fun h0 => ?_, fun _ _ => ?_⟩
    · rw [cachedBlock_recached hint, (recached_frame h).superblock]
      exact hn
    · exact absurd ((cachedBlock_recached hint).symm.trans h0) hn0
    · rw [cachedBlock_recached hint]
      rfl

end Recache

/-- The filesystem after a block has been brought into the cache. -/
def Filesystem.afterCache (fs : Filesystem F) (clearDirty : Bool) (n : UInt64) : Filesystem F :=
  if fs.cachedBlock = n then fs
  else fs.recached (if clearDirty then false else fs.inodeCache.dirty) n

section AfterCache

variable {fs : Filesystem F} {n : UInt64} {clearDirty : Bool}

theorem cacheInodeBlock_run (h : InodeState fs) (hn : fs.superblock.InTable n) :
    (cacheInodeBlock clearDirty n).run fs = .done 0 (fs.afterCache clearDirty n) := by
  by_cases hhit : ofCInt fs.inodeCache.blockNumber = n
  · rw [cacheInodeBlock, Run.run_bind, Run.run_get, Run.andThen_done, if_pos hhit, Run.run_pure,
      Filesystem.afterCache, if_pos (show fs.cachedBlock = n from hhit)]
  · have hframe := flushed_frame h
    have hholds : fs.flushed.disk.Holds n :=
      ⟨by rw [hframe.size]; exact (h.holds hn).le_size,
        by rw [hframe.size]; exact (h.holds hn).addressable⟩
    rw [cacheInodeBlock, Run.run_bind, Run.run_get, Run.andThen_done, if_neg hhit, Run.run_bind,
      writeBack_run h, Run.andThen_done, if_neg (by simp), Run.run_bind, Run.run_modify,
      Run.andThen_done, Run.run_bind, Run.run_get, Run.andThen_done, Run.run_bind,
      blockRead_of_holds (by exact (hframe.reliable h.reliable).noFaults) (by exact hholds),
      Run.andThen_done, flushed_inodeCache, Filesystem.afterCache,
      if_neg (show ¬ fs.cachedBlock = n from hhit)]
    rfl

variable (clearDirty n) in
theorem afterCache_frame (h : InodeState fs) : TableFrame fs (fs.afterCache clearDirty n) := by
  rw [Filesystem.afterCache]
  split
  · exact TableFrame.refl fs
  · exact recached_frame h

theorem inodeState_afterCache (h : InodeState fs) (hn : fs.superblock.InTable n)
    (hint : n.toNat < 2 ^ 31) : InodeState (fs.afterCache clearDirty n) := by
  rw [Filesystem.afterCache]
  split
  · exact h
  · exact inodeState_recached h hn hint

theorem cachedBlock_afterCache (hint : n.toNat < 2 ^ 31) :
    (fs.afterCache clearDirty n).cachedBlock = n := by
  rw [Filesystem.afterCache]
  split
  · assumption
  · exact cachedBlock_recached hint

/-- **Bringing a block of the table into the cache** changes no logical inode. -/
theorem logicalInode_afterCache (h : InodeState fs) (hint : n.toNat < 2 ^ 31) {j : UInt64}
    (hj : 0 < j) : (fs.afterCache clearDirty n).logicalInode j = fs.logicalInode j := by
  rw [Filesystem.afterCache]
  split
  · rfl
  · rw [Filesystem.logicalInode, tableBlock_recached h hint (inodeBlock_ne_zero hj),
      Filesystem.logicalInode]

end AfterCache

/-! ## Reading and writing an inode -/

/-- What `sfs_fs_read_inode` does: it answers the logical inode and changes none. -/
def ReadInodePost (fs : Filesystem F) (k : UInt64) (answer : Option Inode)
    (fs' : Filesystem F) : Prop :=
  answer = some (fs.logicalInode k) ∧ InodeState fs' ∧ TableFrame fs fs' ∧
    ∀ j, 0 < j → fs'.logicalInode j = fs.logicalInode j

/-- What `sfs_fs_write_inode` does: it sets one logical inode. -/
def WriteInodePost (fs : Filesystem F) (v : Inode) (ret : ℤ) (fs' : Filesystem F) : Prop :=
  ret = 0 ∧ InodeState fs' ∧ TableFrame fs fs' ∧ fs'.logicalInode v.inumber = v ∧
    ∀ j, 0 < j → j ≠ v.inumber → fs'.logicalInode j = fs.logicalInode j

section Inodes

variable {fs : Filesystem F}

theorem sfsFsReadInode_run (h : InodeState fs) {k : UInt64} (hk : fs.superblock.ValidInumber k) :
    (sfsFsReadInode k).run fs =
      .done (some ((fs.afterCache true (inodeBlock k)).inodeCache.data.inode (inodeSlot k)))
        (fs.afterCache true (inodeBlock k)) := by
  rw [sfsFsReadInode, decide_eq_true hk.1, Run.assert_true, Run.pure_bind', Run.run_bind,
    cacheInodeBlock_run h (h.table.inTable hk), Run.andThen_done, if_neg (by simp), Run.run_bind,
    Run.run_get, Run.andThen_done, Run.run_pure]

theorem sfsFsReadInode_ensures (h : InodeState fs) {k : UInt64}
    (hk : fs.superblock.ValidInumber k) (hint : (inodeBlock k).toNat < 2 ^ 31) :
    Run.Ensures (sfsFsReadInode k) fs (ReadInodePost fs k) := by
  refine ⟨some (fs.logicalInode k), fs.afterCache true (inodeBlock k), ?_, rfl,
    inodeState_afterCache h (h.table.inTable hk) hint, afterCache_frame _ _ h,
    fun j hj => logicalInode_afterCache h hint hj⟩
  rw [sfsFsReadInode_run h hk, ← logicalInode_afterCache h hint hk.1, Filesystem.logicalInode,
    Filesystem.tableBlock, if_pos (cachedBlock_afterCache hint)]

/-- The filesystem after the assignment to the cached block. -/
def Filesystem.setCachedInode (fs : Filesystem F) (v : Inode) : Filesystem F :=
  { fs with inodeCache := { fs.inodeCache with
    dirty := true
    data := Block.setInode fs.inodeCache.data (inodeSlot v.inumber) v } }

theorem inodeState_setCachedInode {v : Inode} (h : InodeState fs) (hcached : fs.cachedBlock ≠ 0) :
    InodeState (fs.setCachedInode v) where
  reliable := ⟨h.reliable.noFaults, h.reliable.covers, h.reliable.addressable⟩
  table := ⟨h.table.inodes_le, h.table.inDisk⟩
  cache := ⟨h.cache.inTable, fun h0 => absurd h0 hcached, fun _ hdirty => nomatch hdirty⟩

/-- **The assignment sets one logical inode.** -/
theorem logicalInode_setCachedInode {v : Inode} (hv : 0 < v.inumber)
    (hcached : fs.cachedBlock = inodeBlock v.inumber) {j : UInt64} (hj : 0 < j) :
    (fs.setCachedInode v).logicalInode j =
      Function.update fs.logicalInode v.inumber v j := by
  have hsame : (fs.setCachedInode v).cachedBlock = fs.cachedBlock := rfl
  rw [Filesystem.logicalInode, Filesystem.tableBlock, hsame, hcached]
  by_cases hblock : inodeBlock v.inumber = inodeBlock j
  · rw [if_pos hblock]
    show (Block.setInode fs.inodeCache.data (inodeSlot v.inumber) v).inode (inodeSlot j) = _
    by_cases hslot : inodeSlot v.inumber = inodeSlot j
    · have hjv := inode_place_injective hv hj hblock hslot
      rw [← hjv, Block.inode_setInode _ _ (inodeSlot_lt hv), Function.update_self]
    · have hjv : j ≠ v.inumber := by
        rintro rfl
        exact hslot rfl
      rw [Block.inode_setInode_of_ne _ _ hslot, Function.update_of_ne hjv,
        Filesystem.logicalInode, Filesystem.tableBlock, if_pos (hcached.trans hblock)]
  · have hjv : j ≠ v.inumber := by
      rintro rfl
      exact hblock rfl
    rw [if_neg hblock, Function.update_of_ne hjv, Filesystem.logicalInode, Filesystem.tableBlock,
      if_neg (hcached ▸ hblock)]
    rfl

/-- The filesystem after `sfs_fs_write_inode`. -/
def Filesystem.withInode (fs : Filesystem F) (v : Inode) : Filesystem F :=
  (fs.afterCache false (inodeBlock v.inumber)).setCachedInode v

theorem withInode_frame (h : InodeState fs) (v : Inode) : TableFrame fs (fs.withInode v) := by
  have hframe := afterCache_frame (inodeBlock v.inumber) false h
  exact ⟨hframe.superblock, hframe.host, hframe.files, hframe.size, hframe.block⟩

/-- What a write of an inode that is not in the cache makes of the inodes, whatever the size of
the table: the block is in the cache now, under another number if its own is a large one. -/
theorem logicalInode_withInode (h : InodeState fs) {v : Inode} (hv : 0 < v.inumber)
    (hmiss : fs.cachedBlock ≠ inodeBlock v.inumber) {k : UInt64} (hk : 0 < k) :
    (fs.withInode v).logicalInode k =
      if ofCInt (toCInt (inodeBlock v.inumber)) = inodeBlock k then
        ((fs.tableBlock (inodeBlock v.inumber)).setInode (inodeSlot v.inumber) v).inode
          (inodeSlot k)
      else fs.logicalInode k := by
  rw [Filesystem.withInode, Filesystem.afterCache, if_neg hmiss, Filesystem.logicalInode,
    Filesystem.tableBlock]
  show Block.inode (if ofCInt (toCInt (inodeBlock v.inumber)) = inodeBlock k then
    Block.setInode (fs.flushed.disk.block (inodeBlock v.inumber).toNat)
      (inodeSlot v.inumber) v else fs.flushed.disk.block (inodeBlock k).toNat)
        (inodeSlot k) = _
  rw [flushed_block h (inodeBlock_ne_zero hv), flushed_block h (inodeBlock_ne_zero hk),
    Filesystem.logicalInode]
  split <;> rfl

theorem sfsFsWriteInode_run (h : InodeState fs) {v : Inode}
    (hv : fs.superblock.ValidInumber v.inumber) :
    (sfsFsWriteInode v).run fs = .done 0 (fs.withInode v) := by
  rw [sfsFsWriteInode, decide_eq_true hv.1, Run.assert_true, Run.pure_bind', Run.run_bind,
    cacheInodeBlock_run h (h.table.inTable hv), Run.andThen_done, if_neg (by simp), Run.run_bind,
    Run.run_modify, Run.andThen_done, Run.run_pure]
  rfl

theorem sfsFsWriteInode_ensures (h : InodeState fs) {v : Inode}
    (hv : fs.superblock.ValidInumber v.inumber) (hint : (inodeBlock v.inumber).toNat < 2 ^ 31) :
    Run.Ensures (sfsFsWriteInode v) fs (WriteInodePost fs v) := by
  have hcached : (fs.afterCache false (inodeBlock v.inumber)).cachedBlock =
    inodeBlock v.inumber := cachedBlock_afterCache hint
  refine Run.Ensures.of_eq (sfsFsWriteInode_run h hv) ⟨rfl, ?_, withInode_frame h v, ?_, ?_⟩
  · refine inodeState_setCachedInode (inodeState_afterCache h (h.table.inTable hv) hint) ?_
    rw [hcached]
    exact inodeBlock_ne_zero hv.1
  · rw [Filesystem.withInode, logicalInode_setCachedInode hv.1 hcached hv.1, Function.update_self]
  · intro j hj hjv
    rw [Filesystem.withInode, logicalInode_setCachedInode hv.1 hcached hj,
      Function.update_of_ne hjv, logicalInode_afterCache h hint hj]

end Inodes

/-! ## The cache is transparent -/

/-- A call of one of the two functions, with its answer. -/
inductive InodeCall : Filesystem F → StoreEvent UInt64 Inode → Filesystem F → Prop where
  | read {fs fs' : Filesystem F} {k : UInt64} {v : Inode} (valid : fs.superblock.ValidInumber k)
      (run : (sfsFsReadInode k).run fs = .done (some v) fs') : InodeCall fs (.get k v) fs'
  | write {fs fs' : Filesystem F} {v : Inode} {ret : ℤ}
      (valid : fs.superblock.ValidInumber v.inumber)
      (run : (sfsFsWriteInode v).run fs = .done ret fs') :
      InodeCall fs (.set v.inumber v) fs'

/-- A table of inodes that has the logical inodes of a filesystem. -/
def Filesystem.HasTable (fs : Filesystem F) (table : UInt64 → Inode) : Prop :=
  ∀ k, fs.superblock.ValidInumber k → fs.logicalInode k = table k

/-- **One call is one step of a store.** -/
theorem inodeCall_refines {fs fs' : Filesystem F} {e : StoreEvent UInt64 Inode}
    {table : UInt64 → Inode} (h : InodeState fs)
    (hint : fs.superblock.inodeTableBlocks.toNat < 2 ^ 31) (htable : fs.HasTable table)
    (hcall : InodeCall fs e fs') :
    InodeState fs' ∧ TableFrame fs fs' ∧
      ∃ table', StoreStep table e table' ∧ fs'.HasTable table' := by
  cases hcall with
  | @read _ k v valid run =>
    obtain ⟨hv, hstate, hframe, hsame⟩ := (sfsFsReadInode_ensures h valid
      (h.table.lt_int valid hint)).post run
    refine ⟨hstate, hframe, table, ?_, fun j hj => ?_⟩
    · rw [Option.some.inj hv, htable k valid]
      exact StoreStep.get table k
    · rw [hframe.superblock] at hj
      rw [hsame j hj.1, htable j hj]
  | @write _ v ret valid run =>
    obtain ⟨-, hstate, hframe, hset, hsame⟩ := (sfsFsWriteInode_ensures h valid
      (h.table.lt_int valid hint)).post run
    refine ⟨hstate, hframe, _, StoreStep.set table v.inumber v, fun j hj => ?_⟩
    rw [hframe.superblock] at hj
    by_cases hjv : j = v.inumber
    · rw [hjv, hset, Function.update_self]
    · rw [hsame j hj.1 hjv, Function.update_of_ne hjv, htable j hj]

/-- **The inode cache is transparent.**  The answers of any calls of the two functions
are those of a store that starts out as the logical table, and the logical table ends
up as that store; the next read returns the logical inode and changes none, the next
write sets that inode and no other; two inode numbers never share a slot; and of the
disk only blocks of the inode table are written. -/
theorem inode_cache_is_transparent {fs fs' : Filesystem F} {tr : List (StoreEvent UInt64 Inode)}
    (h : InodeState fs) (hint : fs.superblock.inodeTableBlocks.toNat < 2 ^ 31)
    (hexec : Exec InodeCall fs tr fs') :
    (∃ table, Exec StoreStep fs.logicalInode tr table ∧ fs'.HasTable table) ∧
    TableFrame fs fs' ∧
    (∀ k, fs'.superblock.ValidInumber k →
      Run.Ensures (sfsFsReadInode k) fs' (ReadInodePost fs' k)) ∧
    (∀ v : Inode, fs'.superblock.ValidInumber v.inumber →
      Run.Ensures (sfsFsWriteInode v) fs' (WriteInodePost fs' v)) ∧
    ∀ j k, fs'.superblock.ValidInumber j → fs'.superblock.ValidInumber k → j ≠ k →
      (inodeBlock j, inodeSlot j) ≠ (inodeBlock k, inodeSlot k) := by
  obtain ⟨table, hstore, hstate, hframe, htable⟩ := hexec.simulate
    (R := fun t table => InodeState t ∧ TableFrame fs t ∧ t.HasTable table)
    (by
      rintro s e t table ⟨hs, hframe, htable⟩ hcall
      obtain ⟨ht, hframe', table', hstep, htable'⟩ :=
        inodeCall_refines hs (by rw [hframe.superblock]; exact hint) htable hcall
      exact ⟨table', hstep, ht, hframe.trans hframe', htable'⟩)
    ⟨h, TableFrame.refl fs, fun _ _ => rfl⟩
  have hint' : fs'.superblock.inodeTableBlocks.toNat < 2 ^ 31 := by
    rw [hframe.superblock]
    exact hint
  refine ⟨⟨table, hstore, htable⟩, hframe,
    fun k hk => sfsFsReadInode_ensures hstate hk (hstate.table.lt_int hk hint'),
    fun v hv => sfsFsWriteInode_ensures hstate hv (hstate.table.lt_int hv hint'),
      fun j k hj hk hne e => hne ?_⟩
  exact inode_place_injective hj.1 hk.1 (congrArg Prod.fst e) (congrArg Prod.snd e)

theorem inodeState_oneFreeBlock {files : F} :
    InodeState (Filesystem.blank oneFreeBlock files) where
  reliable := reliable_blank (by decide) (by decide)
  table := by
    have hle : oneFreeBlock.inodes.toNat ≤ 3 * oneFreeBlock.inodeTableBlocks.toNat := by decide
    have hlt : oneFreeBlock.inodeTableBlocks < oneFreeBlock.blocks := by decide
    exact ⟨hle, hlt⟩
  cache := ⟨Or.inl rfl, fun _ => rfl, fun h => absurd rfl h⟩

/-- The superblock of a small disk with a table of two blocks. -/
def twoTableBlocks : Superblock :=
  { oneFreeBlock with inodeTableBlocks := 2, inodes := 6 }

theorem inodeState_twoTableBlocks : InodeState (Filesystem.blank twoTableBlocks ()) where
  reliable := reliable_blank (by decide) (by decide)
  table := by
    have hle : twoTableBlocks.inodes.toNat ≤ 3 * twoTableBlocks.inodeTableBlocks.toNat := by decide
    have hlt : twoTableBlocks.inodeTableBlocks < twoTableBlocks.blocks := by decide
    exact ⟨hle, hlt⟩
  cache := ⟨Or.inl rfl, fun _ => rfl, fun h => absurd rfl h⟩

/-- An inode is written, one in the other block is read, and the first is read again: it is
what was written. -/
theorem inode_cache_is_transparent_twoTableBlocks :
    ∃ (fs' : Filesystem Unit) (u : Inode),
      Exec InodeCall (Filesystem.blank twoTableBlocks ())
        [.set 2 { emptyTwo with size := 7 }, .get 5 u, .get 2 { emptyTwo with size := 7 }] fs' ∧
      TableFrame (Filesystem.blank twoTableBlocks ()) fs' := by
  have hstart := inodeState_twoTableBlocks
  have hvalid : ∀ k ∈ ([2, 5] : List UInt64), twoTableBlocks.ValidInumber k := by
    intro k hk
    simp only [List.mem_cons, List.not_mem_nil, or_false] at hk
    obtain rfl | rfl := hk <;> constructor <;> decide
  obtain ⟨ret, fs₁, hwrite, -, hstate₁, hframe₁, -⟩ := sfsFsWriteInode_ensures
    (v := { emptyTwo with size := 7 }) hstart (hvalid 2 (by decide)) (by decide)
  have hvalid₁ : ∀ k ∈ ([2, 5] : List UInt64), fs₁.superblock.ValidInumber k := fun k hk => by
    rw [hframe₁.superblock]
    exact hvalid k hk
  obtain ⟨_, fs₂, hread, rfl, hstate₂, hframe₂, -⟩ :=
    sfsFsReadInode_ensures hstate₁ (hvalid₁ 5 (by decide)) (by decide)
  have hvalid₂ : fs₂.superblock.ValidInumber 2 := by
    rw [hframe₂.superblock]
    exact hvalid₁ 2 (by decide)
  obtain ⟨_, fs₃, hagain, rfl, -⟩ := sfsFsReadInode_ensures hstate₂ hvalid₂ (by decide)
  have hexec := Exec.cons (InodeCall.write (hvalid 2 (by decide)) hwrite)
    (.cons (InodeCall.read (hvalid₁ 5 (by decide)) hread)
      (.cons (InodeCall.read hvalid₂ hagain) (.nil fs₃)))
  obtain ⟨⟨table, hstore, -⟩, hframe, -⟩ :=
    inode_cache_is_transparent hstart (by decide) hexec
  -- what the second read answers, by the store
  have hlast : fs₂.logicalInode 2 = { emptyTwo with size := 7 } :=
    StoreStep.get_after_set (show Exec StoreStep _ ([] ++ .set 2 { emptyTwo with size := 7 } ::
      ([.get 5 _] ++ .get 2 _ :: [])) table from hstore) (by simp)
  rw [hlast] at hexec
  exact ⟨fs₃, _, hexec, hframe⟩

end SimpleFileSystem
