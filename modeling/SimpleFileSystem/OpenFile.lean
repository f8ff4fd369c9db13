import SimpleFileSystem.CacheFaults
import SimpleFileSystem.Locking

/-!
# What `sfs_read` and `sfs_write` do before their loops

Both look the handle up, read the inode of the file, and write it back with a new access
time.  `OpenFile` is a handle for which they find an inode, on a host whose calls may
fail, and `sfsRead_cases` and `sfsWrite_cases` say that then either such a call failed
and the request returns -1, or the loop runs with that inode.

The inode is read into the cache and written to it right after, so the second access is
a hit, if the number of the block fits into the `int` that the cache keeps it in.
Otherwise it is a second miss, and the inode is written to a block under another number:
`logicalInode_touched` is both cases.
-/

open ByteCodec

namespace SimpleFileSystem

variable {F : Type}

/-! ## The cache on any host -/

/-- The filesystem on another host. -/
def Filesystem.onHost (fs : Filesystem F) (host : Host) : Filesystem F :=
  { fs with host := host }

section OnHost

variable {fs : Filesystem F} {host : Host} {n : UInt64} {clearDirty : Bool}

@[simp] theorem onHost_superblock : (fs.onHost host).superblock = fs.superblock := rfl

@[simp] theorem onHost_disk : (fs.onHost host).disk = fs.disk := rfl

@[simp] theorem onHost_inodeCache : (fs.onHost host).inodeCache = fs.inodeCache := rfl

@[simp] theorem onHost_files : (fs.onHost host).files = fs.files := rfl

@[simp] theorem onHost_host : (fs.onHost host).host = host := rfl

@[simp] theorem onHost_cachedBlock : (fs.onHost host).cachedBlock = fs.cachedBlock := rfl

@[simp] theorem onHost_logicalInode (k : UInt64) :
    (fs.onHost host).logicalInode k = fs.logicalInode k := rfl

@[simp] theorem onHost_onHost (host' : Host) :
    (fs.onHost host).onHost host' = fs.onHost host' := rfl

@[simp] theorem onHost_self : fs.onHost fs.host = fs := rfl

theorem flushed_onHost : (fs.onHost host).flushed = fs.flushed.onHost host := by
  rw [Filesystem.flushed, Filesystem.flushed, onHost_inodeCache]
  split <;> rfl

theorem afterCache_onHost :
    (fs.onHost host).afterCache clearDirty n = (fs.afterCache clearDirty n).onHost host := by
  rw [Filesystem.afterCache, Filesystem.afterCache, onHost_cachedBlock]
  split
  · rfl
  · rw [Filesystem.recached, flushed_onHost]
    rfl

theorem Host.NoFaults.shift {host : Host} (h : host.NoFaults) :
    Host.NoFaults { host with faults := fun i => host.faults (i + 1) } :=
  fun i => h (i + 1)

/-- **The write-back** is one of the whole block, or it failed. -/
theorem flush_cases (hd : fs.inodeCache.dirty = true → fs.disk.Holds fs.cachedBlock) :
    (¬ fs.host.NoFaults ∧ fs.flush.1 ≠ 512) ∨
      ∃ host, (fs.host.NoFaults → host.NoFaults) ∧ fs.flush = (512, fs.flushed.onHost host) := by
  cases hdirty : fs.inodeCache.dirty with
  | false =>
    refine Or.inr ⟨fs.host, id, ?_⟩
    rw [flush_of_clean hdirty, Filesystem.flushed, hdirty]
    rfl
  | true =>
    have hflush : fs.flush = ((fs.disk.pwrite (fs.host.faults 0) (fs.cachedBlock * 512)
        fs.inodeCache.data).1, { fs.called with disk :=
          (fs.disk.pwrite (fs.host.faults 0) (fs.cachedBlock * 512) fs.inodeCache.data).2 }) := by
      rw [Filesystem.flush, hdirty]
      rfl
    have hnone := Disk.pwrite_none (hd hdirty) fs.inodeCache.data
    by_cases hfull : fs.flush.1 = 512
    · refine Or.inr ⟨fs.called.host, Host.NoFaults.shift, ?_⟩
      rw [hflush] at hfull ⊢
      rw [Disk.pwrite_of_full hfull, hnone, Filesystem.flushed, hdirty]
      rfl
    · refine Or.inl ⟨fun hquiet => hfull ?_, hfull⟩
      rw [hflush, hquiet 0, hnone]

variable (fs clearDirty) in
/-- **The access of a block of the table** brings it into the cache, or a call failed. -/
theorem cacheInodeBlock_cases (hn : fs.disk.Holds n)
    (hd : fs.inodeCache.dirty = true → fs.disk.Holds fs.cachedBlock) :
    (¬ fs.host.NoFaults ∧ ∃ fs', (cacheInodeBlock clearDirty n).run fs = .done (-1) fs') ∨
      ∃ host, (fs.host.NoFaults → host.NoFaults) ∧ (cacheInodeBlock clearDirty n).run fs =
        .done 0 ((fs.afterCache clearDirty n).onHost host) := by
  by_cases hhit : fs.cachedBlock = n
  · refine Or.inr ⟨fs.host, id, ?_⟩
    rw [cacheInodeBlock_of_hit hhit, Filesystem.afterCache, if_pos hhit]
    rfl
  · obtain ⟨hfaults, hstuck⟩ | ⟨host, hquiet, hflush⟩ := flush_cases hd
    · exact Or.inl ⟨hfaults, _, cacheInodeBlock_of_stuck hhit hstuck⟩
    · have hrun : (cacheInodeBlock clearDirty n).run fs = _ :=
        cacheInodeBlock_of_miss hhit (congrArg Prod.fst hflush)
      have hheld : (fs.flushed.onHost host).disk.Holds n := by
        rw [onHost_disk, Filesystem.flushed]
        split
        · next hdirty => exact hn.setBlock _ (hd hdirty).le_size
        · exact hn
      rw [hflush] at hrun
      dsimp only at hrun
      by_cases hfull : ((fs.flushed.onHost host).load n).1 = 512
      · refine Or.inr ⟨(fs.flushed.onHost host).called.host, fun h => (hquiet h).shift, ?_⟩
        have hdata : ((fs.flushed.onHost host).load n).2 = fs.flushed.disk.block n.toNat := by
          have hpos : ¬ ((fs.flushed.onHost host).load n).1 ≤ 0 := by
            rw [hfull]
            decide
          exact (if_neg hpos).trans (Disk.pread_of_full hheld hfull)
        rw [hrun, if_pos hfull, Filesystem.afterCache, if_neg hhit, Filesystem.reloaded, hdata]
        rfl
      · refine Or.inl ⟨fun h => hfull ?_, _, by rw [hrun, if_neg hfull]⟩
        have hnone : (fs.flushed.onHost host).host.faults 0 = .none := hquiet h 0
        rw [Filesystem.load, hnone, Disk.pread_none hheld]

end OnHost

/-! ## An inode that is read and written -/

/-- The filesystem after the inode `k` has been read and `v` has been written. -/
def Filesystem.touched (fs : Filesystem F) (k : UInt64) (v : Inode) : Filesystem F :=
  (fs.afterCache true (inodeBlock k)).withInode v

section Touched

variable {fs : Filesystem F} {k : UInt64} {v : Inode}

/-- A coherent handle, on a host on which nothing fails. -/
theorem CoherentHandle.quiet (h : CoherentHandle fs) : InodeState (fs.onHost Host.quiet) where
  reliable := ⟨fun _ => rfl, h.covers, h.addressable⟩
  table := ⟨h.table.inodes_le, h.table.inDisk⟩
  cache := ⟨h.cache.inTable, h.cache.clean, h.cache.agrees⟩

theorem CoherentHandle.holds_of_dirty (h : CoherentHandle fs)
    (hdirty : fs.inodeCache.dirty = true) : fs.disk.Holds fs.cachedBlock :=
  h.quiet.holds (h.quiet.inTable_of_dirty hdirty)

/-- The cached data are those of the block that was asked for. -/
theorem data_afterCache (h : CoherentHandle fs) {n : UInt64} (hn : n ≠ 0) (clearDirty : Bool) :
    (fs.afterCache clearDirty n).inodeCache.data = fs.tableBlock n := by
  rw [Filesystem.afterCache]
  split
  · next hhit => exact (if_pos hhit).symm
  · have hblock := flushed_block h.quiet hn
    rw [flushed_onHost] at hblock
    exact hblock

theorem frame_afterCache (h : CoherentHandle fs) (clearDirty : Bool) (n : UInt64) :
    TableFrame fs (fs.afterCache clearDirty n) := by
  have hframe := afterCache_frame n clearDirty h.quiet
  rw [afterCache_onHost] at hframe
  refine ⟨hframe.superblock, ?_, hframe.files, hframe.size, hframe.block⟩
  rw [Filesystem.afterCache]
  split
  · rfl
  · show fs.flushed.host = fs.host
    rw [Filesystem.flushed]
    split <;> rfl

/-- **`sfs_fs_read_inode`** answers the logical inode, or a call failed. -/
theorem sfsFsReadInode_cases (h : CoherentHandle fs) (hk : fs.superblock.ValidInumber k) :
    (¬ fs.host.NoFaults ∧ ∃ fs', (sfsFsReadInode k).run fs = .done none fs') ∨
      ∃ host, (fs.host.NoFaults → host.NoFaults) ∧ (sfsFsReadInode k).run fs =
        .done (some (fs.logicalInode k)) ((fs.afterCache true (inodeBlock k)).onHost host) := by
  have hunfold : (sfsFsReadInode k).run fs = (do
      if (← cacheInodeBlock true (inodeBlock k)) ≠ 0 then return none
      let fs ← get
      return some (Block.inode fs.inodeCache.data (inodeSlot k)) : Fs F (Option Inode)).run fs := by
    rw [sfsFsReadInode, decide_eq_true hk.1, Run.assert_true, Run.pure_bind']
  rw [hunfold]
  obtain ⟨hfaults, fs', hrun⟩ | ⟨host, hquiet, hrun⟩ := cacheInodeBlock_cases fs true
    (h.holds (h.table.inTable hk)) h.holds_of_dirty
  · refine Or.inl ⟨hfaults, fs', ?_⟩
    rw [Run.run_bind, hrun, Run.andThen_done, if_pos (by simp), Run.run_pure]
  · refine Or.inr ⟨host, hquiet, ?_⟩
    rw [Run.run_bind, hrun, Run.andThen_done, if_neg (by simp), Run.run_bind, Run.run_get,
      Run.andThen_done, Run.run_pure, onHost_inodeCache,
      data_afterCache h (inodeBlock_ne_zero hk.1)]
    rfl

/-- **`sfs_fs_write_inode`** of the inode that was read last, or a call failed. -/
theorem sfsFsWriteInode_cases (h : CoherentHandle fs) (hk : fs.superblock.ValidInumber k)
    (hv : v.inumber = k) (host : Host) :
    (¬ host.NoFaults ∧ ∃ fs', (sfsFsWriteInode v).run
        ((fs.afterCache true (inodeBlock k)).onHost host) = .done (-1) fs') ∨
      ∃ host', (host.NoFaults → host'.NoFaults) ∧ (sfsFsWriteInode v).run
        ((fs.afterCache true (inodeBlock k)).onHost host) =
          .done 0 ((fs.touched k v).onHost host') := by
  have hframe := frame_afterCache h true (inodeBlock k)
  have hheld : ∀ {n}, fs.disk.Holds n →
      (fs.afterCache true (inodeBlock k)).disk.Holds n := fun hn =>
    ⟨by rw [hframe.size]; exact hn.le_size, by rw [hframe.size]; exact hn.addressable⟩
  have hdirty : (fs.afterCache true (inodeBlock k)).inodeCache.dirty = true →
      (fs.afterCache true (inodeBlock k)).disk.Holds
        (fs.afterCache true (inodeBlock k)).cachedBlock := by
    intro hd
    by_cases hhit : fs.cachedBlock = inodeBlock k
    · rw [Filesystem.afterCache, if_pos hhit] at hd ⊢
      exact h.holds_of_dirty hd
    · rw [Filesystem.afterCache, if_neg hhit] at hd
      exact absurd hd (by show ¬ false = true; decide)
  obtain ⟨hfaults, fs', hrun⟩ | ⟨host', hquiet, hrun⟩ := cacheInodeBlock_cases
    ((fs.afterCache true (inodeBlock k)).onHost host) false
      (hheld (h.holds (h.table.inTable hk))) hdirty
  · refine Or.inl ⟨hfaults, fs', ?_⟩
    rw [sfsFsWriteInode, hv, decide_eq_true hk.1, Run.assert_true, Run.pure_bind', Run.run_bind,
      hrun, Run.andThen_done, if_pos (by simp), Run.run_pure]
  · refine Or.inr ⟨host', hquiet, ?_⟩
    rw [sfsFsWriteInode, hv, decide_eq_true hk.1, Run.assert_true, Run.pure_bind', Run.run_bind,
      hrun, Run.andThen_done, if_neg (by simp), Run.run_bind, Run.run_modify, Run.andThen_done,
      Run.run_pure, Filesystem.touched, Filesystem.withInode, hv, afterCache_onHost]
    rw [Filesystem.setCachedInode, hv]
    rfl

theorem frame_touched (h : CoherentHandle fs) (k : UInt64) (v : Inode) :
    TableFrame fs (fs.touched k v) := by
  have hframe := frame_afterCache h true (inodeBlock k)
  have hwrite : TableFrame fs ((fs.afterCache true (inodeBlock k)).afterCache false
      (inodeBlock v.inumber)) := by
    by_cases hhit : fs.cachedBlock = inodeBlock k
    · rw [show fs.afterCache true (inodeBlock k) = fs from if_pos hhit]
      exact frame_afterCache h false _
    · have hclean : (fs.afterCache true (inodeBlock k)).flushed =
          fs.afterCache true (inodeBlock k) := by
        rw [Filesystem.afterCache, if_neg hhit]
        rfl
      have hsecond : TableFrame (fs.afterCache true (inodeBlock k))
          ((fs.afterCache true (inodeBlock k)).afterCache false (inodeBlock v.inumber)) := by
        generalize fs.afterCache true (inodeBlock k) = fs₁ at hclean
        rw [Filesystem.afterCache]
        split
        · exact TableFrame.refl fs₁
        · rw [Filesystem.recached, hclean]
          exact ⟨rfl, rfl, rfl, rfl, fun _ _ => rfl⟩
      exact hframe.trans hsecond
  exact ⟨hwrite.superblock, hwrite.host, hwrite.files, hwrite.size, hwrite.block⟩

/-- **The inode afterwards** is the one that was written, if the number of its block fits
into an `int`. -/
theorem logicalInode_touched (h : CoherentHandle fs) (hcache : fs.CacheInt)
    (hk : fs.superblock.ValidInumber k) (hv : v.inumber = k) :
    (fs.touched k v).logicalInode k =
      if (inodeBlock k).toNat < 2 ^ 31 then v else fs.logicalInode k := by
  have hheld := h.holds (h.table.inTable hk)
  split
  · next hint =>
    have hcached : ((fs.afterCache true (inodeBlock k)).afterCache false
        (inodeBlock v.inumber)).cachedBlock = inodeBlock v.inumber := by
      rw [hv]
      exact cachedBlock_afterCache hint
    rw [Filesystem.touched, Filesystem.withInode,
      logicalInode_setCachedInode (by rw [hv]; exact hk.1) hcached hk.1, hv,
      Function.update_self]
  · next hint =>
    have hmiss : fs.cachedBlock ≠ inodeBlock k := ofCInt_ne hcache hheld hint
    have hmiss' : ofCInt (toCInt (inodeBlock k)) ≠ inodeBlock k :=
      ofCInt_ne (toCInt_bounds _) hheld hint
    have hread : fs.afterCache true (inodeBlock k) = fs.recached false (inodeBlock k) := by
      rw [Filesystem.afterCache, if_neg hmiss]
      rfl
    have hwrite : (fs.recached false (inodeBlock k)).afterCache false (inodeBlock k) =
        (fs.recached false (inodeBlock k)).recached false (inodeBlock k) :=
      if_neg hmiss'
    have hblock := flushed_block h.quiet (inodeBlock_ne_zero hk.1)
    rw [flushed_onHost] at hblock
    rw [Filesystem.touched, hread, Filesystem.withInode, hv, hwrite, Filesystem.logicalInode,
      Filesystem.tableBlock, if_neg (by exact hmiss'), Filesystem.logicalInode]
    exact congrArg (fun b => Block.inode b (inodeSlot k)) hblock

end Touched

/-! ## Open files -/

/-- `fh` is a handle of the file with the inode number `k`, and no request is running. -/
structure OpenFile (s : SfsState F) (fh k : UInt64) : Prop where
  idle : ¬ s.Locked
  nonneg : 0 ≤ toCInt fh
  slab : (toCInt fh).toNat / slotsPerSlab < s.fdPool.slabs.length
  slot : (s.fdPool.slot (toCInt fh).toNat).inumber = k
  handle : CoherentHandle s.fs
  cacheInt : s.fs.CacheInt
  valid : s.fs.superblock.ValidInumber k
  inumber : (s.fs.logicalInode k).inumber = k

/-- The state in the loops: the mutex is held, and the inode of the file has been read and
written. -/
def SfsState.begun (s : SfsState F) (k : UInt64) (v : Inode) (host : Host) : SfsState F :=
  { s with mu := .lock :: s.mu, fs := (s.fs.touched k v).onHost host }

section Requests

variable {L : InodeLayer F} {s : SfsState F} {fh k : UInt64} {memory : Memory} {tmpBlock : Block}
  {size : UInt64} {offset : ℤ}

theorem OpenFile.getFromFd_run (h : OpenFile s fh k) (mu : List MutexCall) (fs : Filesystem F) :
    (sfsFiledescriptorGetFromFd (toCInt fh)).run { s with mu := mu, fs := fs } =
      .done (some (toCInt fh).toNat) { s with mu := mu, fs := fs } := by
  rw [sfsFiledescriptorGetFromFd, decide_eq_true h.nonneg, Run.assert_true, Run.pure_bind',
    Run.run_bind, Run.run_get, Run.andThen_done, if_pos h.slab, Run.run_pure]

/-- What `sfs_read` does after the inode has been written. -/
def readBlocks (L : InodeLayer F) (memory : Memory) (tmpBlock : Block) (size : UInt64) (offset : ℤ)
    (inode : Inode) : Sfs F (ℤ × Memory) := do
  let r := blockRange offset size
  let (ok, memory) ← onFs
    (Run.loop (readStep L inode r) loopBound (r.firstBlock, memory, tmpBlock))
  unlock
  return (if ok then toCInt size else -1, memory)

/-- What `sfs_write` does after the inode has been written. -/
def writeBlocks (L : InodeLayer F) (memory : Memory) (tmpBlock : Block) (size : UInt64)
    (offset : ℤ) (inode : Inode) : Sfs F ℤ := do
  let r := blockRange offset size
  let ok ← onFs (Run.loop (writeStep L memory r) loopBound (r.firstBlock, inode, tmpBlock))
  unlock
  return if ok then toCInt size else -1

/-- The inode that `sfs_read` writes. -/
def accessed (v : Inode) (now : UInt64) : Inode :=
  { v with accessTime := now }

/-- The filesystem after the inode of a file has been read, and the clock then. -/
def SfsState.looked (s : SfsState F) (k : UInt64) (host : Host) : SfsState F :=
  { s with mu := .lock :: s.mu, fs := (s.fs.afterCache true (inodeBlock k)).onHost host }

theorem onFs_time_run (k : UInt64) (host : Host) :
    (onFs time).run (s.looked k host) = .done (host.clock 0)
      (s.looked k { host with clock := fun i => host.clock (i + 1) }) := rfl

/-- **The inode of an open file** is read, or a call failed. -/
theorem OpenFile.readInode_cases (h : OpenFile s fh k) :
    (¬ s.fs.host.NoFaults ∧ ∃ fs', (onFs (sfsFsReadInode k)).run { s with mu := .lock :: s.mu } =
        .done none { s with mu := .lock :: s.mu, fs := fs' }) ∨
      ∃ host, (s.fs.host.NoFaults → host.NoFaults) ∧
        (onFs (sfsFsReadInode k)).run { s with mu := .lock :: s.mu } =
          .done (some (s.fs.logicalInode k)) (s.looked k host) := by
  obtain ⟨hfaults, fs', hrun⟩ | ⟨host, hquiet, hrun⟩ := sfsFsReadInode_cases h.handle h.valid
  · exact Or.inl ⟨hfaults, fs', onFs_run hrun⟩
  · exact Or.inr ⟨host, hquiet, onFs_run hrun⟩

/-- **It is written back**, or a call failed. -/
theorem OpenFile.writeInode_cases (h : OpenFile s fh k) {v : Inode} (hv : v.inumber = k)
    (host : Host) :
    (¬ host.NoFaults ∧ ∃ s', (onFs (sfsFsWriteInode v)).run (s.looked k host) = .done (-1) s') ∨
      ∃ host', (host.NoFaults → host'.NoFaults) ∧
        (onFs (sfsFsWriteInode v)).run (s.looked k host) = .done 0 (s.begun k v host') := by
  obtain ⟨hfaults, fs', hrun⟩ | ⟨host', hquiet, hrun⟩ :=
    sfsFsWriteInode_cases h.handle h.valid hv host
  · exact Or.inl ⟨hfaults, _, onFs_run (s := s.looked k host) hrun⟩
  · exact Or.inr ⟨host', hquiet, onFs_run (s := s.looked k host) hrun⟩

variable (L memory tmpBlock offset) in
/-- **`sfs_read` of an open file** reads the blocks of the range, or a call failed. -/
theorem sfsRead_cases (h : OpenFile s fh k) (hsize : size ≠ 0) :
    (¬ s.fs.host.NoFaults ∧
      ∃ s', (sfsRead L memory tmpBlock size offset fh).run s = .done (-1, memory) s') ∨
    ∃ now host, (s.fs.host.NoFaults → host.NoFaults) ∧
      (sfsRead L memory tmpBlock size offset fh).run s =
        (readBlocks L memory tmpBlock size offset (accessed (s.fs.logicalInode k) now)).run
          (s.begun k (accessed (s.fs.logicalInode k) now) host) := by
  have hget := h.getFromFd_run (.lock :: s.mu) s.fs
  rw [sfsRead, Run.run_bind, lock_run_of_free h.idle, Run.andThen_done, if_neg hsize,
    Run.run_bind, hget, Run.andThen_done]
  dsimp only
  rw [Run.run_bind, Run.run_get, Run.andThen_done, h.slot, Run.run_bind]
  obtain ⟨hfaults, fs', hread⟩ | ⟨host, hquiet, hread⟩ := h.readInode_cases
  · refine Or.inl ⟨hfaults, { s with mu := .unlock :: .lock :: s.mu, fs := fs' }, ?_⟩
    rw [hread]
    rfl
  · rw [hread, Run.andThen_done]
    dsimp only
    rw [Run.run_bind, onFs_time_run, Run.andThen_done, Run.run_bind]
    obtain ⟨hfaults, s', hwrite⟩ | ⟨host', hquiet', hwrite⟩ := h.writeInode_cases
      (v := accessed (s.fs.logicalInode k) (host.clock 0)) h.inumber
      { host with clock := fun i => host.clock (i + 1) }
    · refine Or.inl ⟨fun hq => hfaults (hquiet hq), { s' with mu := .unlock :: s'.mu }, ?_⟩
      rw [accessed] at hwrite
      rw [hwrite, Run.andThen_done, if_pos (by simp)]
      rfl
    · refine Or.inr ⟨host.clock 0, host', fun hq => hquiet' (hquiet hq), ?_⟩
      rw [accessed] at hwrite ⊢
      rw [hwrite, Run.andThen_done, if_neg (by simp), readBlocks]

/-- The inode that `sfs_write` writes, for a range that ends at `stop`. -/
def extended (v : Inode) (stop now changed : UInt64) : Inode :=
  if v.size < stop then { accessed v now with changeTime := changed, size := stop }
  else accessed v now

@[simp] theorem extended_inumber (v : Inode) (stop now changed : UInt64) :
    (extended v stop now changed).inumber = v.inumber := by
  unfold extended
  split <;> rfl

theorem extended_size (v : Inode) (stop now changed : UInt64) :
    (extended v stop now changed).size.toNat = max v.size.toNat stop.toNat := by
  unfold extended
  split
  · next hlt =>
    rw [UInt64.lt_iff_toNat_lt] at hlt
    exact (max_eq_right (Nat.le_of_lt hlt)).symm
  · next hle =>
    rw [UInt64.lt_iff_toNat_lt, Nat.not_lt] at hle
    exact (max_eq_left hle).symm

theorem onFs_touchForWrite_run (k stop : UInt64) (v : Inode) (host : Host) :
    ∃ now changed host', host'.faults = host.faults ∧
      (onFs (touchForWrite v stop)).run (s.looked k host) =
        .done (extended v stop now changed) (s.looked k host') := by
  by_cases hlt : v.size < stop
  · refine ⟨host.clock 0, host.clock 1, { host with clock := fun i => host.clock (i + 2) }, rfl, ?_⟩
    rw [extended, if_pos hlt]
    refine onFs_run (s := s.looked k host) ?_
    rw [touchForWrite, Run.run_bind, time_run, Run.andThen_done]
    dsimp only
    rw [if_pos hlt]
    rfl
  · refine ⟨host.clock 0, 0, { host with clock := fun i => host.clock (i + 1) }, rfl, ?_⟩
    rw [extended, if_neg hlt]
    refine onFs_run (s := s.looked k host) ?_
    rw [touchForWrite, Run.run_bind, time_run, Run.andThen_done]
    dsimp only
    rw [if_neg hlt]
    rfl

/-- **`sfs_write` to an open file** writes the blocks of the range, or a call failed; which
of the two does not depend on the data. -/
theorem sfsWrite_cases (L : InodeLayer F) (offset : ℤ) (h : OpenFile s fh k)
    (hsize : size ≠ 0) :
    (¬ s.fs.host.NoFaults ∧ ∃ s', ∀ memory tmpBlock,
      (sfsWrite L memory tmpBlock size offset fh).run s = .done (-1) s') ∨
    ∃ v now changed host,
      v = extended (s.fs.logicalInode k) (UInt64.ofInt offset + size) now changed ∧
      (s.fs.host.NoFaults → host.NoFaults) ∧ ∀ memory tmpBlock,
      (sfsWrite L memory tmpBlock size offset fh).run s =
        (writeBlocks L memory tmpBlock size offset v).run (s.begun k v host) := by
  have hget := h.getFromFd_run (.lock :: s.mu) s.fs
  obtain ⟨hfaults, fs', hread⟩ | ⟨host, hquiet, hread⟩ := h.readInode_cases
  · refine Or.inl ⟨hfaults, { s with mu := .unlock :: .lock :: s.mu, fs := fs' }, fun _ _ => ?_⟩
    rw [sfsWrite, Run.run_bind, lock_run_of_free h.idle, Run.andThen_done, if_neg hsize,
      Run.run_bind, hget, Run.andThen_done]
    dsimp only
    rw [Run.run_bind, Run.run_get, Run.andThen_done, h.slot, Run.run_bind, hread]
    rfl
  obtain ⟨now, changed, host₁, hfaults₁, htouch⟩ := onFs_touchForWrite_run (s := s) k
    (UInt64.ofInt offset + size) (s.fs.logicalInode k) host
  have hquiet₁ : host.NoFaults → host₁.NoFaults := fun hq i => by
    rw [hfaults₁]
    exact hq i
  obtain ⟨hfaults, s', hwrite⟩ | ⟨host₂, hquiet₂, hwrite⟩ := h.writeInode_cases
    (v := extended (s.fs.logicalInode k) (UInt64.ofInt offset + size) now changed)
    (by rw [extended_inumber]; exact h.inumber) host₁
  · refine Or.inl ⟨fun hq => hfaults (hquiet₁ (hquiet hq)), { s' with mu := .unlock :: s'.mu },
      fun _ _ => ?_⟩
    rw [sfsWrite, Run.run_bind, lock_run_of_free h.idle, Run.andThen_done, if_neg hsize,
      Run.run_bind, hget, Run.andThen_done]
    dsimp only
    rw [Run.run_bind, Run.run_get, Run.andThen_done, h.slot, Run.run_bind, hread,
      Run.andThen_done]
    dsimp only
    rw [Run.run_bind, htouch, Run.andThen_done, Run.run_bind, hwrite, Run.andThen_done,
      if_pos (by simp)]
    rfl
  · refine Or.inr ⟨_, now, changed, host₂, rfl, fun hq => hquiet₂ (hquiet₁ (hquiet hq)),
      fun _ _ => ?_⟩
    rw [sfsWrite, Run.run_bind, lock_run_of_free h.idle, Run.andThen_done, if_neg hsize,
      Run.run_bind, hget, Run.andThen_done]
    dsimp only
    rw [Run.run_bind, Run.run_get, Run.andThen_done, h.slot, Run.run_bind, hread,
      Run.andThen_done]
    dsimp only
    rw [Run.run_bind, htouch, Run.andThen_done, Run.run_bind, hwrite, Run.andThen_done,
      if_neg (by simp), writeBlocks]

end Requests

/-! ## A state with an open file -/

/-- A pool whose handle 0 is one of the inode number 2. -/
def poolOfTwo : FdPool :=
  sfsFiledescriptorPoolInit.pop.setSlot 0 ⟨0, 2, 0⟩

/-- A filesystem with that handle open and the inode of the file written. -/
def openedTwo (fs : Filesystem F) (v : Inode) : SfsState F where
  mu := []
  fdPool := poolOfTwo
  fs := fs.withInode v

theorem openFile_openedTwo {fs : Filesystem F} (h : InodeState fs) (hcache : fs.CacheInt)
    (hvalid : fs.superblock.ValidInumber 2) {v : Inode} (hv : v.inumber = 2) :
    OpenFile (openedTwo fs v) 0 2 ∧ (openedTwo fs v).fs.logicalInode 2 = v ∧
      TableFrame fs (openedTwo fs v).fs := by
  have hvalid' : fs.superblock.ValidInumber v.inumber := by
    rw [hv]
    exact hvalid
  have hint : (inodeBlock v.inumber).toNat < 2 ^ 31 := by
    rw [hv]
    decide
  obtain ⟨-, hstate, hframe, hset, -⟩ :=
    (sfsFsWriteInode_ensures h hvalid' hint).post (sfsFsWriteInode_run h hvalid')
  rw [hv] at hset
  have hsize : (0 : ℕ) < sfsFiledescriptorPoolInit.pop.capacity := by decide
  have hslab : (toCInt 0).toNat / slotsPerSlab < poolOfTwo.slabs.length := by decide
  refine ⟨⟨?_, by decide, hslab, ?_, ?_, ?_, ?_, ?_⟩, hset, hframe⟩
  · exact fun hlocked => absurd hlocked (Option.some_ne_none _ ∘ Eq.symm)
  · exact congrArg Slot.inumber (FdPool.slot_setSlot (s := ⟨0, 2, 0⟩) hsize)
  · exact ⟨hstate.reliable.covers, hstate.reliable.addressable, hstate.table, hstate.cache⟩
  · show (fs.afterCache false (inodeBlock v.inumber)).CacheInt
    rw [Filesystem.afterCache]
    split
    · exact hcache
    · exact toCInt_bounds _
  · refine ⟨hvalid.1, ?_⟩
    show 2 ≤ (fs.withInode v).superblock.inodes
    rw [hframe.superblock]
    exact hvalid.2
  · show ((openedTwo fs v).fs.logicalInode 2).inumber = 2
    rw [show (openedTwo fs v).fs.logicalInode 2 = v from hset, hv]

end SimpleFileSystem
