import SimpleFileSystem.BlockRanges
import SimpleFileSystem.CacheMemory
import SimpleFileSystem.OpenFile
import SimpleFileSystem.WriteLaw

/-!
# What a failed `sfs_write` leaves of the size

`sfs_write` stores the new size in the inode and then starts on the blocks, so a write
that was to make the file longer has made it longer when it fails.  The other thing that
can go wrong is the read of the inode itself: if its block is not in the cache and the
load fails, what the cache keeps for it is zeros.

`WriteKeepsSize` is what the size should do, whatever the host does.  A write that
neither makes the file longer nor misses the cache does it (`WritesWithin.keepsSize`), and
there is no other (`OpenFile.writesWithin`).
-/

open ByteCodec

namespace SimpleFileSystem

variable {F : Type}

/-! ## Accesses that hit the cache -/

section Hit

variable {fs : Filesystem F} {k : UInt64} {v : Inode}

theorem sfsFsReadInode_of_hit (hk : 0 < k) (hhit : fs.cachedBlock = inodeBlock k) :
    (sfsFsReadInode k).run fs = .done (some (fs.logicalInode k)) fs := by
  rw [sfsFsReadInode, decide_eq_true hk, Run.assert_true, Run.pure_bind', Run.run_bind,
    cacheInodeBlock_of_hit hhit, Run.andThen_done, if_neg (by simp), Run.run_bind, Run.run_get,
    Run.andThen_done, Run.run_pure, Filesystem.logicalInode, Filesystem.tableBlock, if_pos hhit]

theorem sfsFsWriteInode_of_hit (hv : 0 < v.inumber)
    (hhit : fs.cachedBlock = inodeBlock v.inumber) :
    (sfsFsWriteInode v).run fs = .done 0 (fs.setCachedInode v) := by
  rw [sfsFsWriteInode, decide_eq_true hv, Run.assert_true, Run.pure_bind', Run.run_bind,
    cacheInodeBlock_of_hit hhit, Run.andThen_done, if_neg (by simp), Run.run_bind, Run.run_modify,
    Run.andThen_done, Run.run_pure]
  rfl

end Hit

/-! ## The loop of `sfs_write` keeps the size -/

/-- The inode `v` of the file `k` has the size `z`, and so has the one in the cache. -/
structure Sized (k z : UInt64) (v : Inode) (fs : Filesystem F) : Prop where
  pos : 0 < k
  inumber : v.inumber = k
  size : v.size = z
  cached : fs.cachedBlock = inodeBlock k
  cachedSize : (fs.inodeCache.data.inode (inodeSlot k)).size = z

section Sized

variable {k z : UInt64} {v w : Inode} {fs fs' : Filesystem F} {α : Type}

theorem Sized.logicalInode_size (h : Sized k z v fs) : (fs.logicalInode k).size = z := by
  rw [Filesystem.logicalInode, Filesystem.tableBlock, if_pos h.cached, h.cachedSize]

/-- Another inode with the number and the size. -/
theorem Sized.withInode (h : Sized k z v fs) (hinumber : w.inumber = v.inumber)
    (hsize : w.size = v.size) : Sized k z w fs :=
  ⟨h.pos, hinumber.trans h.inumber, hsize.trans h.size, h.cached, h.cachedSize⟩

theorem Sized.keeps {x : Fs F α} (h : Sized k z v fs)
    (hx : Run.Keeps Filesystem.inodeCache x) : Run.Permits x fs fun _ fs' => Sized k z v fs' := by
  intro a fs' hrun
  have hcache := hx fs a fs' hrun
  refine ⟨h.pos, h.inumber, h.size, ?_, ?_⟩
  · rw [Filesystem.cachedBlock, hcache]
    exact h.cached
  · rw [hcache]
    exact h.cachedSize

theorem Sized.writeInode (h : Sized k z v fs) :
    Run.Permits (sfsFsWriteInode v) fs fun ret fs' => ret = 0 ∧ Sized k z v fs' := by
  intro ret fs' hrun
  have hpos : 0 < v.inumber := h.inumber ▸ h.pos
  rw [sfsFsWriteInode_of_hit hpos (h.inumber ▸ h.cached)] at hrun
  cases hrun
  refine ⟨rfl, h.pos, h.inumber, h.size, h.cached, ?_⟩
  show (Block.inode (Block.setInode fs.inodeCache.data (inodeSlot v.inumber) v)
    (inodeSlot k)).size = z
  rw [← h.inumber, Block.inode_setInode _ _ (inodeSlot_lt hpos), h.size]

theorem keeps_sfsFsAllocateBlock :
    Run.Keeps Filesystem.inodeCache (sfsFsAllocateBlock : Fs F (Option UInt64)) := by
  refine Run.keeps_get.bind fun fs => (Run.keeps_pure _).ite ?_
  refine (keeps_blockRead _ _).bind fun r => (Run.keeps_pure _).ite ?_
  cases findSlot (· ≠ 0) r.2 with
  | none =>
    refine Run.Keeps.bind (Run.keeps_modify fun _ => rfl) fun _ => ?_
    exact offDisk_inodeCache.syncSuperblock.bind fun _ => (Run.keeps_pure _).ite (Run.keeps_pure _)
  | some i =>
    exact (keeps_blockWrite _ _).bind fun _ => (Run.keeps_pure _).ite (Run.keeps_pure _)

theorem keeps_readFromIndirect (p index : UInt64) (createIfEmpty : Bool) :
    Run.Keeps Filesystem.inodeCache
      (readFromIndirect p index createIfEmpty : Fs F (Option UInt64)) := by
  refine (Run.keeps_pure _).ite ((keeps_blockRead _ _).bind fun r => (Run.keeps_pure _).ite ?_)
  refine Run.Keeps.ite (keeps_sfsFsAllocateBlock.bind fun answer => ?_) (Run.keeps_pure _)
  cases answer with
  | none => exact Run.keeps_pure _
  | some n =>
    exact (keeps_blockWrite _ _).bind fun _ => (Run.keeps_pure _).ite (Run.keeps_pure _)

theorem keeps_sfsFsInodeBlockRead (v : Inode) (iblock : UInt64) (block : Block) :
    Run.Keeps Filesystem.inodeCache (sfsFsInodeBlockRead v iblock block : Fs F (ℤ × Block)) := by
  have hnumber : Run.Keeps Filesystem.inodeCache
      (blockNumberForRead v iblock : Fs F (Option UInt64)) :=
    (Run.keeps_pure _).ite ((keeps_readFromIndirect _ _ _).ite (Run.keeps_pure _))
  refine hnumber.bind fun answer => ?_
  cases answer with
  | none => exact Run.keeps_pure _
  | some n =>
    refine (Run.keeps_pure _).ite (Run.keeps_get.bind fun _ => (Run.keeps_pure _).ite ?_)
    exact (keeps_blockRead _ _).bind fun _ => Run.keeps_pure _

theorem Sized.directForWrite (h : Sized k z v fs) (i : ℕ) :
    Run.Permits (directForWrite v i) fs fun x fs' => Sized k z x.1 fs' := by
  rw [SimpleFileSystem.directForWrite]
  split
  · exact Run.permits_pure h
  refine (h.keeps keeps_sfsFsAllocateBlock).bind fun answer fs' h' => ?_
  cases answer with
  | none => exact Run.permits_pure h'
  | some n =>
    refine (h'.withInode (w := v.setPointer i n) rfl rfl).writeInode.bind ?_
    rintro ret fs'' ⟨rfl, h''⟩
    exact Run.permits_pure h''

theorem Sized.ensureIndirect (h : Sized k z v fs) :
    Run.Permits (ensureIndirect v) fs fun x fs' => Sized k z x.1 fs' := by
  rw [SimpleFileSystem.ensureIndirect]
  split
  · exact Run.permits_pure h
  refine (h.keeps keeps_sfsFsAllocateBlock).bind fun answer fs' h' => ?_
  cases answer with
  | none => exact Run.permits_pure h'
  | some n =>
    refine (h'.keeps keeps_time).bind fun now fs'' h'' => ?_
    refine (h''.withInode (w := { v.setPointer sfsNdirBlocks.toNat n with changeTime := now })
      rfl rfl).writeInode.bind ?_
    rintro ret fs''' ⟨rfl, h'''⟩
    exact Run.permits_pure h'''

theorem Sized.blockNumberForWrite (h : Sized k z v fs) (iblock : UInt64) :
    Run.Permits (blockNumberForWrite v iblock) fs fun x fs' => Sized k z x.1 fs' := by
  rw [SimpleFileSystem.blockNumberForWrite]
  split
  · exact h.directForWrite _
  split
  · refine h.ensureIndirect.bind ?_
    rintro ⟨w, ret⟩ fs' h'
    dsimp only
    split
    · exact Run.permits_pure h'
    · exact (h'.keeps (keeps_readFromIndirect _ _ _)).bind fun n fs'' h'' => Run.permits_pure h''
  · exact Run.permits_pure h

/-- **A write of a logical block** keeps the size, however it ends; from block 76 on it
fails. -/
theorem Sized.inodeBlockWrite (h : Sized k z v fs) (iblock : UInt64) (block : Block) :
    Run.Permits (sfsFsInodeBlockWrite v iblock block) fs fun x fs' =>
      Sized k z x.2 fs' ∧ (x.1 = 0 → iblock < sfsNdirBlocks + sfsNindBlocks) := by
  by_cases h76 : iblock < sfsNdirBlocks + sfsNindBlocks
  · rw [sfsFsInodeBlockWrite]
    refine (h.blockNumberForWrite iblock).bind ?_
    rintro ⟨w, found⟩ fs' h'
    cases found with
    | none => exact Run.permits_pure ⟨h', fun _ => h76⟩
    | some n =>
      refine Run.Permits.get_bind ?_
      split
      · exact Run.permits_pure ⟨h', fun _ => h76⟩
      · exact (h'.keeps (keeps_blockWrite n block)).bind fun ret fs'' h'' =>
          Run.permits_pure ⟨h'', fun _ => h76⟩
  · have h12 : ¬ iblock < sfsNdirBlocks := fun hlt => h76 (UInt64.lt_trans hlt (by decide))
    rw [sfsFsInodeBlockWrite, SimpleFileSystem.blockNumberForWrite, if_neg h12, if_neg h76]
    exact Run.permits_pure ⟨h, fun h0 => absurd h0 (by simp)⟩

theorem Sized.overlayTmp (h : Sized k z v fs) (memory : Memory) (r : BlockRange)
    (iblock : UInt64) (tmpBlock : Block) :
    Run.Permits (overlayTmp fsLayer memory v r iblock tmpBlock) fs fun _ fs' =>
      Sized k z v fs' := by
  rw [SimpleFileSystem.overlayTmp]
  split
  · refine (h.keeps (keeps_sfsFsInodeBlockRead v iblock tmpBlock)).bind fun x fs' h' => ?_
    dsimp only
    split
    · exact Run.permits_pure h'
    · exact Run.permits_pure h'
  · exact Run.permits_pure h

/-- **The loop of `sfs_write`** keeps the size, and has gone past the last block of the
range before block 77 if it says that all were written. -/
theorem Sized.writeLoop {r : BlockRange} {o n : ℕ} (h : Sized k z v fs) (hr : r.Covers o n)
    (memory : Memory) (tmpBlock : Block) (fuel : ℕ) :
    Run.Permits (Run.loop (writeStep fsLayer memory r) fuel (r.firstBlock, v, tmpBlock)) fs
      fun ok fs' => (fs'.logicalInode k).size = z ∧ (ok = true → o + n ≤ 38912) := by
  refine Run.Permits.loop (I := fun b fs => Sized k z b.2.1 fs ∧
    (b.1 = r.firstBlock ∨ b.1.toNat ≤ 76)) ?_ ⟨h, Or.inl rfl⟩
  rintro ⟨iblock, w, tmp⟩ fs ⟨hw, hblock⟩
  rw [writeStep]
  split
  · next hpast =>
    refine Run.permits_pure ⟨hw.logicalInode_size, fun _ => ?_⟩
    have hpos := hr.pos
    rw [UInt64.le_iff_toNat_le, hr.lastBlock] at hpast
    have hsmall : iblock.toNat ≤ 76 := by
      rcases hblock with hfirst | hsmall
      · rw [show iblock = r.firstBlock from hfirst, hr.firstBlock] at hpast
        omega
      · exact hsmall
    omega
  · refine (hw.overlayTmp memory r iblock tmp).bind fun found fs' h' => ?_
    cases found with
    | none => exact Run.permits_pure ⟨h'.logicalInode_size, fun hok => absurd hok (by simp)⟩
    | some tmp' =>
      refine (h'.inodeBlockWrite iblock _).bind ?_
      rintro ⟨ret, w'⟩ fs'' ⟨h'', h76⟩
      dsimp only at h76 ⊢
      split
      · exact Run.permits_pure ⟨h''.logicalInode_size, fun hok => absurd hok (by simp)⟩
      · next hret =>
        have hlt : iblock.toNat < 76 := UInt64.lt_iff_toNat_lt.mp (h76 (not_not.mp hret))
        refine Run.permits_pure ⟨h'', Or.inr ?_⟩
        rw [UInt64.toNat_add]
        exact Nat.le_trans (Nat.mod_le _ _) hlt

end Sized

/-! ## Hosts on which calls fail -/

/-- A host on which so many calls succeed and all others fail. -/
def Host.failsFrom (n : ℕ) : Host :=
  { Host.quiet with faults := fun i => if i < n then .none else .error }

/-- No call succeeds. -/
def Filesystem.Dead (fs : Filesystem F) : Prop :=
  fs.host.faults = fun _ => .error

section Dead

variable {fs : Filesystem F}

theorem Filesystem.Dead.called (h : fs.Dead) : fs.called = fs := by
  have hfaults : (fun i => fs.host.faults (i + 1)) = fs.host.faults := by
    rw [h]
  rw [Filesystem.called, hfaults]

theorem blockRead_of_dead (h : fs.Dead) (n : UInt64) (block : Block) :
    (blockRead n block).run fs = .done (-1, Block.zero) fs := by
  have hpread : fs.disk.pread (fs.host.faults 0) (n * 512) block = (-1, block) := by
    rw [h, Disk.pread]
    split <;> rfl
  rw [blockRead_run, hpread, h.called]
  rfl

theorem blockWrite_of_dead (h : fs.Dead) (n : UInt64) (block : Block) :
    (blockWrite n block).run fs = .done (-1) fs := by
  have hpwrite : fs.disk.pwrite (fs.host.faults 0) (n * 512) block = (-1, fs.disk) := by
    rw [h, Disk.pwrite]
    split <;> rfl
  have hcalled := h.called
  rw [blockWrite_run, hpwrite]
  exact congrArg (Outcome.done (-1)) hcalled

theorem sfsFsAllocateBlock_of_dead (h : fs.Dead) :
    (sfsFsAllocateBlock : Fs F _).run fs = .done none fs := by
  rw [sfsFsAllocateBlock, Run.run_bind, Run.run_get, Run.andThen_done]
  dsimp only
  split
  · rfl
  · rw [Run.run_bind, blockRead_of_dead h, Run.andThen_done]
    rfl

theorem readFromIndirect_of_dead (h : fs.Dead) (p index : UInt64) (createIfEmpty : Bool) :
    ∃ found, (readFromIndirect p index createIfEmpty).run fs = .done found fs := by
  rw [readFromIndirect]
  split
  · exact ⟨_, rfl⟩
  · refine ⟨none, ?_⟩
    rw [Run.run_bind, blockRead_of_dead h, Run.andThen_done]
    rfl

theorem sfsFsInodeBlockRead_of_dead (h : fs.Dead) (v : Inode) (iblock : UInt64) (block : Block) :
    ∃ x, (sfsFsInodeBlockRead v iblock block).run fs = .done x fs := by
  have hnumber : ∃ found, (blockNumberForRead v iblock).run fs = .done found fs := by
    rw [blockNumberForRead]
    split
    · exact ⟨_, rfl⟩
    split
    · exact readFromIndirect_of_dead h _ _ _
    · exact ⟨_, rfl⟩
  obtain ⟨found, hnumber⟩ := hnumber
  rw [sfsFsInodeBlockRead, Run.run_bind, hnumber, Run.andThen_done]
  cases found with
  | none => exact ⟨_, rfl⟩
  | some n =>
    dsimp only
    split
    · exact ⟨_, rfl⟩
    rw [Run.run_bind, Run.run_get, Run.andThen_done]
    split
    · exact ⟨_, rfl⟩
    · rw [Run.run_bind, blockRead_of_dead h, Run.andThen_done]
      exact ⟨_, rfl⟩

theorem blockNumberForWrite_of_dead (h : fs.Dead) (v : Inode) (iblock : UInt64) :
    ∃ found, (blockNumberForWrite v iblock).run fs = .done (v, found) fs := by
  have hallocate := sfsFsAllocateBlock_of_dead h
  rw [blockNumberForWrite]
  split
  · rw [directForWrite]
    split
    · exact ⟨_, rfl⟩
    · rw [Run.run_bind, hallocate, Run.andThen_done]
      exact ⟨_, rfl⟩
  split
  · by_cases h0 : v.pointer sfsNdirBlocks.toNat = 0
    · rw [Run.run_bind, ensureIndirect, if_neg (not_not.mpr h0), Run.run_bind, hallocate,
        Run.andThen_done]
      exact ⟨none, rfl⟩
    · obtain ⟨found, hfound⟩ := readFromIndirect_of_dead h (v.pointer sfsNdirBlocks.toNat)
        (iblock - sfsNdirBlocks) true
      rw [Run.run_bind, ensureIndirect, if_pos h0, Run.run_pure, Run.andThen_done]
      dsimp only
      rw [if_neg (by simp), Run.run_bind, hfound, Run.andThen_done]
      exact ⟨_, rfl⟩
  · exact ⟨_, rfl⟩

/-- **No logical block is written**, and nothing changes. -/
theorem sfsFsInodeBlockWrite_of_dead (h : fs.Dead) (v : Inode) (iblock : UInt64) (block : Block) :
    (sfsFsInodeBlockWrite v iblock block).run fs = .done (-1, v) fs := by
  obtain ⟨found, hnumber⟩ := blockNumberForWrite_of_dead h v iblock
  rw [sfsFsInodeBlockWrite, Run.run_bind, hnumber, Run.andThen_done]
  cases found with
  | none => rfl
  | some n =>
    dsimp only
    rw [Run.run_bind, Run.run_get, Run.andThen_done]
    split
    · rfl
    · rw [Run.run_bind, blockWrite_of_dead h, Run.andThen_done]
      rfl

end Dead

/-- The first iteration of the loop fails, and nothing changes: on a dead host, or for a
block past the last one that an inode maps. -/
theorem writeStep_of_stuck {fs : Filesystem F} {r : BlockRange} {iblock : UInt64}
    (hlast : iblock ≤ r.lastBlock)
    (hstuck : fs.Dead ∨ ¬ iblock < sfsNdirBlocks + sfsNindBlocks) (memory : Memory) (v : Inode)
    (tmpBlock : Block) :
    (writeStep fsLayer memory r (iblock, v, tmpBlock)).run fs = .done (.inr false) fs := by
  have hread : ∃ x, (sfsFsInodeBlockRead v iblock tmpBlock).run fs = .done x fs := by
    rcases hstuck with hdead | h76
    · exact sfsFsInodeBlockRead_of_dead hdead v iblock tmpBlock
    · have h12 : ¬ iblock < sfsNdirBlocks := fun hlt => h76 (UInt64.lt_trans hlt (by decide))
      rw [sfsFsInodeBlockRead, blockNumberForRead, if_neg h12, if_neg h76]
      exact ⟨_, rfl⟩
  have hwrite : ∀ block, (sfsFsInodeBlockWrite v iblock block).run fs = .done (-1, v) fs := by
    intro block
    rcases hstuck with hdead | h76
    · exact sfsFsInodeBlockWrite_of_dead hdead v iblock block
    · have h12 : ¬ iblock < sfsNdirBlocks := fun hlt => h76 (UInt64.lt_trans hlt (by decide))
      rw [sfsFsInodeBlockWrite, blockNumberForWrite, if_neg h12, if_neg h76]
      rfl
  have hoverlay : ∃ found,
      (overlayTmp fsLayer memory v r iblock tmpBlock).run fs = .done found fs := by
    rw [overlayTmp]
    split
    · obtain ⟨x, hx⟩ := hread
      rw [Run.run_bind, show ((fsLayer : InodeLayer F).blockRead v iblock tmpBlock).run fs =
        .done x fs from hx, Run.andThen_done]
      dsimp only
      split
      · exact ⟨_, rfl⟩
      · exact ⟨_, rfl⟩
    · exact ⟨_, rfl⟩
  obtain ⟨found, hoverlay⟩ := hoverlay
  rw [writeStep, if_neg (not_not.mpr hlast), Run.run_bind, hoverlay, Run.andThen_done]
  cases found with
  | none => rfl
  | some tmp' =>
    dsimp only
    rw [Run.run_bind, show ∀ block, ((fsLayer : InodeLayer F).blockWrite v iblock block).run fs =
      .done (-1, v) fs from hwrite, Run.andThen_done]
    rfl

/-! ## The request -/

/-- The same state on another host. -/
def SfsState.onHost (s : SfsState F) (host : Host) : SfsState F :=
  { s with fs := s.fs.onHost host }

section Request

variable {s : SfsState F} {fh k size : UInt64} {o : ℕ} {memory : Memory} {tmpBlock : Block}
  {v : Inode}

theorem OpenFile.onHost (h : OpenFile s fh k) (host : Host) : OpenFile (s.onHost host) fh k where
  idle := h.idle
  nonneg := h.nonneg
  slab := h.slab
  slot := h.slot
  handle := ⟨h.handle.covers, h.handle.addressable,
    ⟨h.handle.table.inodes_le, h.handle.table.inDisk⟩,
    ⟨h.handle.cache.inTable, h.handle.cache.clean, h.handle.cache.agrees⟩⟩
  cacheInt := h.cacheInt
  valid := h.valid
  inumber := h.inumber

/-- **`sfs_write` once the inode has been read**, if the cache holds its block then: it
stores the larger of the two sizes and goes on to the blocks. -/
theorem OpenFile.write_run (h : OpenFile s fh k) (hsize : size ≠ 0)
    (hsmall : o + size.toNat < 2 ^ 63) {host : Host}
    (hread : (sfsFsReadInode k).run s.fs =
      .done (some (s.fs.logicalInode k)) ((s.fs.afterCache true (inodeBlock k)).onHost host))
    (hcached : (s.fs.afterCache true (inodeBlock k)).cachedBlock = inodeBlock k) :
    ∃ v t, Sized k v.size v t.fs ∧ t.fs.host.faults = host.faults ∧
      v.size.toNat = max (s.fs.logicalInode k).size.toNat (o + size.toNat) ∧
      ∀ memory tmpBlock, (sfsWrite fsLayer memory tmpBlock size o fh).run s =
        (writeBlocks fsLayer memory tmpBlock size o v).run t := by
  have hget := h.getFromFd_run (.lock :: s.mu) s.fs
  have hread' : (onFs (sfsFsReadInode k)).run { s with mu := .lock :: s.mu } =
      .done (some (s.fs.logicalInode k)) (s.looked k host) := onFs_run hread
  obtain ⟨now, changed, host₁, hfaults, htouch⟩ := onFs_touchForWrite_run (s := s) k
    (UInt64.ofInt (o : ℤ) + size) (s.fs.logicalInode k) host
  generalize hv : extended (s.fs.logicalInode k) (UInt64.ofInt (o : ℤ) + size) now changed = v
    at htouch
  have hinumber : v.inumber = k := by
    rw [← hv, extended_inumber, h.inumber]
  have hpos : 0 < v.inumber := hinumber.symm ▸ h.valid.1
  have hwrite : (onFs (sfsFsWriteInode v)).run (s.looked k host₁) = .done 0
      { s.looked k host₁ with fs := (s.looked k host₁).fs.setCachedInode v } :=
    onFs_run (sfsFsWriteInode_of_hit hpos (by rw [hinumber]; exact hcached))
  refine ⟨v, { s.looked k host₁ with fs := (s.looked k host₁).fs.setCachedInode v },
    ⟨h.valid.1, hinumber, rfl, hcached, ?_⟩, hfaults, ?_, fun memory tmpBlock => ?_⟩
  · show (Block.inode (Block.setInode _ (inodeSlot v.inumber) v) (inodeSlot k)).size = v.size
    rw [← hinumber, Block.inode_setInode _ _ (inodeSlot_lt hpos)]
  · have hstop : (UInt64.ofInt (o : ℤ) + size).toNat = o + size.toNat := by
      rw [UInt64.toNat_add, BlockRange.toNat_ofInt_natCast (by omega)]
      omega
    rw [← hv, extended_size, hstop]
  · rw [sfsWrite, Run.run_bind, lock_run_of_free h.idle, Run.andThen_done, if_neg hsize,
      Run.run_bind, hget, Run.andThen_done]
    dsimp only
    rw [Run.run_bind, Run.run_get, Run.andThen_done, h.slot, Run.run_bind, hread',
      Run.andThen_done]
    dsimp only
    rw [Run.run_bind, htouch, Run.andThen_done, Run.run_bind, hwrite, Run.andThen_done,
      if_neg (by simp), writeBlocks]

/-- The read of the inode fails, and with it the request. -/
theorem OpenFile.write_run_of_unread (h : OpenFile s fh k) (hsize : size ≠ 0)
    {fs : Filesystem F} (hread : (sfsFsReadInode k).run s.fs = .done none fs) :
    (sfsWrite fsLayer memory tmpBlock size o fh).run s =
      .done (-1) { s with mu := .unlock :: .lock :: s.mu, fs := fs } := by
  have hget := h.getFromFd_run (.lock :: s.mu) s.fs
  have hread' : (onFs (sfsFsReadInode k)).run { s with mu := .lock :: s.mu } =
      .done none { s with mu := .lock :: s.mu, fs := fs } := onFs_run hread
  rw [sfsWrite, Run.run_bind, lock_run_of_free h.idle, Run.andThen_done, if_neg hsize,
    Run.run_bind, hget, Run.andThen_done]
  dsimp only
  rw [Run.run_bind, Run.run_get, Run.andThen_done, h.slot, Run.run_bind, hread']
  rfl

/-- **The blocks are written or not**: the size stays what has been stored, and an answer
other than -1 means that the range ends within what an inode maps. -/
theorem Sized.writeBlocks {t : SfsState F} {z : UInt64} (h : Sized k z v t.fs)
    (hsize : 0 < size) (hsmall : o + size.toNat < 2 ^ 63) (memory : Memory) (tmpBlock : Block) :
    Run.Permits (writeBlocks fsLayer memory tmpBlock size o v) t fun ret t' =>
      (t'.fs.logicalInode k).size = z ∧ (ret ≠ -1 → o + size.toNat ≤ 38912) := by
  intro ret t' hrun
  rw [SimpleFileSystem.writeBlocks] at hrun
  obtain ⟨ok, t₁, hloop, hrun⟩ := Run.bind_eq_done.mp hrun
  obtain ⟨fs, hblocks, rfl⟩ := onFs_eq_done hloop
  obtain ⟨hz, hok⟩ := h.writeLoop (BlockRange.covers_blockRange hsize hsmall) memory tmpBlock _ ok
    fs hblocks
  cases hrun
  refine ⟨hz, fun hret => hok ?_⟩
  by_contra hfailed
  exact hret (if_neg hfailed)

/-- **The first block fails**, and so does the request. -/
theorem writeBlocks_of_stuck {t : SfsState F} (hsize : 0 < size) (hsmall : o + size.toNat < 2 ^ 63)
    (hstuck : t.fs.Dead ∨ 38912 ≤ o) (v : Inode) :
    (writeBlocks fsLayer memory tmpBlock size o v).run t =
      .done (-1) { t with mu := .unlock :: t.mu } := by
  have hr := BlockRange.covers_blockRange hsize hsmall
  have hlast : (blockRange o size).firstBlock ≤ (blockRange o size).lastBlock := by
    have hpos := hr.pos
    rw [UInt64.le_iff_toNat_le, hr.firstBlock, hr.lastBlock]
    omega
  have hfirst : t.fs.Dead ∨
      ¬ (blockRange o size).firstBlock < sfsNdirBlocks + sfsNindBlocks := by
    refine hstuck.imp_right fun hpast => ?_
    rw [UInt64.lt_iff_toNat_lt, hr.firstBlock]
    show ¬ o / 512 < 76
    omega
  have hloop : ∀ n, (Run.loop (writeStep fsLayer memory (blockRange o size)) (n + 1)
      ((blockRange o size).firstBlock, v, tmpBlock)).run t.fs = .done false t.fs := fun n =>
    Run.loop_succ_of_inr (writeStep_of_stuck hlast hfirst memory v tmpBlock)
  have hbound : loopBound = (loopBound - 1) + 1 := rfl
  rw [writeBlocks, Run.run_bind, hbound, onFs_run (hloop (loopBound - 1)), Run.andThen_done]
  rfl

end Request

/-! ## A read of the inode that fails, and one after which everything fails -/

section Reads

variable {fs : Filesystem F} {k : UInt64}

theorem called_failsFrom (fs : Filesystem F) (n : ℕ) :
    (fs.onHost (Host.failsFrom (n + 1))).called = fs.onHost (Host.failsFrom n) := by
  have hfaults : (fun i => (Host.failsFrom (n + 1)).faults (i + 1)) =
      (Host.failsFrom n).faults := by
    funext i
    simp [Host.failsFrom]
  rw [Filesystem.called, onHost_host, hfaults]
  rfl

/-- The write-back succeeds and leaves so many calls that do. -/
theorem exists_flush (h : CoherentHandle fs) (m : ℕ) :
    ∃ n, (fs.onHost (Host.failsFrom n)).flush = (512, fs.flushed.onHost (Host.failsFrom m)) := by
  cases hdirty : fs.inodeCache.dirty with
  | false =>
    refine ⟨m, ?_⟩
    rw [flush_of_clean (by exact hdirty), Filesystem.flushed, hdirty]
    rfl
  | true =>
    refine ⟨m + 1, ?_⟩
    have hwrite : fs.disk.pwrite ((Host.failsFrom (m + 1)).faults 0) (fs.cachedBlock * 512)
        fs.inodeCache.data = (512, fs.disk.setBlock fs.cachedBlock.toNat fs.inodeCache.data) :=
      Disk.pwrite_none (h.holds_of_dirty hdirty) fs.inodeCache.data
    rw [Filesystem.flush, onHost_inodeCache, hdirty, if_pos rfl, onHost_disk, onHost_host,
      onHost_cachedBlock, hwrite, called_failsFrom, Filesystem.flushed, hdirty, if_pos rfl]
    rfl

theorem holds_flushed (h : CoherentHandle fs) {n : UInt64} (hn : fs.disk.Holds n) :
    fs.flushed.disk.Holds n := by
  rw [Filesystem.flushed]
  split
  · next hdirty => exact hn.setBlock _ (h.holds_of_dirty hdirty).le_size
  · exact hn

/-- **A load that fails** leaves zeros for the inode. -/
theorem exists_failed_read (h : CoherentHandle fs) (hk : fs.superblock.ValidInumber k)
    (hint : (inodeBlock k).toNat < 2 ^ 31) (hmiss : fs.cachedBlock ≠ inodeBlock k) :
    ∃ host fs', (sfsFsReadInode k).run (fs.onHost host) = .done none fs' ∧
      fs'.logicalInode k = Inode.zero := by
  obtain ⟨n, hflush⟩ := exists_flush h 0
  have hload : (fs.flushed.onHost (Host.failsFrom 0)).load (inodeBlock k) = (-1, Block.zero) := by
    have hpread : fs.flushed.disk.pread .error (inodeBlock k * 512)
        fs.flushed.inodeCache.data = (-1, fs.flushed.inodeCache.data) := by
      rw [Disk.pread]
      split <;> rfl
    rw [Filesystem.load]
    show (_, _) = _
    rw [show (fs.flushed.onHost (Host.failsFrom 0)).host.faults 0 = .error from rfl, onHost_disk,
      onHost_inodeCache, hpread]
    rfl
  have hrun : (cacheInodeBlock true (inodeBlock k)).run (fs.onHost (Host.failsFrom n)) = _ :=
    cacheInodeBlock_of_miss hmiss (congrArg Prod.fst hflush)
  rw [hflush] at hrun
  dsimp only at hrun
  rw [hload, if_neg (by decide)] at hrun
  refine ⟨Host.failsFrom n,
    (fs.flushed.onHost (Host.failsFrom 0)).reloaded false (inodeBlock k), ?_, ?_⟩
  · rw [sfsFsReadInode, decide_eq_true hk.1, Run.assert_true, Run.pure_bind', Run.run_bind, hrun,
      Run.andThen_done, if_pos (by decide), Run.run_pure, if_pos rfl]
  · have hcached : ((fs.flushed.onHost (Host.failsFrom 0)).reloaded false
        (inodeBlock k)).cachedBlock = inodeBlock k := ofCInt_toCInt hint
    rw [Filesystem.logicalInode, Filesystem.tableBlock, if_pos hcached, Filesystem.reloaded, hload]
    exact Block.inode_zero _

/-- **A read after which nothing succeeds any more.** -/
theorem exists_last_read (h : CoherentHandle fs) (hk : fs.superblock.ValidInumber k) :
    ∃ host, (sfsFsReadInode k).run (fs.onHost host) = .done (some (fs.logicalInode k))
      ((fs.afterCache true (inodeBlock k)).onHost (Host.failsFrom 0)) := by
  by_cases hhit : fs.cachedBlock = inodeBlock k
  · refine ⟨Host.failsFrom 0, ?_⟩
    rw [sfsFsReadInode_of_hit hk.1 (by exact hhit), Filesystem.afterCache, if_pos hhit]
    rfl
  obtain ⟨n, hflush⟩ := exists_flush h 1
  have hheld := holds_flushed h (h.holds (h.table.inTable hk))
  have hblock : fs.flushed.disk.block (inodeBlock k).toNat = fs.tableBlock (inodeBlock k) := by
    have hquiet := flushed_block h.quiet (inodeBlock_ne_zero hk.1)
    rwa [flushed_onHost] at hquiet
  have hload : (fs.flushed.onHost (Host.failsFrom 1)).load (inodeBlock k) =
      (512, fs.tableBlock (inodeBlock k)) := by
    rw [Filesystem.load]
    show (_, _) = _
    rw [show (fs.flushed.onHost (Host.failsFrom 1)).host.faults 0 = .none from rfl, onHost_disk,
      Disk.pread_none hheld, hblock]
    rfl
  have hrun : (cacheInodeBlock true (inodeBlock k)).run (fs.onHost (Host.failsFrom n)) = _ :=
    cacheInodeBlock_of_miss hhit (congrArg Prod.fst hflush)
  rw [hflush] at hrun
  dsimp only at hrun
  rw [hload, if_pos rfl, Filesystem.reloaded, hload, called_failsFrom] at hrun
  refine ⟨Host.failsFrom n, ?_⟩
  rw [sfsFsReadInode, decide_eq_true hk.1, Run.assert_true, Run.pure_bind', Run.run_bind, hrun,
    Run.andThen_done, if_neg (by decide), Run.run_bind, Run.run_get, Run.andThen_done, Run.run_pure,
    Filesystem.afterCache, if_neg hhit, Filesystem.recached, hblock]
  rfl

end Reads

/-! ## When a failed write keeps the size -/

/-- **A failed write keeps the size**, whatever the host does. -/
def SfsState.WriteKeepsSize (s : SfsState F) (fh k size : UInt64) (o : ℕ) : Prop :=
  ∀ host memory tmpBlock ret s',
    (sfsWrite fsLayer memory tmpBlock size o fh).run (s.onHost host) = .done ret s' → ret < 0 →
      (s'.fs.logicalInode k).size = (s.fs.logicalInode k).size

/-- **Every byte below the size can be read**, when I/O succeeds. -/
def Filesystem.Readable (fs : Filesystem F) (k : UInt64) : Prop :=
  ∀ p < (fs.logicalInode k).size.toNat, ∀ block,
    Run.Ensures (sfsFsInodeBlockRead (fs.logicalInode k) (UInt64.ofNat (p / 512)) block) fs
      fun x _ => x.1 = 0

/-- A write of nothing, or one that ends within the file and finds its inode in the cache. -/
def Filesystem.WritesWithin (fs : Filesystem F) (k size : UInt64) (o : ℕ) : Prop :=
  size = 0 ∨ fs.cachedBlock = inodeBlock k ∧
    o + size.toNat ≤ (fs.logicalInode k).size.toNat

instance (fs : Filesystem F) (k size : UInt64) (o : ℕ) : Decidable (fs.WritesWithin k size o) :=
  inferInstanceAs (Decidable (_ ∨ _))

/-- A call of `sfs_write` with a handle of the file `k`, and its answer; if it fails, it is
one of those that keep the size. -/
inductive WriteCall (k : UInt64) : SfsState F → ℤ → SfsState F → Prop where
  | write {s s' : SfsState F} {fh size : UInt64} {o : ℕ} {memory : Memory} {tmpBlock : Block}
      {ret : ℤ} (isOpen : OpenFile s fh k) (small : o + size.toNat < 2 ^ 63)
      (run : (sfsWrite fsLayer memory tmpBlock size o fh).run s = .done ret s')
      (within : ret < 0 → s.fs.WritesWithin k size o) : WriteCall k s ret s'

section Main

variable {s s' : SfsState F} {fh k size : UInt64} {o : ℕ} {memory : Memory} {tmpBlock : Block}
  {ret : ℤ}

/-- What a call of `sfs_write` returns and stores, if it finds the inode in the cache. -/
theorem OpenFile.write_permits (h : OpenFile s fh k) (hsize : 0 < size)
    (hsmall : o + size.toNat < 2 ^ 63) (hhit : s.fs.cachedBlock = inodeBlock k) :
    Run.Permits (sfsWrite fsLayer memory tmpBlock size o fh) s fun ret s' =>
      (s'.fs.logicalInode k).size.toNat =
          max (s.fs.logicalInode k).size.toNat (o + size.toNat) ∧
        (ret ≠ -1 → o + size.toNat ≤ 38912) := by
  intro ret s' hrun
  have hsame : s.fs.afterCache true (inodeBlock k) = s.fs := if_pos hhit
  have hread : (sfsFsReadInode k).run s.fs = .done (some (s.fs.logicalInode k))
      ((s.fs.afterCache true (inodeBlock k)).onHost s.fs.host) := by
    rw [hsame, onHost_self]
    exact sfsFsReadInode_of_hit h.valid.1 hhit
  obtain ⟨v, t, hsized, -, hz, hwrite⟩ := h.write_run (UInt64.pos_iff_ne_zero.mp hsize) hsmall
    hread (by rw [hsame]; exact hhit)
  rw [hwrite] at hrun
  obtain ⟨hkept, hret⟩ := hsized.writeBlocks hsize hsmall memory tmpBlock ret s' hrun
  exact ⟨by rw [hkept, hz], hret⟩

theorem WritesWithin.keepsSize (h : OpenFile s fh k) (hsmall : o + size.toNat < 2 ^ 63)
    (hwithin : s.fs.WritesWithin k size o) : s.WriteKeepsSize fh k size o := by
  intro host memory tmpBlock ret s' hrun hneg
  by_cases hsize : size = 0
  · rw [sfsWrite, Run.run_bind, lock_run_of_free (h.onHost host).idle, Run.andThen_done,
      if_pos hsize] at hrun
    cases hrun
    exact absurd hneg (by decide)
  · obtain ⟨hhit, hle⟩ := hwithin.resolve_left hsize
    obtain ⟨hz, -⟩ := (h.onHost host).write_permits (UInt64.pos_iff_ne_zero.mpr hsize) hsmall hhit
      ret s' hrun
    refine UInt64.toNat_inj.mp (hz.trans (max_eq_left hle))

/-- **A write that makes the file longer** has a host on which it fails, and the file is
longer afterwards. -/
theorem OpenFile.exists_longer (h : OpenFile s fh k) (hint : (inodeBlock k).toNat < 2 ^ 31)
    (hsize : size ≠ 0) (hsmall : o + size.toNat < 2 ^ 63)
    (hlonger : (s.fs.logicalInode k).size.toNat < o + size.toNat) :
    ¬ s.WriteKeepsSize fh k size o := by
  intro hkeeps
  obtain ⟨host, hread⟩ := exists_last_read h.handle h.valid
  have hcached : ((s.onHost host).fs.afterCache true (inodeBlock k)).cachedBlock = inodeBlock k :=
    cachedBlock_afterCache hint
  have hread' : (sfsFsReadInode k).run (s.onHost host).fs =
      .done (some ((s.onHost host).fs.logicalInode k))
        (((s.onHost host).fs.afterCache true (inodeBlock k)).onHost (Host.failsFrom 0)) := by
    show _ = Outcome.done _ (((s.fs.onHost host).afterCache true (inodeBlock k)).onHost _)
    rw [afterCache_onHost]
    exact hread
  obtain ⟨v, t, hsized, hfaults, hz, hwrite⟩ :=
    (h.onHost host).write_run hsize hsmall hread' hcached
  have hdead : t.fs.Dead := hfaults
  have hrun := hwrite (fun _ => 0) Block.zero
  rw [writeBlocks_of_stuck (UInt64.pos_iff_ne_zero.mpr hsize) hsmall (Or.inl hdead) v] at hrun
  have hsame := hkeeps host _ _ _ _ hrun (by decide)
  rw [show (t.fs.logicalInode k).size = v.size from hsized.logicalInode_size] at hsame
  rw [hsame] at hz
  have hmax : max (s.fs.logicalInode k).size.toNat (o + size.toNat) = o + size.toNat :=
    max_eq_right (Nat.le_of_lt hlonger)
  exact absurd (hz.trans hmax) (Nat.ne_of_lt hlonger)

/-- **A write that misses the cache** has a host on which the inode is lost. -/
theorem OpenFile.exists_lost (h : OpenFile s fh k) (hint : (inodeBlock k).toNat < 2 ^ 31)
    (hsize : size ≠ 0) (hmiss : s.fs.cachedBlock ≠ inodeBlock k)
    (hlong : (s.fs.logicalInode k).size ≠ 0) : ¬ s.WriteKeepsSize fh k size o := by
  intro hkeeps
  obtain ⟨host, fs', hread, hzero⟩ := exists_failed_read h.handle h.valid hint hmiss
  have hsame := hkeeps host (fun _ => 0) Block.zero _ _
    ((h.onHost host).write_run_of_unread hsize hread) (by decide)
  exact hlong (hsame.symm.trans (congrArg Inode.size hzero))

/-- **In a well-formed image**, that is up to what an inode maps. -/
theorem Image.readable_iff {fs : Filesystem F} {nodes A : List UInt64} (h : Image fs nodes A [])
    (hk : k ∈ A) : fs.Readable k ↔ (fs.logicalInode k).size.toNat ≤ 38912 := by
  have hread := fun i => sfsFsInodeBlockRead_run (v := fs.logicalInode k) (i := i)
    h.state.reliable fun h0 => h.index_inRange hk h0
  constructor
  · intro hreadable
    by_contra hlong
    have hfailed := (hreadable 38912 (Nat.not_le.mp hlong) Block.zero).post (hread _ _)
    exact absurd (show (-1 : ℤ) = 0 from hfailed) (by decide)
  · intro hshort p hp block
    have hi : (UInt64.ofNat (p / 512)).toNat = p / 512 :=
      UInt64.toNat_ofNat_of_lt' (by show p / 512 < 2 ^ 64; omega)
    have h76 : UInt64.ofNat (p / 512) < sfsNdirBlocks + sfsNindBlocks := by
      rw [UInt64.lt_iff_toNat_lt, hi]
      show p / 512 < 76
      omega
    refine Run.Ensures.of_eq (hread _ block) ?_
    cases hfound : fs.disk.resolve (fs.logicalInode k) (UInt64.ofNat (p / 512)) with
    | none =>
      rw [Disk.resolve, if_pos h76] at hfound
      split at hfound
      · cases hfound
      · cases hfound
    | some x =>
      by_cases hx : x = 0
      · rw [hx]
        rfl
      · rw [fetch_eq_of_resolve h hk hfound hx]

/-- The inode that has been written is in the cache. -/
theorem OpenFile.sized_begun (h : OpenFile s fh k) (hint : (inodeBlock k).toNat < 2 ^ 31)
    {v : Inode} (hv : v.inumber = k) (host : Host) : Sized k v.size v (s.begun k v host).fs := by
  have hpos : 0 < v.inumber := hv.symm ▸ h.valid.1
  refine ⟨h.valid.1, hv, rfl, ?_, ?_⟩
  · show ((s.fs.afterCache true (inodeBlock k)).afterCache false (inodeBlock v.inumber)).cachedBlock
      = inodeBlock k
    rw [hv]
    exact cachedBlock_afterCache hint
  · show (Block.inode (Block.setInode _ (inodeSlot v.inumber) v) (inodeSlot k)).size = v.size
    rw [← hv, Block.inode_setInode _ _ (inodeSlot_lt hpos)]

/-- **One call** keeps the file within what an inode maps. -/
theorem WriteCall.size_le (h : WriteCall k s ret s') (hint : (inodeBlock k).toNat < 2 ^ 31)
    (hle : (s.fs.logicalInode k).size.toNat ≤ 38912) :
    (s'.fs.logicalInode k).size.toNat ≤ 38912 := by
  cases h with
  | @write _ fh size o memory tmpBlock _ isOpen small run within =>
    by_cases hneg : ret < 0
    · rw [WritesWithin.keepsSize isOpen small
        (within hneg) s.fs.host memory tmpBlock ret s' run hneg]
      exact hle
    by_cases hsize : size = 0
    · rw [sfsWrite, Run.run_bind, lock_run_of_free isOpen.idle, Run.andThen_done,
        if_pos hsize] at run
      cases run
      exact hle
    obtain ⟨-, t, hfailed⟩ | ⟨v, now, changed, host, hv, -, hwrite⟩ :=
      sfsWrite_cases fsLayer (o : ℤ) isOpen hsize
    · rw [hfailed] at run
      cases run
      exact absurd (by decide) hneg
    · have hinumber : v.inumber = k := by
        rw [hv, extended_inumber, isOpen.inumber]
      have hz : v.size.toNat = max (s.fs.logicalInode k).size.toNat (o + size.toNat) := by
        rw [hv, extended_size, UInt64.toNat_add, BlockRange.toNat_ofInt_natCast (by omega),
          Nat.mod_eq_of_lt (by omega)]
      rw [hwrite] at run
      obtain ⟨hkept, hret⟩ := (isOpen.sized_begun hint hinumber host).writeBlocks
        (UInt64.pos_iff_ne_zero.mpr hsize) small memory tmpBlock ret s' run
      rw [hkept, hz]
      exact max_le hle (hret fun e => hneg (by rw [e]; decide))

/-- **A write that keeps the size**, whatever the host does, writes nothing, or ends within the
file and finds its inode in the cache. -/
theorem OpenFile.writesWithin (h : OpenFile s fh k) (hsmall : o + size.toNat < 2 ^ 63)
    (hint : (inodeBlock k).toNat < 2 ^ 31) (hkeeps : s.WriteKeepsSize fh k size o) :
    s.fs.WritesWithin k size o := by
  by_contra hnot
  obtain ⟨hsize, hnot⟩ := not_or.mp hnot
  by_cases hlonger : (s.fs.logicalInode k).size.toNat < o + size.toNat
  · exact h.exists_longer hint hsize hsmall hlonger hkeeps
  · have hmiss : s.fs.cachedBlock ≠ inodeBlock k := fun hhit =>
      hnot ⟨hhit, Nat.not_lt.mp hlonger⟩
    have hpos := UInt64.lt_iff_toNat_lt.mp (UInt64.pos_iff_ne_zero.mpr hsize)
    refine h.exists_lost hint hsize hmiss (fun h0 => hlonger ?_) hkeeps
    rw [h0]
    exact Nat.lt_of_lt_of_le hpos (Nat.le_add_left _ _)

/-- **A run of writes** of the file, whatever the host does in it, keeps the file within what an
inode maps. -/
theorem WriteCall.size_le_of_exec {tr : List ℤ} (hint : (inodeBlock k).toNat < 2 ^ 31)
    (hle : (s.fs.logicalInode k).size.toNat ≤ 38912) (hexec : Exec (WriteCall k) s tr s') :
    (s'.fs.logicalInode k).size.toNat ≤ 38912 :=
  hexec.invariant (I := fun s => (s.fs.logicalInode k).size.toNat ≤ 38912)
    (fun _ _ _ hs hcall => hcall.size_le hint hs) hle

end Main

end SimpleFileSystem
