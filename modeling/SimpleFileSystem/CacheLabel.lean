import SimpleFileSystem.CacheFaults
import SimpleFileSystem.Format

/-!
# The number of the cached block

The cache keeps the number of its block in an `int`, which is compared with the 64-bit
number of a block and widened to one when the block is written back.  Below `2 ^ 31` nothing
is lost.  From there on the `int` is never the number again: it is negative, and widened to a
number that no disk reaches, or it is the number of another block.

What is expected of the cache after `sfs_fs_write_inode` is `CachesBlockOf`: the other inodes
of the block are hits, and whatever evicts the block writes it back to its place.  Disks with
inodes from block `2 ^ 31` on are those of 16 TiB and more, which `format_fs` accepts.
-/

open ByteCodec

namespace SimpleFileSystem

variable {F : Type}

/-! ## What is expected of the cache -/

/-- The block that a call is about. -/
def accessedBlock : StoreEvent UInt64 Inode → UInt64
  | .get k _ => inodeBlock k
  | .set k _ => inodeBlock k

/-- **The block of the inode `k` is cached**: an access to another inode of the block is a
hit, and any access that evicts the block writes it back to block `(k - 1) / 3 + 1`, and
writes nothing else. -/
structure CachesBlockOf (k : UInt64) (fs : Filesystem F) : Prop where
  readHit : ∀ j, fs.superblock.ValidInumber j → j ≠ k → inodeBlock j = inodeBlock k →
    (sfsFsReadInode j).run fs = .done (some (fs.inodeCache.data.inode (inodeSlot j))) fs
  writeHit : ∀ v : Inode, fs.superblock.ValidInumber v.inumber → v.inumber ≠ k →
    inodeBlock v.inumber = inodeBlock k →
    (sfsFsWriteInode v).run fs = .done 0 (fs.setCachedInode v)
  readEvicts : ∀ j, fs.superblock.ValidInumber j → inodeBlock j ≠ inodeBlock k →
    Run.Ensures (sfsFsReadInode j) fs fun answer fs' => answer ≠ none ∧
      fs'.disk = fs.disk.setBlock ((k.toNat - 1) / 3 + 1) fs.inodeCache.data
  writeEvicts : ∀ v : Inode, fs.superblock.ValidInumber v.inumber →
    inodeBlock v.inumber ≠ inodeBlock k →
    Run.Ensures (sfsFsWriteInode v) fs fun ret fs' => ret = 0 ∧
      fs'.disk = fs.disk.setBlock ((k.toNat - 1) / 3 + 1) fs.inodeCache.data

/-- **The block of an inode is cached from its write on**, whatever accesses to its block
come after it. -/
def StaysCached (fs : Filesystem F) (v : Inode) : Prop :=
  Run.Ensures (sfsFsWriteInode v) fs fun ret fs₁ => ret = 0 ∧
    ∀ (tr : List (StoreEvent UInt64 Inode)) (fs₂ : Filesystem F),
      Exec (fun s e t => accessedBlock e = inodeBlock v.inumber ∧ InodeCall s e t) fs₁ tr fs₂ →
      CachesBlockOf v.inumber fs₂

section Cached

variable {fs fs' : Filesystem F} {k : UInt64}

/-- The cache holds the block of the inode `k`, and it is dirty. -/
structure Filesystem.HoldsBlockOf (fs : Filesystem F) (k : UInt64) : Prop where
  state : InodeState fs
  cached : fs.cachedBlock = inodeBlock k
  dirty : fs.inodeCache.dirty = true

namespace Filesystem.HoldsBlockOf

theorem setCachedInode (h : fs.HoldsBlockOf k) (hk : 0 < k) (v : Inode) :
    (fs.setCachedInode v).HoldsBlockOf k where
  state := inodeState_setCachedInode h.state (by rw [h.cached]; exact inodeBlock_ne_zero hk)
  cached := h.cached
  dirty := rfl

theorem sfsFsReadInode_hit (h : fs.HoldsBlockOf k) {j : UInt64}
    (hj : fs.superblock.ValidInumber j) (hblock : inodeBlock j = inodeBlock k) :
    (sfsFsReadInode j).run fs = .done (some (fs.inodeCache.data.inode (inodeSlot j))) fs := by
  have hhit : fs.afterCache true (inodeBlock j) = fs := if_pos (h.cached.trans hblock.symm)
  rw [sfsFsReadInode_run h.state hj, hhit]

theorem sfsFsWriteInode_hit (h : fs.HoldsBlockOf k) {v : Inode}
    (hv : fs.superblock.ValidInumber v.inumber) (hblock : inodeBlock v.inumber = inodeBlock k) :
    (sfsFsWriteInode v).run fs = .done 0 (fs.setCachedInode v) := by
  have hhit : fs.afterCache false (inodeBlock v.inumber) = fs :=
    if_pos (h.cached.trans hblock.symm)
  rw [sfsFsWriteInode_run h.state hv, Filesystem.withInode, hhit]

/-- The disk after the block has been evicted. -/
theorem disk_afterCache (h : fs.HoldsBlockOf k) (hk : 0 < k) {n : UInt64} (hn : n ≠ inodeBlock k)
    (clearDirty : Bool) : (fs.afterCache clearDirty n).disk =
      fs.disk.setBlock ((k.toNat - 1) / 3 + 1) fs.inodeCache.data := by
  have hmiss : fs.cachedBlock ≠ n := fun e => hn (e.symm.trans h.cached)
  have hrecached : (fs.recached (if clearDirty then false else fs.inodeCache.dirty) n).disk =
      fs.flushed.disk := rfl
  rw [Filesystem.afterCache, if_neg hmiss, hrecached, Filesystem.flushed, if_pos h.dirty, h.cached,
    ← toNat_inodeBlock hk]
  rfl

/-- **What is expected of the cache** is so if it holds the block under its number. -/
theorem cachesBlockOf (h : fs.HoldsBlockOf k) (hk : 0 < k) : CachesBlockOf k fs where
  readHit _ hj _ hblock := h.sfsFsReadInode_hit hj hblock
  writeHit _ hv _ hblock := h.sfsFsWriteInode_hit hv hblock
  readEvicts _ hj hblock := Run.Ensures.of_eq (sfsFsReadInode_run h.state hj)
    ⟨(Option.some_ne_none _), h.disk_afterCache hk hblock true⟩
  writeEvicts _ hv hblock := Run.Ensures.of_eq (sfsFsWriteInode_run h.state hv)
    ⟨rfl, h.disk_afterCache hk hblock false⟩

/-- **An access to the block** leaves it in the cache. -/
theorem inodeCall (h : fs.HoldsBlockOf k) (hk : 0 < k) {e : StoreEvent UInt64 Inode}
    (hblock : accessedBlock e = inodeBlock k) (hcall : InodeCall fs e fs') :
    fs'.HoldsBlockOf k := by
  cases hcall with
  | @read _ j v valid run =>
    rw [h.sfsFsReadInode_hit valid hblock] at run
    rwa [← (Outcome.done.inj run).2]
  | @write _ v ret valid run =>
    rw [h.sfsFsWriteInode_hit valid hblock] at run
    rw [← (Outcome.done.inj run).2]
    exact h.setCachedInode hk v

end Filesystem.HoldsBlockOf

/-- Below `2 ^ 31` the cache holds the block that was written to, and keeps it. -/
theorem staysCached_of_lt (h : InodeState fs) {v : Inode}
    (hv : fs.superblock.ValidInumber v.inumber) (hint : (inodeBlock v.inumber).toNat < 2 ^ 31) :
    StaysCached fs v := by
  have hcached : (fs.afterCache false (inodeBlock v.inumber)).cachedBlock =
    inodeBlock v.inumber := cachedBlock_afterCache hint
  have hholds : (fs.withInode v).HoldsBlockOf v.inumber := by
    refine ⟨inodeState_setCachedInode (inodeState_afterCache h (h.table.inTable hv) hint) ?_,
      hcached, rfl⟩
    rw [hcached]
    exact inodeBlock_ne_zero hv.1
  refine Run.Ensures.of_eq (sfsFsWriteInode_run h hv) ⟨rfl, fun tr fs₂ hexec => ?_⟩
  have hlast := hexec.invariant (I := fun t => t.HoldsBlockOf v.inumber)
    (fun s e t hs hcall => hs.inodeCall hv.1 hcall.1 hcall.2) hholds
  exact hlast.cachesBlockOf hv.1

/-! ## Large block numbers -/

/-- **A read that leaves a dirty cache as it is** is a hit. -/
theorem cachedBlock_of_read {j : UInt64} {w : Inode} (hj : 0 < j)
    (hdirty : fs.inodeCache.dirty = true) (hrun : (sfsFsReadInode j).run fs = .done (some w) fs) :
    fs.cachedBlock = inodeBlock j := by
  by_contra hmiss
  rw [sfsFsReadInode, decide_eq_true hj, Run.assert_true, Run.pure_bind', Run.run_bind] at hrun
  by_cases hflush : fs.flush.1 = 512
  · by_cases hload : (fs.flush.2.load (inodeBlock j)).1 = 512
    · -- a load clears the flag
      rw [cacheInodeBlock_of_miss hmiss hflush, Run.andThen_done, if_pos hload, if_neg (by simp),
        Run.run_bind, Run.run_get, Run.andThen_done, Run.run_pure] at hrun
      have hclean : fs.inodeCache.dirty = false := by
        rw [← (Outcome.done.inj hrun).2]
        rfl
      exact Bool.false_ne_true (hclean.symm.trans hdirty)
    · rw [cacheInodeBlock_of_miss hmiss hflush, Run.andThen_done, if_neg hload, if_pos (by simp),
        Run.run_pure] at hrun
      exact Option.some_ne_none w (Outcome.done.inj hrun).1.symm
  · rw [cacheInodeBlock_of_stuck hmiss hflush, Run.andThen_done, if_pos (by simp),
      Run.run_pure] at hrun
    exact Option.some_ne_none w (Outcome.done.inj hrun).1.symm

/-- A full table has another inode in the block of each. -/
theorem exists_same_block {s : Superblock} (hfull : s.inodes.toNat = 3 * s.inodeTableBlocks.toNat)
    (hk : s.ValidInumber k) : ∃ j, s.ValidInumber j ∧ j ≠ k ∧ inodeBlock j = inodeBlock k := by
  obtain ⟨hpos, hle⟩ := hk
  have hpos' := UInt64.lt_iff_toNat_lt.mp hpos
  have hle' := UInt64.le_iff_toNat_le.mp hle
  have h0 : (0 : UInt64).toNat = 0 := rfl
  have hlt := s.inodes.toNat_lt
  have hnumber : ∃ m, m ≠ k.toNat ∧ 0 < m ∧ m ≤ s.inodes.toNat ∧
      (m - 1) / 3 + 1 = (k.toNat - 1) / 3 + 1 := by
    by_cases hfirst : (k.toNat - 1) % 3 = 0
    · exact ⟨k.toNat + 1, by omega, by omega, by omega, by omega⟩
    · exact ⟨k.toNat - 1, by omega, by omega, by omega, by omega⟩
  obtain ⟨m, hne, hm, hmle, hblock⟩ := hnumber
  have hnat : (UInt64.ofNat m).toNat = m := UInt64.toNat_ofNat_of_lt' (by show m < 2 ^ 64; omega)
  have hmpos : 0 < UInt64.ofNat m := by
    rw [UInt64.lt_iff_toNat_lt, hnat]
    exact hm
  refine ⟨UInt64.ofNat m, ⟨hmpos, by rw [UInt64.le_iff_toNat_le, hnat]; exact hmle⟩,
    fun e => hne (by rw [← e, hnat]), ?_⟩
  rw [← UInt64.toNat_inj, toNat_inodeBlock hmpos, toNat_inodeBlock hpos, hnat, hblock]

/-- After a write to a block of `2 ^ 31` or more the cache does not have its number. -/
theorem cachedBlock_withInode_ne (h : InodeState fs) (hlabel : fs.CacheInt)
    {v : Inode} (hv : fs.superblock.ValidInumber v.inumber)
    (hlarge : 2 ^ 31 ≤ (inodeBlock v.inumber).toNat) :
    (fs.withInode v).cachedBlock ≠ inodeBlock v.inumber := by
  have hlabel' : (fs.withInode v).CacheInt := by
    show (fs.afterCache false (inodeBlock v.inumber)).CacheInt
    rw [Filesystem.afterCache]
    split
    · exact hlabel
    · exact toCInt_bounds _
  exact ofCInt_ne hlabel' (h.holds (h.table.inTable hv)) (Nat.not_lt.mpr hlarge)

theorem not_staysCached (h : InodeState fs) (hlabel : fs.CacheInt)
    (hfull : fs.superblock.inodes.toNat = 3 * fs.superblock.inodeTableBlocks.toNat) {v : Inode}
    (hv : fs.superblock.ValidInumber v.inumber)
    (hlarge : 2 ^ 31 ≤ (inodeBlock v.inumber).toNat) : ¬ StaysCached fs v := by
  intro hstays
  obtain ⟨-, hcaches⟩ := hstays.post (sfsFsWriteInode_run h hv)
  obtain ⟨j, hj, hne, hblock⟩ := exists_same_block hfull hv
  have hj' : (fs.withInode v).superblock.ValidInumber j := by
    rw [(withInode_frame h v).superblock]
    exact hj
  have hhit := (hcaches [] _ (Exec.nil _)).readHit j hj' hne hblock
  exact cachedBlock_withInode_ne h hlabel hv hlarge
    ((cachedBlock_of_read hj.1 rfl hhit).trans hblock)

end Cached

/-! ## The condition -/

/-- **The cache addresses the right block** if its number is below `2 ^ 31`, and only then. -/
theorem cache_label_is_exact_iff {fs : Filesystem F} (h : InodeState fs)
    (hlabel : fs.CacheInt)
    (hfull : fs.superblock.inodes.toNat = 3 * fs.superblock.inodeTableBlocks.toNat) {v : Inode}
    (hv : fs.superblock.ValidInumber v.inumber) :
    StaysCached fs v ↔ (v.inumber.toNat - 1) / 3 + 1 < 2 ^ 31 := by
  rw [← toNat_inodeBlock hv.1]
  constructor
  · intro hstays
    by_contra hlarge
    exact not_staysCached h hlabel hfull hv (Nat.not_lt.mp hlarge) hstays
  · exact staysCached_of_lt h hv

/-- A disk of `2 ^ 36` blocks, which are 32 TiB. -/
def hugeDisk : Filesystem Unit :=
  Filesystem.blank (superblockFor 0x1000000000 0) ()

theorem inodeState_hugeDisk : InodeState hugeDisk where
  reliable := reliable_blank (by decide) (by decide)
  table := by
    have hle : (superblockFor 0x1000000000 0).inodes.toNat ≤
        3 * (superblockFor 0x1000000000 0).inodeTableBlocks.toNat := by decide
    have hlt : (superblockFor 0x1000000000 0).inodeTableBlocks <
        (superblockFor 0x1000000000 0).blocks := by decide
    exact ⟨hle, hlt⟩
  cache := ⟨Or.inl rfl, fun _ => rfl, fun h => absurd rfl h⟩

theorem validInumber_hugeDisk {k : UInt64} (hpos : 0 < k) (hk : k ≤ 0x2fffffffd) :
    hugeDisk.superblock.ValidInumber k :=
  ⟨hpos, UInt64.le_trans hk (by decide)⟩

/-- The root inode is in block 1. -/
theorem cache_label_is_exact_iff_hugeDisk :
    StaysCached hugeDisk { Inode.zero with inumber := 1 } ↔
      ((1 : UInt64).toNat - 1) / 3 + 1 < 2 ^ 31 :=
  cache_label_is_exact_iff inodeState_hugeDisk ⟨by decide, by decide⟩ (by decide)
    (validInumber_hugeDisk (by decide) (by decide))

/-- The first inode of block `2 ^ 31`. -/
def farInode : Inode :=
  { Inode.zero with inumber := 0x17ffffffe }

/-- **After a write to the first inode of block `2 ^ 31`** of a disk of 32 TiB the cache has
the number `-2 ^ 31`, and a read of the next inode of this block fails. -/
theorem cache_label_overflows :
    hugeDisk.superblock.ValidInumber 0x17fffffff ∧
    inodeBlock 0x17fffffff = inodeBlock farInode.inumber ∧ ¬ StaysCached hugeDisk farInode ∧
    ∃ fs₁, (sfsFsWriteInode farInode).run hugeDisk = .done 0 fs₁ ∧
      fs₁.inodeCache.blockNumber = -2 ^ 31 ∧
      Run.Ensures (sfsFsReadInode 0x17fffffff) fs₁ fun answer _ => answer = none := by
  have hvalid : hugeDisk.superblock.ValidInumber farInode.inumber :=
    validInumber_hugeDisk (by decide) (by decide)
  have hlabel : (hugeDisk.withInode farInode).inodeCache.blockNumber = -2 ^ 31 := by
    have hmiss : hugeDisk.cachedBlock ≠ inodeBlock farInode.inumber := by decide
    have hafter : hugeDisk.afterCache false (inodeBlock farInode.inumber) =
        hugeDisk.recached hugeDisk.inodeCache.dirty (inodeBlock farInode.inumber) := if_neg hmiss
    rw [Filesystem.withInode, hafter]
    show toCInt (inodeBlock farInode.inumber) = _
    decide
  refine ⟨validInumber_hugeDisk (by decide) (by decide), by decide,
    not_staysCached inodeState_hugeDisk ⟨by decide, by decide⟩ (by decide) hvalid (by decide),
    hugeDisk.withInode farInode, sfsFsWriteInode_run inodeState_hugeDisk hvalid, hlabel, ?_⟩
  generalize hfs₁ : hugeDisk.withInode farInode = fs₁ at hlabel
  have hdirty : fs₁.inodeCache.dirty = true := by
    rw [← hfs₁]
    rfl
  have hcached : fs₁.cachedBlock = ofCInt (-2 ^ 31) := congrArg ofCInt hlabel
  have hmiss : fs₁.cachedBlock ≠ inodeBlock 0x17fffffff := by
    rw [hcached]
    decide
  -- the write-back is at an offset that `pwrite` refuses
  have hoff : 2 ^ 63 ≤ (ofCInt (-2 ^ 31) * 512).toNat := by decide
  have hstuck : fs₁.flush.1 ≠ 512 := by
    have hrefused : ∀ fault block, fs₁.disk.pwrite fault (ofCInt (-2 ^ 31) * 512) block =
        (-1, fs₁.disk) := fun fault block => if_pos hoff
    rw [Filesystem.flush, if_pos hdirty, hcached]
    dsimp only
    rw [hrefused]
    show (-1 : ℤ) ≠ 512
    decide
  have hpos : (0 : UInt64) < 0x17fffffff := by decide
  have hrun : (sfsFsReadInode 0x17fffffff).run fs₁ = .done none fs₁.flush.2 := by
    rw [sfsFsReadInode, decide_eq_true hpos, Run.assert_true, Run.pure_bind', Run.run_bind,
      cacheInodeBlock_of_stuck hmiss hstuck, Run.andThen_done, if_pos (by simp), Run.run_pure]
  exact Run.Ensures.of_eq hrun rfl

end SimpleFileSystem
