import SimpleFileSystem.InodeTable

/-!
# The inode cache when I/O fails

A miss is two calls that can fail, the write-back of the old block and the load of the
new one, and the number of the cached block changes between them.  If the write-back
fails nothing is lost.  If the load fails the cache holds the number of the new block
and not its contents: the next access of that block is a hit on whatever is there, and
if the cache was dirty, `sfs_fs_write_inode` leaves it so, and the next miss writes that
to the block.

`flush` and `load` are the two calls, and `cacheInodeBlock_of_hit`, `_of_stuck` and
`_of_miss` are what there is to know about a run of `cacheInodeBlock` on any host.  What
the cache should do is keep a table (`Faithful`): the inodes last written, whatever
failed.  `LoadsCount` is the condition on a call under which it does, and
`faults_do_not_poison` is every run whose calls meet it; `failed_load_poisons` is one
whose second call does not.
-/

open ByteCodec

namespace SimpleFileSystem

variable {F : Type}

/-! ## The two calls -/

/-- The filesystem after a system call. -/
def Filesystem.called (fs : Filesystem F) : Filesystem F :=
  { fs with host := { fs.host with faults := fun i => fs.host.faults (i + 1) } }

/-- The write-back of the cached block, if it is dirty: what `block_write` returns, and
the filesystem. -/
def Filesystem.flush (fs : Filesystem F) : ℤ × Filesystem F :=
  if fs.inodeCache.dirty then
    let r := fs.disk.pwrite (fs.host.faults 0) (fs.cachedBlock * 512) fs.inodeCache.data
    (r.1, { fs.called with disk := r.2 })
  else (512, fs)

/-- The load of a block into the cache: what `block_read` returns, and the data. -/
def Filesystem.load (fs : Filesystem F) (n : UInt64) : ℤ × Block :=
  let r := fs.disk.pread (fs.host.faults 0) (n * 512) fs.inodeCache.data
  (r.1, if r.1 ≤ 0 then Block.zero else r.2)

/-- The filesystem after the load. -/
def Filesystem.reloaded (fs : Filesystem F) (dirty : Bool) (n : UInt64) : Filesystem F :=
  { fs.called with inodeCache := ⟨dirty, toCInt n, (fs.load n).2⟩ }

section Calls

variable {fs : Filesystem F} {n : UInt64} {clearDirty : Bool}

theorem writeBack_run_flush (fs : Filesystem F) :
    (writeBack : Fs F ℤ).run fs = .done (if fs.flush.1 = 512 then 0 else -1) fs.flush.2 := by
  rw [writeBack, Run.run_bind, Run.run_get, Run.andThen_done, Filesystem.flush]
  cases hdirty : fs.inodeCache.dirty with
  | false => rfl
  | true =>
    rw [if_pos rfl, if_pos rfl, Run.run_bind, blockWrite_run, Run.andThen_done, Run.run_pure]
    simp only [ite_not]
    rfl

theorem blockRead_run (fs : Filesystem F) (n : UInt64) (block : Block) :
    (blockRead n block).run fs =
      .done ((fs.disk.pread (fs.host.faults 0) (n * 512) block).1,
        if (fs.disk.pread (fs.host.faults 0) (n * 512) block).1 ≤ 0 then Block.zero
        else (fs.disk.pread (fs.host.faults 0) (n * 512) block).2) fs.called := by
  have hfault : (nextFault : Fs F Fault).run fs = .done (fs.host.faults 0) fs.called := rfl
  have hdisk : fs.called.disk = fs.disk := rfl
  rw [blockRead, Run.run_bind, hfault, Run.andThen_done, Run.run_bind, Run.run_get,
    Run.andThen_done, hdisk]
  generalize fs.disk.pread (fs.host.faults 0) (n * 512) block = r
  obtain ⟨ret, block⟩ := r
  dsimp only
  split <;> rfl

theorem flush_inodeCache (fs : Filesystem F) : fs.flush.2.inodeCache = fs.inodeCache := by
  rw [Filesystem.flush]
  split <;> rfl

theorem flush_cachedBlock (fs : Filesystem F) : fs.flush.2.cachedBlock = fs.cachedBlock := by
  rw [Filesystem.cachedBlock, flush_inodeCache, Filesystem.cachedBlock]

theorem flush_superblock (fs : Filesystem F) : fs.flush.2.superblock = fs.superblock := by
  rw [Filesystem.flush]
  split <;> rfl

theorem flush_of_clean (h : fs.inodeCache.dirty = false) : fs.flush = (512, fs) := by
  rw [Filesystem.flush, h]
  rfl

theorem cacheInodeBlock_of_hit (hhit : fs.cachedBlock = n) :
    (cacheInodeBlock clearDirty n).run fs = .done 0 fs := by
  rw [cacheInodeBlock, Run.run_bind, Run.run_get, Run.andThen_done,
    if_pos (show ofCInt fs.inodeCache.blockNumber = n from hhit), Run.run_pure]

/-- A miss whose write-back fails. -/
theorem cacheInodeBlock_of_stuck (hmiss : fs.cachedBlock ≠ n) (hstuck : fs.flush.1 ≠ 512) :
    (cacheInodeBlock clearDirty n).run fs = .done (-1) fs.flush.2 := by
  rw [cacheInodeBlock, Run.run_bind, Run.run_get, Run.andThen_done,
    if_neg (show ¬ ofCInt fs.inodeCache.blockNumber = n from hmiss), Run.run_bind,
    writeBack_run_flush, Run.andThen_done, if_neg hstuck, if_pos (by simp), Run.run_pure]

/-- A miss whose write-back, if there is one, is done. -/
theorem cacheInodeBlock_of_miss (hmiss : fs.cachedBlock ≠ n) (hflush : fs.flush.1 = 512) :
    (cacheInodeBlock clearDirty n).run fs =
      .done (if (fs.flush.2.load n).1 = 512 then 0 else -1)
        (fs.flush.2.reloaded (if clearDirty then false else fs.inodeCache.dirty) n) := by
  have hcache := flush_inodeCache fs
  rw [cacheInodeBlock, Run.run_bind, Run.run_get, Run.andThen_done,
    if_neg (show ¬ ofCInt fs.inodeCache.blockNumber = n from hmiss), Run.run_bind,
    writeBack_run_flush, Run.andThen_done, if_pos hflush, if_neg (by simp), ← hcache]
  generalize fs.flush.2 = fs₁
  rw [Run.run_bind, Run.run_modify, Run.andThen_done, Run.run_bind, Run.run_get,
    Run.andThen_done, Run.run_bind, blockRead_run, Run.andThen_done]
  dsimp only
  rw [Run.run_bind, Run.run_modify, Run.andThen_done, Run.run_pure]
  simp only [ite_not]
  rfl

end Calls

/-! ## What the cache keeps -/

/-- What a handle has: the table is on the disk, and the cache is coherent.  The calls
of the host may fail in any way. -/
structure CoherentHandle (fs : Filesystem F) : Prop where
  covers : 512 * fs.superblock.blocks.toNat ≤ fs.disk.size
  addressable : fs.disk.size < 2 ^ 63
  table : fs.InodeTable
  cache : fs.CacheCoherent

theorem CoherentHandle.holds {fs : Filesystem F} (h : CoherentHandle fs) {n : UInt64}
    (hn : fs.superblock.InTable n) : fs.disk.Holds n := by
  refine ⟨?_, h.addressable⟩
  have h1 := h.covers
  have h2 := UInt64.le_iff_toNat_le.mp hn.2
  have h3 := UInt64.lt_iff_toNat_lt.mp h.table.inDisk
  omega

/-- The bytes of an inode in its block. -/
def InodeBytes (k : UInt64) (i : Fin 512) : Prop :=
  168 * inodeSlot k ≤ i ∧ (i : ℕ) < 168 * inodeSlot k + 168

/-- A byte of the inode `k` is one that was on the disk, or in the cache. -/
def Filesystem.HadByte (fs : Filesystem F) (k : UInt64) (i : Fin 512) (x : UInt8) : Prop :=
  x = fs.disk.block (inodeBlock k).toNat i ∨ x = fs.tableBlock (inodeBlock k) i

/-- The cache keeps a table: an inode is on the disk, or in the cache if the cache holds
its block and is dirty.  `failed` says that the last load failed; if it did not, a clean
cache is a copy.  The bytes of the inodes `K`, which nobody writes, are those of `start`. -/
structure Faithful (start : Filesystem F) (K : UInt64 → Prop) (fs : Filesystem F)
    (failed : Bool) (table : UInt64 → Inode) : Prop where
  superblock : fs.superblock = start.superblock
  size : fs.disk.size = start.disk.size
  inTable : fs.cachedBlock = 0 ∨ fs.superblock.InTable fs.cachedBlock
  clean : fs.cachedBlock = 0 → fs.inodeCache.dirty = false
  agrees : fs.cachedBlock ≠ 0 → failed = false → fs.inodeCache.dirty = false →
    fs.inodeCache.data = fs.disk.block fs.cachedBlock.toNat
  onDisk : ∀ k, fs.superblock.ValidInumber k →
    (fs.inodeCache.dirty = true → fs.cachedBlock ≠ inodeBlock k) →
    (fs.disk.block (inodeBlock k).toNat).inode (inodeSlot k) = table k
  inCache : fs.inodeCache.dirty = true → ∀ k, fs.superblock.ValidInumber k →
    fs.cachedBlock = inodeBlock k → fs.inodeCache.data.inode (inodeSlot k) = table k
  diskByte : ∀ k, K k → ∀ i, InodeBytes k i →
    start.HadByte k i (fs.disk.block (inodeBlock k).toNat i)
  cacheByte : fs.inodeCache.dirty = true → ∀ k, K k → fs.cachedBlock = inodeBlock k →
    ∀ i, InodeBytes k i → start.HadByte k i (fs.inodeCache.data i)

/-- All of the table is on the disk. -/
structure Written (start : Filesystem F) (K : UInt64 → Prop) (fs : Filesystem F)
    (table : UInt64 → Inode) : Prop where
  superblock : fs.superblock = start.superblock
  size : fs.disk.size = start.disk.size
  onDisk : ∀ k, fs.superblock.ValidInumber k →
    (fs.disk.block (inodeBlock k).toNat).inode (inodeSlot k) = table k
  diskByte : ∀ k, K k → ∀ i, InodeBytes k i →
    start.HadByte k i (fs.disk.block (inodeBlock k).toNat i)

section Faithful

variable {start fs : Filesystem F} {K : UInt64 → Prop} {failed : Bool} {table : UInt64 → Inode}
  {n : UInt64}

theorem CoherentHandle.faithful (h : CoherentHandle start) (K : UInt64 → Prop) :
    Faithful start K start false start.logicalInode where
  superblock := rfl
  size := rfl
  inTable := h.cache.inTable
  clean := h.cache.clean
  agrees h0 _ hdirty := h.cache.agrees h0 hdirty
  onDisk k hk hout := by
    rw [Filesystem.logicalInode, Filesystem.tableBlock]
    split
    · next hin =>
      have hclean : start.inodeCache.dirty = false := by
        cases hdirty : start.inodeCache.dirty with
        | false => rfl
        | true => exact absurd hin (hout hdirty)
      rw [h.cache.agrees (hin ▸ inodeBlock_ne_zero hk.1) hclean, hin]
    · rfl
  inCache _ k _ hin := by
    rw [Filesystem.logicalInode, Filesystem.tableBlock, if_pos hin]
  diskByte _ _ _ _ := Or.inl rfl
  cacheByte _ k _ hin i _ := Or.inr (by rw [Filesystem.tableBlock, if_pos hin])

namespace Faithful

theorem holds (h : Faithful start K fs failed table) (hstart : CoherentHandle start)
    (hn : fs.superblock.InTable n) : fs.disk.Holds n := by
  rw [h.superblock] at hn
  exact ⟨h.size ▸ (hstart.holds hn).le_size, h.size ▸ (hstart.holds hn).addressable⟩

theorem inTable_of_dirty (h : Faithful start K fs failed table)
    (hdirty : fs.inodeCache.dirty = true) : fs.superblock.InTable fs.cachedBlock := by
  rcases h.inTable with h0 | hin
  · rw [h.clean h0] at hdirty
    exact absurd hdirty Bool.false_ne_true
  · exact hin

/-- What the cache holds is the table's, unless its load failed. -/
theorem cached (h : Faithful start K fs false table) {k : UInt64}
    (hk : fs.superblock.ValidInumber k) (hin : fs.cachedBlock = inodeBlock k) :
    fs.inodeCache.data.inode (inodeSlot k) = table k := by
  cases hdirty : fs.inodeCache.dirty with
  | true => exact h.inCache hdirty k hk hin
  | false =>
    rw [h.agrees (hin ▸ inodeBlock_ne_zero hk.1) rfl hdirty, hin]
    exact h.onDisk k hk fun hd => absurd (hdirty.symm.trans hd) Bool.false_ne_true

theorem logicalInode (h : Faithful start K fs false table) {k : UInt64}
    (hk : fs.superblock.ValidInumber k) : fs.logicalInode k = table k := by
  rw [Filesystem.logicalInode, Filesystem.tableBlock]
  split
  · next hin => exact h.cached hk hin
  · next hout => exact h.onDisk k hk fun _ => hout

theorem cachedByte (h : Faithful start K fs false table) {k : UInt64} (hk : K k)
    (hpos : 0 < k) (hin : fs.cachedBlock = inodeBlock k) {i : Fin 512} (hi : InodeBytes k i) :
    start.HadByte k i (fs.inodeCache.data i) := by
  cases hdirty : fs.inodeCache.dirty with
  | true => exact h.cacheByte hdirty k hk hin i hi
  | false =>
    rw [h.agrees (hin ▸ inodeBlock_ne_zero hpos) rfl hdirty, hin]
    exact h.diskByte k hk i hi

/-- **A write-back that fails** leaves the cache as it is, and dirty. -/
theorem flush_of_stuck (h : Faithful start K fs failed table) (hstart : CoherentHandle start)
    (hstuck : fs.flush.1 ≠ 512) : Faithful start K fs.flush.2 failed table := by
  cases hdirty : fs.inodeCache.dirty with
  | false =>
    rw [flush_of_clean hdirty] at hstuck
    exact absurd rfl hstuck
  | true =>
    have hholds := h.holds hstart (h.inTable_of_dirty hdirty)
    have hflush : fs.flush.2 = { fs.called with
        disk := (fs.disk.pwrite (fs.host.faults 0) (fs.cachedBlock * 512)
          fs.inodeCache.data).2 } := by
      rw [Filesystem.flush, if_pos hdirty]
    have hother : ∀ k, fs.cachedBlock ≠ inodeBlock k →
        fs.flush.2.disk.block (inodeBlock k).toNat = fs.disk.block (inodeBlock k).toNat := by
      intro k hne
      rw [hflush]
      exact Disk.block_pwrite_of_ne hholds _ _ (toNat_ne_of_ne hne)
    refine ⟨?_, ?_, ?_, ?_, ?_, fun k hk hout => ?_, ?_, fun k hk i hi => ?_, ?_⟩
    · rw [flush_superblock, h.superblock]
    · rw [hflush]
      exact (Disk.size_pwrite hholds _ _).trans h.size
    · rw [flush_cachedBlock, flush_superblock]
      exact h.inTable
    · rw [flush_cachedBlock, flush_inodeCache]
      exact h.clean
    · intro _ _ hclean
      rw [flush_inodeCache, hdirty] at hclean
      exact absurd hclean.symm Bool.false_ne_true
    · rw [flush_superblock] at hk
      rw [flush_inodeCache, flush_cachedBlock] at hout
      rw [hother k (hout hdirty)]
      exact h.onDisk k hk hout
    · rw [flush_inodeCache, flush_cachedBlock, flush_superblock]
      exact h.inCache
    · by_cases hin : fs.cachedBlock = inodeBlock k
      · have hbyte := Disk.block_pwrite_apply hholds (fs.host.faults 0) fs.inodeCache.data i
        rw [hflush, ← hin]
        rcases hbyte with hnew | hold
        · rw [hnew]
          exact h.cacheByte hdirty k hk hin i hi
        · rw [hold, hin]
          exact h.diskByte k hk i hi
      · rw [hother k hin]
        exact h.diskByte k hk i hi
    · rw [flush_inodeCache, flush_cachedBlock]
      exact h.cacheByte

/-- **A write-back that is done** puts all of the table on the disk. -/
theorem written (h : Faithful start K fs failed table) (hstart : CoherentHandle start)
    (hdone : fs.flush.1 = 512) : Written start K fs.flush.2 table := by
  cases hdirty : fs.inodeCache.dirty with
  | false =>
    rw [flush_of_clean hdirty]
    exact ⟨h.superblock, h.size, fun k hk => h.onDisk k hk fun hd =>
      absurd (hdirty.symm.trans hd) Bool.false_ne_true, h.diskByte⟩
  | true =>
    have hholds := h.holds hstart (h.inTable_of_dirty hdirty)
    have hflush : fs.flush.2.disk = fs.disk.setBlock fs.cachedBlock.toNat fs.inodeCache.data := by
      rw [Filesystem.flush, if_pos hdirty] at hdone ⊢
      dsimp only at hdone ⊢
      rw [Disk.pwrite_of_full hdone, Disk.pwrite_none hholds]
    have hother : ∀ k, fs.cachedBlock ≠ inodeBlock k →
        fs.flush.2.disk.block (inodeBlock k).toNat = fs.disk.block (inodeBlock k).toNat := by
      intro k hne
      rw [hflush]
      exact Disk.block_setBlock_of_ne _ _ (toNat_ne_of_ne hne) (by have := hholds.le_size; omega)
    have hsame : ∀ k, fs.cachedBlock = inodeBlock k →
        fs.flush.2.disk.block (inodeBlock k).toNat = fs.inodeCache.data := by
      intro k hin
      rw [hflush, ← hin, Disk.block_setBlock]
    refine ⟨?_, ?_, fun k hk => ?_, fun k hk i hi => ?_⟩
    · rw [flush_superblock, h.superblock]
    · rw [hflush, Disk.setBlock_size _ _ hholds.le_size, h.size]
    · rw [flush_superblock] at hk
      by_cases hin : fs.cachedBlock = inodeBlock k
      · rw [hsame k hin]
        exact h.inCache hdirty k hk hin
      · rw [hother k hin]
        exact h.onDisk k hk fun _ => hin
    · by_cases hin : fs.cachedBlock = inodeBlock k
      · rw [hsame k hin]
        exact h.cacheByte hdirty k hk hin i hi
      · rw [hother k hin]
        exact h.diskByte k hk i hi

end Faithful

/-- **The load of a block of the table.**  If it fails the cache must be clean. -/
theorem Written.reloaded (h : Written start K fs table) (hstart : CoherentHandle start)
    (hn : fs.superblock.InTable n) (hint : n.toNat < 2 ^ 31) {dirty : Bool}
    (hclean : (fs.load n).1 ≠ 512 → dirty = false) :
    Faithful start K (fs.reloaded dirty n) (decide ((fs.load n).1 ≠ 512)) table := by
  have hblock : (fs.reloaded dirty n).cachedBlock = n := ofCInt_toCInt hint
  have hdata : (fs.load n).1 = 512 → (fs.load n).2 = fs.disk.block n.toNat := by
    intro hfull
    have hholds : fs.disk.Holds n := by
      rw [h.superblock] at hn
      exact ⟨h.size ▸ (hstart.holds hn).le_size, h.size ▸ (hstart.holds hn).addressable⟩
    rw [Filesystem.load] at hfull ⊢
    dsimp only at hfull ⊢
    rw [if_neg (by rw [hfull]; decide)]
    exact Disk.pread_of_full hholds hfull
  have hdirty : (fs.reloaded dirty n).inodeCache.dirty = true → (fs.load n).1 = 512 := by
    intro hd
    by_contra hfail
    exact absurd ((hclean hfail).symm.trans hd) Bool.false_ne_true
  refine ⟨h.superblock, h.size, ?_, ?_, ?_, fun k hk _ => h.onDisk k hk, ?_, h.diskByte, ?_⟩
  · rw [hblock]
    exact Or.inr hn
  · intro h0
    rw [hblock] at h0
    rw [h0] at hn
    exact absurd hn.1 (UInt64.lt_irrefl 0)
  · intro _ hfull _
    rw [hblock]
    exact hdata (not_not.mp (of_decide_eq_false hfull))
  · intro hd k hk hin
    rw [hblock] at hin
    show Block.inode (fs.load n).2 (inodeSlot k) = table k
    rw [hdata (hdirty hd), hin]
    exact h.onDisk k hk
  · intro hd k hk hin i hi
    rw [hblock] at hin
    show start.HadByte k i ((fs.load n).2 i)
    rw [hdata (hdirty hd), hin]
    exact h.diskByte k hk i hi

/-- **The assignment to the cached block** sets one inode of the table. -/
theorem Faithful.setCachedInode (h : Faithful start K fs false table) {v : Inode}
    (hv : fs.superblock.ValidInumber v.inumber) (hin : fs.cachedBlock = inodeBlock v.inumber)
    (hpos : ∀ k, K k → 0 < k) (hK : ¬ K v.inumber) :
    Faithful start K (fs.setCachedInode v) false (Function.update table v.inumber v) := by
  have hslot : ∀ k, 0 < k → fs.cachedBlock = inodeBlock k → k ≠ v.inumber →
      inodeSlot v.inumber ≠ inodeSlot k := fun k hk hk' hne e =>
    hne (inode_place_injective hk hv.1 (hk'.symm.trans hin) e.symm)
  refine ⟨h.superblock, h.size, h.inTable, ?_, ?_, fun k hk hout => ?_, fun _ k hk hk' => ?_,
    h.diskByte, fun _ k hk hk' i hi => ?_⟩
  · intro h0
    exact absurd (hin.symm.trans h0) (inodeBlock_ne_zero hv.1)
  · intro _ _ hclean
    exact absurd (show true = false from hclean).symm Bool.false_ne_true
  · have hne : fs.cachedBlock ≠ inodeBlock k := hout rfl
    have hkv : k ≠ v.inumber := by
      rintro rfl
      exact hne hin
    rw [Function.update_of_ne hkv]
    exact h.onDisk k hk fun _ => hne
  · show (Block.setInode fs.inodeCache.data (inodeSlot v.inumber) v).inode (inodeSlot k) = _
    by_cases hkv : k = v.inumber
    · rw [hkv, Block.inode_setInode _ _ (inodeSlot_lt hv.1), Function.update_self]
    · rw [Block.inode_setInode_of_ne _ _ (hslot k hk.1 hk' hkv), Function.update_of_ne hkv]
      exact h.cached hk hk'
  · have hkv : k ≠ v.inumber := by
      rintro rfl
      exact hK hk
    have hne := hslot k (hpos k hk) hk' hkv
    have hlt := hi.1
    have hlt' := hi.2
    have hsame : Block.setInode fs.inodeCache.data (inodeSlot v.inumber) v i =
        fs.inodeCache.data i :=
      splice_apply_of_notMem (by
        show (i : ℕ) < 168 * inodeSlot v.inumber ∨ 168 * inodeSlot v.inumber + 168 ≤ i
        omega)
    show start.HadByte k i (Block.setInode fs.inodeCache.data (inodeSlot v.inumber) v i)
    rw [hsame]
    exact h.cachedByte hk (hpos k hk) hk' hi

end Faithful

/-! ## Calls on a failing disk -/

/-- A call of one of the two functions, with what it returns. -/
inductive CacheEvent where
  | read (k : UInt64) (answer : Option Inode)
  | write (v : Inode) (ret : ℤ)

/-- The block that a call needs. -/
def CacheEvent.block : CacheEvent → UInt64
  | .read k _ => inodeBlock k
  | .write v _ => inodeBlock v.inumber

/-- What a store sees of a call: nothing if it failed. -/
def CacheEvent.succeeded : CacheEvent → Option (StoreEvent UInt64 Inode)
  | .read k answer => answer.map (.get k)
  | .write v ret => if ret = 0 then some (.set v.inumber v) else none

/-- Whether the last load has failed, after an access of a block. -/
def Filesystem.loadFailed (fs : Filesystem F) (n : UInt64) (failed : Bool) : Bool :=
  if fs.cachedBlock ≠ n ∧ fs.flush.1 = 512 then decide ((fs.flush.2.load n).1 ≠ 512) else failed

/-- A call on a handle.  Beside the handle stands whether its last load failed. -/
inductive CacheCall : Filesystem F × Bool → CacheEvent → Filesystem F × Bool → Prop where
  | read {fs fs' : Filesystem F} {k : UInt64} {answer : Option Inode} (failed : Bool)
      (valid : fs.superblock.ValidInumber k)
      (run : (sfsFsReadInode k).run fs = .done answer fs') :
      CacheCall (fs, failed) (.read k answer) (fs', fs.loadFailed (inodeBlock k) failed)
  | write {fs fs' : Filesystem F} {v : Inode} {ret : ℤ} (failed : Bool)
      (valid : fs.superblock.ValidInumber v.inumber)
      (run : (sfsFsWriteInode v).run fs = .done ret fs') :
      CacheCall (fs, failed) (.write v ret) (fs', fs.loadFailed (inodeBlock v.inumber) failed)

/-- **The condition on a call.**  It does not hit a block whose load failed, and it is no
`sfs_fs_write_inode` that evicts a dirty block and whose load fails; and the number of
the block fits into an `int`. -/
structure LoadsCount (s : Filesystem F × Bool) (e : CacheEvent) : Prop where
  int : e.block.toNat < 2 ^ 31
  hit : s.1.cachedBlock = e.block → s.2 = false
  evict : ∀ v ret, e = .write v ret → s.1.inodeCache.dirty = true →
    s.1.cachedBlock ≠ e.block → s.1.flush.1 = 512 → (s.1.flush.2.load e.block).1 = 512

section Calls

variable {start fs fs' : Filesystem F} {K : UInt64 → Prop} {failed clearDirty : Bool}
  {table : UInt64 → Inode} {n : UInt64}

/-- **Bringing a block into the cache** keeps the table, whatever fails. -/
theorem cacheInodeBlock_faithful (h : Faithful start K fs failed table)
    (hstart : CoherentHandle start) (hn : fs.superblock.InTable n) (hint : n.toNat < 2 ^ 31)
    (hhit : fs.cachedBlock = n → failed = false)
    (hevict : clearDirty = false → fs.inodeCache.dirty = true → fs.cachedBlock ≠ n →
      fs.flush.1 = 512 → (fs.flush.2.load n).1 = 512) :
    Run.Ensures (cacheInodeBlock clearDirty n) fs fun ret fs' =>
      Faithful start K fs' (fs.loadFailed n failed) table ∧
      (ret = 0 → fs.loadFailed n failed = false ∧ fs'.cachedBlock = n) := by
  by_cases hcached : fs.cachedBlock = n
  · have hfailed : fs.loadFailed n failed = failed := if_neg fun hc => hc.1 hcached
    refine Run.Ensures.of_eq (cacheInodeBlock_of_hit hcached) ⟨?_, fun _ => ⟨?_, hcached⟩⟩
    · rw [hfailed]
      exact h
    · rw [hfailed, hhit hcached]
  by_cases hflush : fs.flush.1 = 512
  · have hfailed : fs.loadFailed n failed = decide ((fs.flush.2.load n).1 ≠ 512) :=
      if_pos ⟨hcached, hflush⟩
    refine Run.Ensures.of_eq (cacheInodeBlock_of_miss hcached hflush) ⟨?_, fun hret => ?_⟩
    · rw [hfailed]
      refine (h.written hstart hflush).reloaded hstart ?_ hint fun hfail => ?_
      · rw [flush_superblock]
        exact hn
      · cases clearDirty with
        | true => rfl
        | false =>
          rw [if_neg Bool.false_ne_true]
          cases hdirty : fs.inodeCache.dirty with
          | false => rfl
          | true => exact absurd (hevict rfl hdirty hcached hflush) hfail
    · have hfull : (fs.flush.2.load n).1 = 512 := by
        by_contra hfail
        rw [if_neg hfail] at hret
        exact absurd hret (by decide)
      exact ⟨hfailed.trans (decide_eq_false (not_not.mpr hfull)), ofCInt_toCInt hint⟩
  · have hfailed : fs.loadFailed n failed = failed := if_neg fun hc => hflush hc.2
    refine Run.Ensures.of_eq (cacheInodeBlock_of_stuck hcached hflush) ⟨?_, fun hret => ?_⟩
    · rw [hfailed]
      exact h.flush_of_stuck hstart hflush
    · exact absurd hret (by decide)

/-- **A read** answers what the table has, or fails. -/
theorem sfsFsReadInode_faithful (h : Faithful start K fs failed table)
    (hstart : CoherentHandle start) (htable : fs.InodeTable) {k : UInt64} {answer : Option Inode}
    (hk : fs.superblock.ValidInumber k) (hcount : LoadsCount (fs, failed) (.read k answer)) :
    Run.Ensures (sfsFsReadInode k) fs fun answer fs' =>
      Faithful start K fs' (fs.loadFailed (inodeBlock k) failed) table ∧
      ∀ v, answer = some v → v = table k := by
  rw [sfsFsReadInode, decide_eq_true hk.1, Run.assert_true, Run.pure_bind']
  refine (cacheInodeBlock_faithful h hstart (htable.inTable hk) hcount.int hcount.hit
    fun hclear => absurd hclear (by decide)).bind fun ret fs' hpost => ?_
  obtain ⟨hkeeps, hdone⟩ := hpost
  by_cases hret : ret = 0
  · obtain ⟨hfailed, hcached⟩ := hdone hret
    rw [if_neg (not_not.mpr hret)]
    refine Run.Ensures.of_eq rfl ⟨hkeeps, fun v hv => ?_⟩
    rw [hfailed] at hkeeps
    rw [← Option.some.inj hv]
    refine hkeeps.cached ?_ hcached
    rw [hkeeps.superblock, ← h.superblock]
    exact hk
  · rw [if_pos hret]
    exact Run.ensures_pure ⟨hkeeps, fun v hv => absurd hv.symm (Option.some_ne_none v)⟩

/-- **A write** sets one inode of the table, or fails and sets none. -/
theorem sfsFsWriteInode_faithful (h : Faithful start K fs failed table)
    (hstart : CoherentHandle start) (htable : fs.InodeTable) (hpos : ∀ k, K k → 0 < k)
    {v : Inode} {ret : ℤ} (hv : fs.superblock.ValidInumber v.inumber)
    (hcount : LoadsCount (fs, failed) (.write v ret)) :
    Run.Ensures (sfsFsWriteInode v) fs fun ret fs' =>
      if ret = 0 then ¬ K v.inumber →
        Faithful start K fs' (fs.loadFailed (inodeBlock v.inumber) failed)
          (Function.update table v.inumber v)
      else Faithful start K fs' (fs.loadFailed (inodeBlock v.inumber) failed) table := by
  rw [sfsFsWriteInode, decide_eq_true hv.1, Run.assert_true, Run.pure_bind']
  refine (cacheInodeBlock_faithful h hstart (htable.inTable hv) hcount.int hcount.hit
    fun _ => hcount.evict v ret rfl).bind fun ret fs' hpost => ?_
  obtain ⟨hkeeps, hdone⟩ := hpost
  by_cases hret : ret = 0
  · obtain ⟨hfailed, hcached⟩ := hdone hret
    rw [if_neg (not_not.mpr hret)]
    refine ⟨0, fs'.setCachedInode v, rfl, ?_⟩
    dsimp only
    rw [if_pos rfl]
    intro hK
    rw [hfailed] at hkeeps ⊢
    refine hkeeps.setCachedInode ?_ hcached hpos hK
    rw [hkeeps.superblock, ← h.superblock]
    exact hv
  · rw [if_pos hret]
    refine Run.Ensures.of_eq rfl ?_
    rw [if_neg (by decide)]
    exact hkeeps

/-- **One call is one step of a store**, or none. -/
theorem cacheCall_refines {failed' : Bool} {e : CacheEvent}
    (h : Faithful start K fs failed table) (hstart : CoherentHandle start)
    (hpos : ∀ k, K k → 0 < k) (hK : ∀ v, e = .write v 0 → ¬ K v.inumber)
    (hcount : LoadsCount (fs, failed) e) (hcall : CacheCall (fs, failed) e (fs', failed')) :
    (e.succeeded = none → Faithful start K fs' failed' table) ∧
      ∀ e', e.succeeded = some e' →
        ∃ table', StoreStep table e' table' ∧ Faithful start K fs' failed' table' := by
  have htable : fs.InodeTable := by
    constructor
    · rw [h.superblock]
      exact hstart.table.inodes_le
    · rw [h.superblock]
      exact hstart.table.inDisk
  cases hcall with
  | @read _ _ k answer _ valid run =>
    obtain ⟨hkeeps, hanswer⟩ := (sfsFsReadInode_faithful h hstart htable valid hcount).post run
    refine ⟨fun _ => hkeeps, fun e' he => ?_⟩
    obtain ⟨v, hv, rfl⟩ := Option.map_eq_some_iff.mp he
    rw [hanswer v hv]
    exact ⟨table, StoreStep.get table k, hkeeps⟩
  | @write _ _ v ret _ valid run =>
    have hpost := (sfsFsWriteInode_faithful h hstart htable hpos valid hcount).post run
    by_cases hret : ret = 0
    · subst hret
      rw [if_pos rfl] at hpost
      refine ⟨fun he => ?_, fun e' he => ?_⟩
      · rw [CacheEvent.succeeded, if_pos rfl] at he
        exact absurd he (Option.some_ne_none _)
      · rw [CacheEvent.succeeded, if_pos rfl] at he
        rw [← Option.some.inj he]
        exact ⟨_, StoreStep.set table v.inumber v, hpost (hK v rfl)⟩
    · rw [if_neg hret] at hpost
      refine ⟨fun _ => hpost, fun e' he => ?_⟩
      rw [CacheEvent.succeeded, if_neg hret] at he
      exact absurd he.symm (Option.some_ne_none _)

end Calls

/-- **Failures do not poison the cache** in a run whose calls all meet the condition.
What the reads that succeed answer is what the last write that succeeded put there, and
so is what the disk and a dirty cache hold; and the bytes on the disk of an inode that no
write set are bytes that the disk or the cache had for it at the start. -/
theorem faults_do_not_poison {fs fs' : Filesystem F} {failed : Bool} {tr : List CacheEvent}
    (h : CoherentHandle fs)
    (hexec : Exec (fun s e t => LoadsCount s e ∧ CacheCall s e t) (fs, false) tr (fs', failed)) :
    ∃ table, Exec StoreStep fs.logicalInode (tr.filterMap CacheEvent.succeeded) table ∧
      Faithful fs (fun k => fs.superblock.ValidInumber k ∧
        ∀ v, v.inumber = k → CacheEvent.write v 0 ∉ tr) fs' failed table := by
  generalize hK : (fun k => fs.superblock.ValidInumber k ∧
    ∀ v, v.inumber = k → CacheEvent.write v 0 ∉ tr) = K
  have hpos : ∀ k, K k → 0 < k := by
    intro k hk
    rw [← hK] at hk
    exact hk.1.1
  have hwrites : ∀ e ∈ tr, ∀ v, e = .write v 0 → ¬ K v.inumber := by
    rintro e he v rfl hv
    rw [← hK] at hv
    exact hv.2 v rfl he
  obtain ⟨table, hstore, hfaithful⟩ := (hexec.restrict hwrites).project CacheEvent.succeeded
    (R := fun s table => Faithful fs K s.1 s.2 table)
    (fun s e t table hs hstep hnone =>
      (cacheCall_refines hs h hpos hstep.1 hstep.2.1 hstep.2.2).1 hnone)
    (fun s e t table e' hs hstep hsome =>
      (cacheCall_refines hs h hpos hstep.1 hstep.2.1 hstep.2.2).2 e' hsome)
    (h.faithful K)
  exact ⟨table, hstore, hfaithful⟩

/-- A small disk with an inode 2 in its table, on a host that fails the first call. -/
def failsOnce : Filesystem Unit :=
  { Filesystem.blank oneFreeBlock () with
    disk := (Filesystem.blank oneFreeBlock ()).disk.setBlock 1 (Block.zero.setInode 1 emptyTwo)
    host := { Host.quiet with faults := fun i => if i = 0 then .error else .none } }

/-- That disk after a read of the inode 2. -/
def failedOnce : Filesystem Unit := failsOnce.reloaded false 1

theorem coherentHandle_failsOnce : CoherentHandle failsOnce where
  covers := by
    rw [failsOnce, Disk.setBlock_size _ _ (by decide)]
    decide
  addressable := by
    rw [failsOnce, Disk.setBlock_size _ _ (by decide)]
    decide
  table := ⟨by decide, by decide⟩
  cache := ⟨Or.inl (by decide), fun _ => rfl, fun h => absurd (by decide) h⟩

theorem validInumber_failsOnce : failsOnce.superblock.ValidInumber 2 := by
  constructor <;> decide

/-- The read fails. -/
theorem sfsFsReadInode_failsOnce : (sfsFsReadInode 2).run failsOnce = .done none failedOnce := by
  have hflush : failsOnce.flush = (512, failsOnce) := flush_of_clean rfl
  have hload : (failsOnce.load 1).1 = -1 := rfl
  have hblock : inodeBlock 2 = 1 := by decide
  rw [sfsFsReadInode, decide_eq_true (by decide), Run.assert_true, Run.pure_bind', Run.run_bind,
    hblock, cacheInodeBlock_of_miss (show failsOnce.cachedBlock ≠ 1 by decide)
      (congrArg Prod.fst hflush), hflush, hload, if_neg (by decide), Run.andThen_done,
    if_pos (by decide), Run.run_pure]
  rfl

/-- A disk with two blocks of inodes, on a host that fails the third call. -/
def failsThird : Filesystem Unit :=
  { Filesystem.blank twoTableBlocks () with
    host := { Host.quiet with faults := fun i => if i = 2 then .error else .none } }

theorem coherentHandle_failsThird : CoherentHandle failsThird where
  covers := inodeState_twoTableBlocks.reliable.covers
  addressable := inodeState_twoTableBlocks.reliable.addressable
  table := ⟨inodeState_twoTableBlocks.table.inodes_le, inodeState_twoTableBlocks.table.inDisk⟩
  cache := ⟨Or.inl rfl, fun _ => rfl, fun h => absurd rfl h⟩

/-- An inode is written, one in the other block is read, and the first is read again. -/
def failsThirdCalls : Fs Unit (ℤ × UInt64 × Bool × UInt64 × UInt64 × Bool) := do
  let ret ← sfsFsWriteInode { emptyTwo with size := 7 }
  let fs₁ ← get
  let refused ← sfsFsReadInode 5
  let fs₂ ← get
  let answer ← sfsFsReadInode 2
  return (ret, fs₁.superblock.inodes, refused.isSome, fs₂.superblock.inodes, fs₂.cachedBlock,
    answer.isSome)

/-- The first read writes the block back and fails to load its own.  The second finds what was
written. -/
theorem faults_do_not_poison_failsThird :
    ∃ (s : Filesystem Unit × Bool) (table : UInt64 → Inode),
      Exec (fun s e t => LoadsCount s e ∧ CacheCall s e t) (failsThird, false)
        [.write { emptyTwo with size := 7 } 0, .read 5 none,
          .read 2 (some { emptyTwo with size := 7 })] s ∧
      Exec StoreStep failsThird.logicalInode
        [.set 2 { emptyTwo with size := 7 }, .get 2 { emptyTwo with size := 7 }] table := by
  have hvalue : (failsThirdCalls.run failsThird).value = some (0, 6, false, 6, 2, true) := by
    decide +kernel
  obtain ⟨last, hrun⟩ := Outcome.exists_of_value hvalue
  obtain ⟨ret, fs₁, hwrite, hrun⟩ := Run.bind_eq_done.mp hrun
  obtain ⟨_, _, hget, hrun⟩ := Run.bind_eq_done.mp hrun
  obtain ⟨rfl, rfl⟩ := Outcome.done.inj hget
  obtain ⟨refused, fs₂, hread, hrun⟩ := Run.bind_eq_done.mp hrun
  obtain ⟨_, _, hget, hrun⟩ := Run.bind_eq_done.mp hrun
  obtain ⟨rfl, rfl⟩ := Outcome.done.inj hget
  obtain ⟨answer, fs₃, hagain, hrun⟩ := Run.bind_eq_done.mp hrun
  obtain ⟨hresult, rfl⟩ := Outcome.done.inj hrun
  simp only [Prod.mk.injEq] at hresult
  obtain ⟨rfl, hinodes₁, hrefused, hinodes₂, hcached, hanswer⟩ := hresult
  obtain rfl := Option.not_isSome_iff_eq_none.mp (ne_true_of_eq_false hrefused)
  obtain ⟨v, rfl⟩ := Option.isSome_iff_exists.mp hanswer
  have hvalid₁ : fs₁.superblock.ValidInumber 5 := ⟨by decide, by rw [hinodes₁]; decide⟩
  have hvalid₂ : fs₂.superblock.ValidInumber 2 := ⟨by decide, by rw [hinodes₂]; decide⟩
  -- the first load is whole, and no call hits the block of the second
  have hexec : Exec (fun s e t => LoadsCount s e ∧ CacheCall s e t) (failsThird, false)
      [.write { emptyTwo with size := 7 } 0, .read 5 none, .read 2 (some v)] _ :=
    .cons ⟨⟨by decide, fun _ => rfl, fun _ _ _ hdirty => absurd hdirty (by decide)⟩,
      CacheCall.write false ⟨by decide, by decide⟩ hwrite⟩
    (.cons ⟨⟨by decide, fun _ => rfl, fun _ _ he => absurd he (by simp)⟩,
      CacheCall.read _ hvalid₁ hread⟩
    (.cons ⟨⟨show (inodeBlock 2).toNat < 2 ^ 31 by decide,
        fun hhit => absurd (hcached.symm.trans hhit) (show (2 : UInt64) ≠ inodeBlock 2 by decide),
        fun _ _ he => absurd he (by simp)⟩,
      CacheCall.read _ hvalid₂ hagain⟩ (.nil _)))
  obtain ⟨table, hstore, -⟩ := faults_do_not_poison coherentHandle_failsThird hexec
  have hv : v = { emptyTwo with size := 7 } := StoreStep.get_after_set
    (show Exec StoreStep _ ([] ++ .set 2 _ :: ([] ++ .get 2 v :: [])) table from hstore)
    (fun _ => List.not_mem_nil)
  subst hv
  exact ⟨_, table, hexec, hstore⟩

/-- **The next read succeeds, with an inode of zeros.** -/
theorem failed_load_poisons :
    CoherentHandle failsOnce ∧ failsOnce.superblock.ValidInumber 2 ∧
      (sfsFsReadInode 2).run failsOnce = .done none failedOnce ∧
      (sfsFsReadInode 2).run failedOnce = .done (some Inode.zero) failedOnce ∧
      failsOnce.logicalInode 2 ≠ Inode.zero := by
  refine ⟨coherentHandle_failsOnce, validInumber_failsOnce, sfsFsReadInode_failsOnce, ?_, ?_⟩
  · have hblock : inodeBlock 2 = 1 := by decide
    have hdata : failedOnce.inodeCache.data = Block.zero := rfl
    rw [sfsFsReadInode, decide_eq_true (by decide), Run.assert_true, Run.pure_bind', Run.run_bind,
      hblock, cacheInodeBlock_of_hit (show failedOnce.cachedBlock = 1 by decide), Run.andThen_done,
      if_neg (by simp), Run.run_bind, Run.run_get, Run.andThen_done, Run.run_pure, hdata,
      Block.inode_zero]
  · have hblock : failsOnce.tableBlock (inodeBlock 2) = Block.zero.setInode 1 emptyTwo := by
      rw [Filesystem.tableBlock, if_neg (by decide)]
      exact Disk.block_setBlock _ _ _
    have hslot : inodeSlot 2 = 1 := by decide
    rw [Filesystem.logicalInode, hblock, hslot, Block.inode_setInode _ _ (by decide)]
    intro e
    exact absurd (congrArg Inode.inumber e) (by decide)

end SimpleFileSystem
