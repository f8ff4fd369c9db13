import SimpleFileSystem.CacheFaults
import SimpleFileSystem.Reopen

/-!
# The inode cache in memory that nobody cleared

`sfs_fs_open_disk` sets the number of the cached block to 0 and says that it marks the
unset fields.  It leaves the dirty flag as `malloc` returned it, so with the wrong byte
in memory the first miss writes 512 bytes of garbage over block 0, the superblock.

`accessIo` is what a call does with the disk through the cache, a write-back and a load,
and `Filesystem.accessed_block` says that there is no other write.  With the flag clear,
and calls that never assign to a block that has not been loaded (`AssignsLoaded`), every
write-back of a run is of a block of the table that was loaded before
(`write_backs_hit_the_table`).
-/

open ByteCodec

namespace SimpleFileSystem

variable {F π : Type}

/-! ## Opening leaves the cache alone -/

section Open

theorem keeps_nextFault : Run.Keeps Filesystem.inodeCache (nextFault : Fs F Fault) := by
  intro fs a fs' hrun
  cases hrun
  rfl

theorem keeps_blockRead (n : UInt64) (block : Block) :
    Run.Keeps Filesystem.inodeCache (blockRead n block : Fs F (ℤ × Block)) := by
  intro fs a fs' hrun
  rw [blockRead_run] at hrun
  cases hrun
  rfl

theorem keeps_blockWrite (n : UInt64) (block : Block) :
    Run.Keeps Filesystem.inodeCache (blockWrite n block : Fs F ℤ) := by
  intro fs a fs' hrun
  rw [blockWrite_run] at hrun
  cases hrun
  rfl

theorem keeps_time : Run.Keeps Filesystem.inodeCache (time : Fs F UInt64) := by
  intro fs a fs' hrun
  rw [time_run] at hrun
  cases hrun
  rfl

/-- **A part of a filesystem that is not** the disk, the superblock, the clock or the faults of
the host. -/
structure OffDisk (part : Filesystem F → π) : Prop where
  fault : Run.Keeps part nextFault
  write : ∀ n block, Run.Keeps part (blockWrite n block)
  time : Run.Keeps part time
  superblock : ∀ s, Run.Keeps part (modify fun fs => { fs with superblock := s })

namespace OffDisk

variable {part : Filesystem F → π}

theorem formatTableStep (h : OffDisk part) (inodeTableBlocks : UInt64)
    (w : UInt64 × Block × UInt64) : Run.Keeps part (formatTableStep inodeTableBlocks w) := by
  obtain ⟨i, tmpBlock, nextFree⟩ := w
  have hinode : ∀ (w : Block × UInt64) (j : ℕ), Run.Keeps part (formatInode i w j) := fun _ _ =>
    (Run.keeps_get.bind fun _ => h.time.bind fun _ => Run.keeps_pure _).ite (Run.keeps_pure _)
  refine Run.Keeps.ite (Run.keeps_pure _) ?_
  refine (Run.Keeps.foldlM hinode _ _).bind fun w => (h.write _ _).bind fun _ => ?_
  exact (Run.keeps_pure _).ite (Run.keeps_pure _)

theorem freeIndexStep (h : OffDisk part) (blocks firstFreeBlock : UInt64) (c : IndexCursor) :
    Run.Keeps part (freeIndexStep blocks firstFreeBlock c) := by
  refine Run.Keeps.ite (Run.keeps_pure _) ((Run.keeps_assert _).bind fun _ => ?_)
  refine Run.Keeps.ite ((h.write _ _).bind fun _ => ?_) (Run.keeps_pure _)
  exact (Run.keeps_pure _).ite (Run.keeps_pure _)

theorem syncSuperblock (h : OffDisk part) : Run.Keeps part syncSuperblock :=
  Run.keeps_get.bind fun _ => (h.write _ _).bind fun _ =>
    (Run.keeps_pure _).ite (Run.keeps_pure _)

/-- **`format_fs`** leaves it alone. -/
theorem formatFs (h : OffDisk part) : Run.Keeps part formatFs := by
  have hblocks : Run.Keeps part diskBlocks :=
    h.fault.bind fun _ => Run.keeps_get.bind fun _ => Run.keeps_pure _
  refine hblocks.bind fun blocks => ?_
  cases blocks with
  | none => exact Run.keeps_pure _
  | some blocks =>
    refine Run.Keeps.ite (Run.keeps_pure _) (h.time.bind fun now => ?_)
    refine (h.superblock _).bind fun _ => ?_
    refine (Run.Keeps.loop (h.formatTableStep _) _ _).bind fun tmpBlock => ?_
    cases tmpBlock with
    | none => exact Run.keeps_pure _
    | some tmpBlock =>
      refine (Run.Keeps.loop (h.freeIndexStep _ _) _ _).bind fun cur => ?_
      cases cur with
      | none => exact Run.keeps_pure _
      | some cur =>
        refine (Run.keeps_assert _).bind fun _ => h.syncSuperblock.bind fun _ => ?_
        exact (Run.keeps_pure _).ite (Run.keeps_pure _)

end OffDisk

theorem offDisk_inodeCache : OffDisk (Filesystem.inodeCache (F := F)) :=
  ⟨keeps_nextFault, keeps_blockWrite, keeps_time, fun _ => Run.keeps_modify fun _ => rfl⟩

/-- **Opening a disk** leaves the flag and the data of the cache as they were. -/
theorem sfsFsOpenDisk_inodeCache {disk fs : Filesystem F} {maybeFormat ok : Bool}
    (h : (sfsFsOpenDisk maybeFormat).run disk = .done ok fs) (hok : ok = true) :
    fs.inodeCache = { disk.inodeCache with blockNumber := 0 } := by
  subst hok
  obtain ⟨got, t, hmalloc, h⟩ := Run.bind_eq_done.mp h
  cases hmalloc
  by_cases hgot : disk.host.mallocs 0 = true
  swap
  · rw [if_pos hgot] at h
    cases h
  rw [if_neg (not_not.mpr hgot)] at h
  obtain ⟨_, t, hmodify, h⟩ := Run.bind_eq_done.mp h
  cases hmodify
  refine ((keeps_blockRead 0 _).bind fun r => ?_) _ _ _ h
  obtain ⟨ret, superblockData⟩ := r
  refine Run.Keeps.ite (Run.keeps_pure _) (Run.Keeps.ite ?_ ?_)
  · exact Run.Keeps.bind (Run.keeps_modify fun _ => rfl) fun _ => Run.keeps_pure _
  · exact offDisk_inodeCache.formatFs.bind fun _ => Run.keeps_pure _

end Open

/-! ## What goes through the cache -/

/-- A block that the cache writes back, or loads. -/
inductive CacheIo where
  | writeBack (n : UInt64)
  | load (n : UInt64)

/-- The write-back of the cached block, which a miss and `sfs_fs_close` begin with. -/
def Filesystem.flushIo (fs : Filesystem F) : List CacheIo :=
  if fs.inodeCache.dirty then [.writeBack fs.cachedBlock] else []

/-- A load, if it is one of a whole block. -/
def Filesystem.loadIo (fs : Filesystem F) (n : UInt64) : List CacheIo :=
  if (fs.load n).1 = 512 then [.load n] else []

/-- What an access of a block does with the disk. -/
def Filesystem.accessIo (fs : Filesystem F) (n : UInt64) : List CacheIo :=
  if fs.cachedBlock = n then []
  else fs.flushIo ++ if fs.flush.1 = 512 then fs.flush.2.loadIo n else []

/-- **Every block written back is one of the table, and was loaded before.** -/
def WriteBacksLoaded (s : Superblock) (io : List CacheIo) : Prop :=
  ∀ (before after : List CacheIo) (n : UInt64), io = before ++ .writeBack n :: after →
    s.InTable n ∧ CacheIo.load n ∈ before

namespace WriteBacksLoaded

variable {s : Superblock} {io : List CacheIo} {n : UInt64}

theorem nil : WriteBacksLoaded s [] := by
  intro before after n h
  exact absurd h.symm (by simp)

theorem concat {x : CacheIo} (h : WriteBacksLoaded s io)
    (hx : ∀ n, x = .writeBack n → s.InTable n ∧ CacheIo.load n ∈ io) :
    WriteBacksLoaded s (io ++ [x]) := by
  intro before after n hio
  rcases List.eq_nil_or_concat after with rfl | ⟨after', y, rfl⟩
  · obtain ⟨rfl, hlast⟩ := List.append_inj' hio rfl
    exact hx n (List.head_eq_of_cons_eq hlast)
  · refine h before after' n ?_
    rw [List.concat_eq_append, ← List.cons_append, ← List.append_assoc] at hio
    exact (List.append_inj' hio rfl).1

theorem not_mem_zero (h : WriteBacksLoaded s io) : CacheIo.writeBack 0 ∉ io := by
  intro hmem
  obtain ⟨before, after, hio⟩ := List.append_of_mem hmem
  exact absurd (h before after 0 hio).1.1 (UInt64.lt_irrefl 0)

end WriteBacksLoaded

/-- What the cache has done since `start`, and what it holds: a block that was loaded,
unless its load failed, and only a block of the table is dirty. -/
structure LoadedFirst (start fs : Filesystem F) (failed : Bool) (io : List CacheIo) : Prop where
  superblock : fs.superblock = start.superblock
  size : start.disk.size ≤ fs.disk.size
  small : fs.cachedBlock.toNat < 2 ^ 31
  loaded : fs.cachedBlock ≠ 0 → failed = false → CacheIo.load fs.cachedBlock ∈ io
  dirty : fs.inodeCache.dirty = true →
    fs.superblock.InTable fs.cachedBlock ∧ failed = false
  log : WriteBacksLoaded start.superblock io
  block : ∀ m : ℕ, 512 * (m + 1) ≤ start.disk.size →
    (∀ n, CacheIo.writeBack n ∈ io → n.toNat ≠ m) → fs.disk.block m = start.disk.block m

namespace LoadedFirst

variable {start fs : Filesystem F} {failed : Bool} {io : List CacheIo} {n : UInt64}

theorem opened (hcached : fs.cachedBlock = 0) (hclean : fs.inodeCache.dirty = false) :
    LoadedFirst fs fs false [] where
  superblock := rfl
  size := Nat.le_refl _
  small := by rw [hcached]; decide
  loaded h0 := absurd hcached h0
  dirty hdirty := absurd (hclean.symm.trans hdirty) Bool.false_ne_true
  log := WriteBacksLoaded.nil
  block _ _ _ := rfl

/-- **The write-back**, however it ends. -/
theorem flush (h : LoadedFirst start fs failed io) :
    LoadedFirst start fs.flush.2 failed (io ++ fs.flushIo) := by
  cases hdirty : fs.inodeCache.dirty with
  | false =>
    rw [flush_of_clean hdirty, Filesystem.flushIo, hdirty, if_neg Bool.false_ne_true,
      List.append_nil]
    exact h
  | true =>
    obtain ⟨hin, hfailed⟩ := h.dirty hdirty
    have hn0 : fs.cachedBlock ≠ 0 := by
      intro h0
      rw [h0] at hin
      exact absurd hin.1 (UInt64.lt_irrefl 0)
    have hdisk : fs.flush.2.disk = (fs.disk.pwrite (fs.host.faults 0) (fs.cachedBlock * 512)
        fs.inodeCache.data).2 := by
      rw [Filesystem.flush, if_pos hdirty]
    rw [Filesystem.flushIo, if_pos hdirty]
    refine ⟨?_, ?_, ?_, ?_, ?_, ?_, fun m hm hout => ?_⟩
    · rw [flush_superblock, h.superblock]
    · rw [hdisk]
      refine Nat.le_trans h.size (Disk.size_le_pwrite _ _ _ _)
    · rw [flush_cachedBlock]
      exact h.small
    · intro _ _
      rw [flush_cachedBlock]
      exact List.mem_append_left _ (h.loaded hn0 hfailed)
    · intro _
      rw [flush_superblock, flush_cachedBlock]
      exact ⟨hin, hfailed⟩
    · refine h.log.concat fun n hn => ?_
      obtain rfl := CacheIo.writeBack.inj hn
      rw [← h.superblock]
      exact ⟨hin, h.loaded hn0 hfailed⟩
    · have hne := hout _ (List.mem_append_right _ List.mem_cons_self)
      rw [hdisk, Disk.block_pwrite_of_lt h.small _ _ (Nat.le_trans hm h.size) hne]
      exact h.block m hm fun n hn => hout n (List.mem_append_left _ hn)

/-- **The load of a block of the table.**  If it fails the cache must be clean. -/
theorem reloaded (h : LoadedFirst start fs failed io) (hn : fs.superblock.InTable n)
    (hint : n.toNat < 2 ^ 31) {dirty : Bool} (hclean : (fs.load n).1 ≠ 512 → dirty = false) :
    LoadedFirst start (fs.reloaded dirty n) (decide ((fs.load n).1 ≠ 512))
      (io ++ fs.loadIo n) := by
  have hblock : (fs.reloaded dirty n).cachedBlock = n := ofCInt_toCInt hint
  have hwrites : ∀ m, CacheIo.writeBack m ∈ io ++ fs.loadIo n ↔ CacheIo.writeBack m ∈ io := by
    intro m
    rw [List.mem_append, Filesystem.loadIo]
    split <;> simp
  refine ⟨h.superblock, h.size, ?_, ?_, ?_, ?_, fun m hm hout => ?_⟩
  · rw [hblock]
    exact hint
  · intro _ hfull
    rw [hblock, Filesystem.loadIo, if_pos (not_not.mp (of_decide_eq_false hfull))]
    exact List.mem_append_right _ List.mem_cons_self
  · intro hdirty
    rw [hblock]
    refine ⟨hn, decide_eq_false fun hfail => ?_⟩
    exact absurd ((hclean hfail).symm.trans hdirty) Bool.false_ne_true
  · rw [Filesystem.loadIo]
    split
    · exact h.log.concat fun m hm => absurd hm (by simp)
    · rw [List.append_nil]
      exact h.log
  · exact h.block m hm fun n' hn' => hout n' ((hwrites n').mpr hn')

theorem setCachedInode (h : LoadedFirst start fs false io) {v : Inode}
    (hin : fs.superblock.InTable fs.cachedBlock) :
    LoadedFirst start (fs.setCachedInode v) false io :=
  ⟨h.superblock, h.size, h.small, h.loaded, fun _ => ⟨hin, rfl⟩, h.log, h.block⟩

end LoadedFirst

/-! ## Runs -/

/-- A call on a handle, with what has gone through the cache. -/
inductive LoggedCall :
    (Filesystem F × Bool) × List CacheIo → CacheEvent → (Filesystem F × Bool) × List CacheIo →
      Prop where
  | mk {s t : Filesystem F × Bool} {e : CacheEvent} (io : List CacheIo) (call : CacheCall s e t) :
      LoggedCall (s, io) e (t, io ++ s.1.accessIo e.block)

/-- **The condition on a call**: a `sfs_fs_write_inode` does not hit a block whose load
failed, and if it evicts a dirty block its load does not fail; and the number of the block
fits into an `int`.  On a disk that does not fail only the last is one. -/
structure AssignsLoaded (s : Filesystem F × Bool) (e : CacheEvent) : Prop where
  int : e.block.toNat < 2 ^ 31
  hit : ∀ v ret, e = .write v ret → s.1.cachedBlock = e.block → s.2 = false
  evict : ∀ v ret, e = .write v ret → s.1.inodeCache.dirty = true →
    s.1.cachedBlock ≠ e.block → s.1.flush.1 = 512 → (s.1.flush.2.load e.block).1 = 512

section Calls

variable {start fs fs' : Filesystem F} {failed failed' clearDirty : Bool} {io io' : List CacheIo}
  {n : UInt64}

/-- **Bringing a block into the cache**, whatever fails. -/
theorem cacheInodeBlock_loadedFirst (h : LoadedFirst start fs failed io)
    (hn : fs.superblock.InTable n) (hint : n.toNat < 2 ^ 31)
    (hevict : clearDirty = false → fs.inodeCache.dirty = true → fs.cachedBlock ≠ n →
      fs.flush.1 = 512 → (fs.flush.2.load n).1 = 512) :
    Run.Ensures (cacheInodeBlock clearDirty n) fs fun ret fs' =>
      LoadedFirst start fs' (fs.loadFailed n failed) (io ++ fs.accessIo n) ∧
      (ret = 0 → fs'.cachedBlock = n ∧
        ((fs.cachedBlock = n → failed = false) → fs.loadFailed n failed = false)) := by
  by_cases hcached : fs.cachedBlock = n
  · have hfailed : fs.loadFailed n failed = failed := if_neg fun hc => hc.1 hcached
    refine Run.Ensures.of_eq (cacheInodeBlock_of_hit hcached) ⟨?_, fun _ => ⟨hcached, ?_⟩⟩
    · rw [hfailed, Filesystem.accessIo, if_pos hcached, List.append_nil]
      exact h
    · rw [hfailed]
      exact fun hhit => hhit hcached
  by_cases hflush : fs.flush.1 = 512
  · have hfailed : fs.loadFailed n failed = decide ((fs.flush.2.load n).1 ≠ 512) :=
      if_pos ⟨hcached, hflush⟩
    refine Run.Ensures.of_eq (cacheInodeBlock_of_miss hcached hflush) ⟨?_, fun hret => ?_⟩
    · rw [hfailed, Filesystem.accessIo, if_neg hcached, if_pos hflush, ← List.append_assoc]
      refine h.flush.reloaded ?_ hint fun hfail => ?_
      · rw [flush_superblock]
        exact hn
      · cases clearDirty with
        | true => rfl
        | false =>
          rw [if_neg Bool.false_ne_true]
          cases hdirty : fs.inodeCache.dirty with
          | false => rfl
          | true => exact absurd (hevict rfl hdirty hcached hflush) hfail
    · have hfull : (fs.flush.2.load n).1 = 512 := by
        by_contra hfail
        rw [if_neg hfail] at hret
        exact absurd hret (by decide)
      exact ⟨ofCInt_toCInt hint, fun _ => hfailed.trans (decide_eq_false (not_not.mpr hfull))⟩
  · have hfailed : fs.loadFailed n failed = failed := if_neg fun hc => hflush hc.2
    refine Run.Ensures.of_eq (cacheInodeBlock_of_stuck hcached hflush) ⟨?_, fun hret => ?_⟩
    · rw [hfailed, Filesystem.accessIo, if_neg hcached, if_neg hflush, List.append_nil]
      exact h.flush
    · exact absurd hret (by decide)

/-- **One call.** -/
theorem loggedCall_loadedFirst {e : CacheEvent} (h : LoadedFirst start fs failed io)
    (hinodes : start.superblock.inodes.toNat ≤ 3 * start.superblock.inodeTableBlocks.toNat)
    (hassigns : AssignsLoaded (fs, failed) e)
    (hcall : LoggedCall ((fs, failed), io) e ((fs', failed'), io')) :
    LoadedFirst start fs' failed' io' := by
  have hin : ∀ k, fs.superblock.ValidInumber k → fs.superblock.InTable (inodeBlock k) := by
    rw [h.superblock]
    exact fun k hk => inTable_inodeBlock hinodes hk
  obtain ⟨io, hcall⟩ := hcall
  cases hcall with
  | @read _ _ k answer _ valid run =>
    rw [sfsFsReadInode, decide_eq_true valid.1, Run.assert_true, Run.pure_bind'] at run
    obtain ⟨ret, t, hcache, run⟩ := Run.bind_eq_done.mp run
    obtain ⟨hkeeps, -⟩ := (cacheInodeBlock_loadedFirst h (hin k valid) hassigns.int
      fun hclear => absurd hclear (by decide)).post hcache
    by_cases hret : ret = 0
    · rw [if_neg (not_not.mpr hret)] at run
      cases run
      exact hkeeps
    · rw [if_pos hret] at run
      cases run
      exact hkeeps
  | @write _ _ v ret _ valid run =>
    rw [sfsFsWriteInode, decide_eq_true valid.1, Run.assert_true, Run.pure_bind'] at run
    obtain ⟨ret', t, hcache, run⟩ := Run.bind_eq_done.mp run
    obtain ⟨hkeeps, hdone⟩ := (cacheInodeBlock_loadedFirst h (hin _ valid) hassigns.int
      fun _ => hassigns.evict v ret rfl).post hcache
    by_cases hret : ret' = 0
    · obtain ⟨hcached, hfailed⟩ := hdone hret
      rw [if_neg (not_not.mpr hret)] at run
      cases run
      have hgood := hfailed (hassigns.hit v 0 rfl)
      show LoadedFirst start (t.setCachedInode v) (fs.loadFailed (inodeBlock v.inumber) failed) _
      rw [hgood] at hkeeps ⊢
      refine hkeeps.setCachedInode ?_
      rw [hcached, hkeeps.superblock, ← h.superblock]
      exact hin _ valid
    · rw [if_pos hret] at run
      cases run
      exact hkeeps

theorem syncSuperblock_disk {ret : ℤ} (h : syncSuperblock.run fs = .done ret fs') :
    fs'.disk = (fs.disk.pwrite (fs.host.faults 0) (0 * 512)
      (Block.zero.setSuperblock fs.superblock)).2 := by
  obtain ⟨_, _, hget, h⟩ := Run.bind_eq_done.mp h
  cases hget
  obtain ⟨_, _, hwrite, h⟩ := Run.bind_eq_done.mp h
  rw [blockWrite_run] at hwrite
  cases hwrite
  split at h <;> cases h <;> rfl

/-- What `sfs_fs_close` changes, beside the superblock on the disk. -/
theorem sfsFsClose_block (h : LoadedFirst start fs failed io) {ret : ℤ}
    (hclose : sfsFsClose.run fs = .done ret fs') {m : ℕ} (hm0 : m ≠ 0)
    (hm : 512 * (m + 1) ≤ start.disk.size)
    (hout : ∀ n, CacheIo.writeBack n ∈ io ++ fs.flushIo → n.toNat ≠ m) :
    fs'.disk.block m = start.disk.block m := by
  have hflush := h.flush.block m hm hout
  have hsize := Nat.le_trans hm h.flush.size
  obtain ⟨ret', t, hback, hclose⟩ := Run.bind_eq_done.mp hclose
  rw [writeBack_run_flush] at hback
  cases hback
  by_cases hdone : fs.flush.1 = 512
  · rw [if_pos hdone, if_neg (by decide)] at hclose
    obtain ⟨ret'', u, hsync, hclose⟩ := Run.bind_eq_done.mp hclose
    cases hclose
    rw [syncSuperblock_disk hsync,
      Disk.block_pwrite_of_lt (n := 0) (by decide) _ _ hsize (Ne.symm hm0)]
    exact hflush
  · rw [if_neg hdone, if_pos (by decide)] at hclose
    cases hclose
    exact hflush

end Calls

/-- **Write-backs only ever hit the inode table**, if the dirty flag was clear in the
memory of the handle and the calls meet the condition.  On whatever disk is opened, every
block that the cache writes back up to any point of the run, and in an `sfs_fs_close`
there, is a block of the table and was loaded before; and a block that it does not write
back is what it was, in particular the superblock until the close. -/
theorem write_backs_hit_the_table {disk fs fs' : Filesystem F} {memory : HandleMemory}
    {maybeFormat failed : Bool} {tr : List CacheEvent} {io : List CacheIo}
    (hopen : (sfsFsOpenDisk maybeFormat).run (disk.unopened memory) = .done true fs)
    (hclean : memory.inodeCache.dirty = false)
    (hinodes : fs.superblock.inodes.toNat ≤ 3 * fs.superblock.inodeTableBlocks.toNat)
    (hexec : Exec (fun s e t => AssignsLoaded s.1 e ∧ LoggedCall s e t) ((fs, false), []) tr
      ((fs', failed), io)) :
    WriteBacksLoaded fs.superblock (io ++ fs'.flushIo) ∧
    (∀ m : ℕ, 512 * (m + 1) ≤ fs.disk.size →
      (m = 0 ∨ ∀ n, CacheIo.writeBack n ∈ io → n.toNat ≠ m) →
      fs'.disk.block m = fs.disk.block m) ∧
    ∀ (ret : ℤ) (closed : Filesystem F), sfsFsClose.run fs' = .done ret closed →
      ∀ m : ℕ, m ≠ 0 → 512 * (m + 1) ≤ fs.disk.size →
        (∀ n, CacheIo.writeBack n ∈ io ++ fs'.flushIo → n.toNat ≠ m) →
        closed.disk.block m = fs.disk.block m := by
  have hcache := sfsFsOpenDisk_inodeCache hopen rfl
  have hcached : fs.cachedBlock = 0 := by
    rw [Filesystem.cachedBlock, hcache]
    rfl
  have hstart : LoadedFirst fs fs false [] := 
    LoadedFirst.opened hcached (by rw [hcache]; exact hclean)
  have hend : LoadedFirst fs fs' failed io :=
    hexec.invariant (I := fun s => LoadedFirst fs s.1.1 s.1.2 s.2)
      (fun s e t hs hstep => loggedCall_loadedFirst hs hinodes hstep.1 hstep.2) hstart
  refine ⟨hend.flush.log, fun m hm hout => hend.block m hm ?_,
    fun ret closed hclose m hm0 hm hout => sfsFsClose_block hend hclose hm0 hm hout⟩
  rcases hout with rfl | hout
  · intro n hn hzero
    rw [UInt64.toNat_inj.mp (show n.toNat = (0 : UInt64).toNat from hzero)] at hn
    exact hend.log.not_mem_zero hn
  · exact hout

/-- Memory with the dirty flag set or clear. -/
def memoryWith (dirty : Bool) : HandleMemory where
  superblock := fullTable
  inodeCache := ⟨dirty, 0, Block.zero⟩

/-- The handle that `sfs_fs_open_disk` makes in it on a small disk. -/
def openedWith (dirty : Bool) : Filesystem Unit :=
  ((Filesystem.blank fullTable ()).unopened (memoryWith dirty)).opened

theorem sfsFsOpenDisk_memoryWith (dirty : Bool) :
    (sfsFsOpenDisk false).run ((Filesystem.blank fullTable ()).unopened (memoryWith dirty)) =
      .done true (openedWith dirty) := by
  have himage : Image (Filesystem.blank fullTable ()) [3] [] [] := image_blank rfl rfl rfl rfl
  have hholds := himage.state.reliable.holds himage.blocks_pos'
  have hformatted :
      FormattedDisk ((Filesystem.blank fullTable ()).unopened (memoryWith dirty)) := by
    refine ⟨himage.state.reliable.noFaults, hholds, ?_⟩
    show ((Filesystem.blank fullTable ()).disk.block 0).superblock.signature = _
    rw [show ((Filesystem.blank fullTable ()).disk.block 0).superblock = fullTable from
      Filesystem.Synced.of_synced _]
    rfl
  exact sfsFsOpenDisk_run hformatted rfl false

theorem openedWith_superblock (dirty : Bool) : (openedWith dirty).superblock = fullTable :=
  Filesystem.Synced.of_synced _

theorem validInumber_openedWith (dirty : Bool) :
    (openedWith dirty).superblock.ValidInumber 2 := by
  rw [openedWith_superblock]
  constructor <;> decide

/-- A first read of the inode 2. -/
theorem sfsFsReadInode_openedWith (dirty : Bool) :
    ∃ v, (sfsFsReadInode 2).run (openedWith dirty) =
      .done (some v) ((openedWith dirty).flush.2.reloaded false 1) := by
  have hblock : inodeBlock 2 = 1 := by decide
  have hmiss : (openedWith dirty).cachedBlock ≠ 1 := by
    cases dirty <;> decide
  have hflush : (openedWith dirty).flush.1 = 512 := by
    cases dirty <;> decide
  have hload : ((openedWith dirty).flush.2.load 1).1 = 512 := by
    cases dirty <;> decide
  refine ⟨((openedWith dirty).flush.2.reloaded false 1).inodeCache.data.inode (inodeSlot 2), ?_⟩
  rw [sfsFsReadInode, decide_eq_true (by decide), Run.assert_true, Run.pure_bind', Run.run_bind,
    hblock, cacheInodeBlock_of_miss hmiss hflush, if_pos hload, Run.andThen_done,
    if_neg (by simp)]
  rfl

/-- An inode is written and the disk is closed. -/
def writeAndClose : Fs Unit (ℤ × UInt64 × Bool × ℤ) := do
  let ret ← sfsFsWriteInode { emptyTwo with size := 7 }
  let fs ← get
  let closed ← sfsFsClose
  return (ret, fs.cachedBlock, fs.inodeCache.dirty, closed)

/-- In memory with the flag clear the write loads the block of the inode, and the close writes
it back. -/
theorem write_backs_hit_the_table_fullTable :
    ∃ fs' closed : Filesystem Unit,
      Exec (fun s e t => AssignsLoaded s.1 e ∧ LoggedCall s e t) ((openedWith false, false), [])
        [.write { emptyTwo with size := 7 } 0] ((fs', false), [.load 1]) ∧
      sfsFsClose.run fs' = .done 0 closed ∧
      WriteBacksLoaded (openedWith false).superblock [.load 1, .writeBack 1] ∧
      ∀ m : ℕ, m ≠ 0 → m ≠ 1 → 512 * (m + 1) ≤ (openedWith false).disk.size →
        closed.disk.block m = (openedWith false).disk.block m := by
  have hvalue : (writeAndClose.run (openedWith false)).value = some (0, 1, true, 0) := by
    decide +kernel
  obtain ⟨last, hrun⟩ := Outcome.exists_of_value hvalue
  obtain ⟨ret, fs', hwrite, hrun⟩ := Run.bind_eq_done.mp hrun
  obtain ⟨_, _, hget, hrun⟩ := Run.bind_eq_done.mp hrun
  obtain ⟨rfl, rfl⟩ := Outcome.done.inj hget
  obtain ⟨ret', closed, hclose, hrun⟩ := Run.bind_eq_done.mp hrun
  obtain ⟨hresult, rfl⟩ := Outcome.done.inj hrun
  simp only [Prod.mk.injEq] at hresult
  obtain ⟨rfl, hcached, hdirty, rfl⟩ := hresult
  have hassigns : AssignsLoaded (openedWith false, false)
      (.write { emptyTwo with size := 7 } 0) :=
    ⟨by decide, fun _ _ _ _ => rfl, fun _ _ _ hdirty => absurd hdirty (by decide)⟩
  have hcall := LoggedCall.mk [] (CacheCall.write false
    (show (openedWith false).superblock.ValidInumber { emptyTwo with size := 7 }.inumber from
      validInumber_openedWith false) hwrite)
  -- the block of the inode is loaded, and nothing was dirty before
  have hio : [] ++ (openedWith false).accessIo (inodeBlock 2) = [.load 1] := by
    rw [Filesystem.accessIo, if_neg (by decide), if_pos (by decide), Filesystem.flushIo,
      if_neg (by decide), Filesystem.loadIo, if_pos (by decide)]
    rfl
  have hfailed : (openedWith false).loadFailed (inodeBlock 2) false = false := by decide
  have hexec : Exec (fun s e t => AssignsLoaded s.1 e ∧ LoggedCall s e t)
      ((openedWith false, false), []) [.write { emptyTwo with size := 7 } 0]
      ((fs', false), [.load 1]) := by
    refine .cons ⟨hassigns, ?_⟩ (.nil _)
    rw [← hio, ← hfailed]
    exact hcall
  have hflush : fs'.flushIo = [.writeBack 1] := by
    rw [Filesystem.flushIo, if_pos hdirty, hcached]
  obtain ⟨hlog, -, hkeeps⟩ := write_backs_hit_the_table (sfsFsOpenDisk_memoryWith false) rfl
    (by rw [openedWith_superblock]; decide) hexec
  rw [hflush] at hlog hkeeps
  refine ⟨fs', closed, hexec, hclose, hlog, fun m hm0 hm1 hm =>
    hkeeps 0 closed hclose m hm0 hm fun n hn => ?_⟩
  obtain rfl : n = 1 := by simpa using hn
  exact Ne.symm hm1

/-- **With the flag set, the first read overwrites the superblock.** -/
theorem opened_cache_overwrites_superblock :
    ∃ (fs' : Filesystem Unit) (v : Inode),
      (sfsFsOpenDisk false).run ((Filesystem.blank fullTable ()).unopened (memoryWith true)) =
        .done true (openedWith true) ∧
      (openedWith true).superblock.ValidInumber 2 ∧
      (sfsFsReadInode 2).run (openedWith true) = .done (some v) fs' ∧
      ¬ WriteBacksLoaded (openedWith true).superblock
        ((openedWith true).accessIo (inodeBlock 2)) ∧
      ((openedWith true).disk.block 0).superblock = fullTable ∧
      fs'.disk.block 0 = Block.zero := by
  obtain ⟨v, run⟩ := sfsFsReadInode_openedWith true
  refine ⟨_, v, sfsFsOpenDisk_memoryWith true, validInumber_openedWith true, run, fun h => ?_,
    Filesystem.Synced.of_synced _, ?_⟩
  · refine h.not_mem_zero ?_
    rw [Filesystem.accessIo, if_neg (by decide)]
    exact List.mem_append_left _ List.mem_cons_self
  · show (openedWith true).flush.2.disk.block 0 = Block.zero
    have hflush : (openedWith true).flush.2.disk =
        (openedWith true).disk.setBlock 0 Block.zero := rfl
    rw [hflush, Disk.block_setBlock]

end SimpleFileSystem
