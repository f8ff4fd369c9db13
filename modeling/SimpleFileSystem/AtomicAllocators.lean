import SimpleFileSystem.FreeFaults

/-!
# Calls of the allocators that fail

The two functions on the free inodes first bring a block of the table into the cache, which
is a write-back and a load (`cacheCalls`).  A write-back that fails loses nothing, but a load
that fails leaves the cache with the number of the block and what it got of it, and if a free
inode is in that block, that is what the handle sees of it (`LoadSpoils`).  After that the
head in memory is moved, and whatever call fails then comes too late: the superblock, and in
`sfs_fs_inode_deallocate` all the frees of the blocks.

`allocators_are_atomic_iff` has the exact condition for each of the four functions;
`allocator_loses_a_block` is a call that misses it.
-/

open ByteCodec

namespace SimpleFileSystem

variable {F : Type}

/-! ## Bringing a block of inodes into the cache -/

/-- The calls of the host that bringing a block into the cache takes. -/
def Filesystem.cacheCalls (fs : Filesystem F) (n : UInt64) : ℕ :=
  if fs.cachedBlock = n then 0 else if fs.inodeCache.dirty then 2 else 1

/-- **A load that spoils the free inodes**: the load of the block `n` into the cache is made
and fails, and one of the free inodes that the handle now looks for in the cache has another
number there, or another next pointer. -/
def Filesystem.LoadSpoils (fs : Filesystem F) (L : List UInt64) (n : UInt64) : Prop :=
  fs.cachedBlock ≠ n ∧ (fs.inodeCache.dirty = true → (fs.host.faults 0).full = true) ∧
    (fs.host.faults (fs.cacheCalls n - 1)).full = false ∧
    ∃ k ∈ L, inodeBlock k = ofCInt (toCInt n) ∧
      ¬ (((fs.flush.2.load n).2.inode (inodeSlot k)).inumber = k ∧
        ((fs.flush.2.load n).2.inode (inodeSlot k)).size = fs.nextInode k)

/-- What the inode `k` needs to be in the cache, and what else there is then. -/
structure Cached (fs : Filesystem F) (k : UInt64) (fs' : Filesystem F) : Prop where
  superblock : fs'.superblock = fs.superblock
  faults : fs'.host.faults = fun i => fs.host.faults (i + fs.cacheCalls (inodeBlock k))
  size : fs'.disk.size = fs.disk.size
  block : ∀ m, fs.superblock.inRange m = true → fs'.disk.block m.toNat = fs.disk.block m.toNat
  inode : fs'.inodeCache.data.inode (inodeSlot k) = fs.logicalInode k

section Cache

variable {fs : Filesystem F} {nodes L : List UInt64} {k : UInt64}

/-- The write-back is done if its call of the host is. -/
theorem flush_eq_iff (h : CoherentHandle fs) :
    fs.flush.1 = 512 ↔ (fs.inodeCache.dirty = true → (fs.host.faults 0).full = true) := by
  cases hdirty : fs.inodeCache.dirty with
  | false =>
    rw [flush_of_clean hdirty]
    exact ⟨fun _ hd => absurd hd Bool.false_ne_true, fun _ => rfl⟩
  | true =>
    have hheld : fs.disk.Holds fs.cachedBlock :=
      h.holds ((h.faithful fun _ => True).inTable_of_dirty hdirty)
    rw [Filesystem.flush, if_pos hdirty]
    dsimp only
    cases hfull : (fs.host.faults 0).full with
    | false =>
      exact ⟨fun hdone => absurd hdone (Disk.pwrite_of_cut hfull _ _),
        fun hd => absurd (hd rfl) Bool.false_ne_true⟩
    | true =>
      rw [Disk.pwrite_of_full' hheld hfull]
      exact ⟨fun _ _ => rfl, fun _ => rfl⟩

/-- The write-back leaves the data blocks alone. -/
theorem block_flush (h : CoherentHandle fs) {m : UInt64} (hm : fs.superblock.inRange m = true) :
    fs.flush.2.disk.block m.toNat = fs.disk.block m.toNat := by
  cases hdirty : fs.inodeCache.dirty with
  | false => rw [flush_of_clean hdirty]
  | true =>
    have hin := (h.faithful fun _ => True).inTable_of_dirty hdirty
    rw [Filesystem.flush, if_pos hdirty]
    refine Disk.block_pwrite_of_ne (h.holds hin) _ _ (toNat_ne_of_ne ?_)
    rintro rfl
    exact Superblock.notInTable_of_inRange h.table.inDisk hm hin

theorem size_flush (h : CoherentHandle fs) : fs.flush.2.disk.size = fs.disk.size := by
  cases hdirty : fs.inodeCache.dirty with
  | false => rw [flush_of_clean hdirty]
  | true =>
    have hin := (h.faithful fun _ => True).inTable_of_dirty hdirty
    rw [Filesystem.flush, if_pos hdirty]
    exact Disk.size_pwrite (h.holds hin) _ _

theorem faults_flush (fs : Filesystem F) :
    fs.flush.2.host.faults =
      fun i => fs.host.faults (i + if fs.inodeCache.dirty then 1 else 0) := by
  cases hdirty : fs.inodeCache.dirty with
  | false => rw [flush_of_clean hdirty]; rfl
  | true => rw [Filesystem.flush, if_pos hdirty]; rfl

/-- **A write-back that fails** loses nothing. -/
theorem FreeLists.same_of_stuck (h : FreeLists fs nodes L) (hstuck : fs.flush.1 ≠ 512) :
    SameLists fs nodes L fs.flush.2 := by
  have hfaithful := (h.handle.faithful fun _ => True).flush_of_stuck h.handle hstuck
  refine h.same (flush_superblock fs) (fun n hn => block_flush h.handle (h.node_inRange hn))
    fun j hj => ?_
  have hvalid : fs.flush.2.superblock.ValidInumber j := by
    rw [flush_superblock]
    exact h.list.valid j hj
  rw [Filesystem.nextInode, hfaithful.logicalInode hvalid]
  exact ⟨h.list.own j hj, rfl⟩

/-- What the handle sees of an inode after a load, however it ends. -/
theorem logicalInode_reloaded (h : CoherentHandle fs) (hdone : fs.flush.1 = 512) (dirty : Bool)
    (n : UInt64) (hk : fs.superblock.ValidInumber k) :
    (fs.flush.2.reloaded dirty n).logicalInode k =
      if ofCInt (toCInt n) = inodeBlock k then (fs.flush.2.load n).2.inode (inodeSlot k)
      else fs.logicalInode k := by
  have hwritten := (h.faithful fun _ => True).written h hdone
  have hvalid : fs.flush.2.superblock.ValidInumber k := by
    rw [flush_superblock]
    exact hk
  rw [Filesystem.logicalInode, Filesystem.tableBlock]
  show Block.inode (if ofCInt (toCInt n) = inodeBlock k then (fs.flush.2.load n).2
    else fs.flush.2.disk.block (inodeBlock k).toNat) (inodeSlot k) = _
  split
  · rfl
  · exact hwritten.onDisk k hvalid

theorem Filesystem.LoadSpoils.exists_cut {n : UInt64} (h : fs.LoadSpoils L n) :
    ∃ i < fs.cacheCalls n, (fs.host.faults i).full = false := by
  refine ⟨_, ?_, h.2.2.1⟩
  rw [Filesystem.cacheCalls, if_neg h.1]
  split
  · exact Nat.one_lt_two
  · exact Nat.one_pos

theorem Cached.holds_zero {fs' : Filesystem F} (hcached : Cached fs k fs')
    (h : FreeLists fs nodes L) : fs'.disk.Holds 0 := by
  have hheld := h.poolOk.holds_zero
  exact ⟨by rw [hcached.size]; exact hheld.le_size, by rw [hcached.size]; exact hheld.addressable⟩

/-- **A load that fails** loses the free inodes that it is to bring. -/
theorem FreeLists.same_of_reloaded_iff (h : FreeLists fs nodes L) (hdone : fs.flush.1 = 512)
    (dirty : Bool) (n : UInt64) :
    SameLists fs nodes L (fs.flush.2.reloaded dirty n) ↔
      ∀ j ∈ L, inodeBlock j = ofCInt (toCInt n) →
        ((fs.flush.2.load n).2.inode (inodeSlot j)).inumber = j ∧
          ((fs.flush.2.load n).2.inode (inodeSlot j)).size = fs.nextInode j := by
  have hseen := fun j hj => logicalInode_reloaded h.handle hdone dirty n (h.list.valid j hj)
  constructor
  · intro hsame j hj hblock
    have hown := hsame.2.own j hj
    have hnext := h.list.linked.next_unique hsame.2.linked j hj
    rw [Filesystem.nextInode] at hnext
    rw [hseen j hj, if_pos hblock.symm] at hown hnext
    exact ⟨hown, hnext⟩
  · intro hinodes
    refine h.same (flush_superblock fs) (fun m hm => block_flush h.handle (h.node_inRange hm))
      fun j hj => ?_
    rw [Filesystem.nextInode, hseen j hj]
    split
    · next hblock => exact hinodes j hj hblock.symm
    · exact ⟨h.list.own j hj, rfl⟩

/-- **Bringing the block of an inode into the cache**, on any host. -/
theorem cacheInodeBlock_ends (clearDirty : Bool) (h : FreeLists fs nodes L)
    (hk : fs.superblock.ValidInumber k) :
    Run.Ensures (cacheInodeBlock clearDirty (inodeBlock k)) fs fun ret fs' =>
      ret = 0 ∧ (∀ i < fs.cacheCalls (inodeBlock k), (fs.host.faults i).full = true) ∧
        Cached fs k fs' ∨
      ret = -1 ∧ (∃ i < fs.cacheCalls (inodeBlock k), (fs.host.faults i).full = false) ∧
        (SameLists fs nodes L fs' ↔ ¬ fs.LoadSpoils L (inodeBlock k)) := by
  set n := inodeBlock k with hn
  by_cases hhit : fs.cachedBlock = n
  · have hcalls : fs.cacheCalls n = 0 := if_pos hhit
    refine Run.Ensures.of_eq (cacheInodeBlock_of_hit hhit)
      (Or.inl ⟨rfl, fun i hi => ?_, rfl, ?_, rfl,
      fun _ _ => rfl, ?_⟩)
    · exact absurd (hcalls ▸ hi) (Nat.not_lt_zero i)
    · rw [← hn, hcalls]
      rfl
    · rw [Filesystem.logicalInode, Filesystem.tableBlock, if_pos hhit]
  have hflush := flush_eq_iff h.handle
  by_cases hdone : fs.flush.1 = 512
  swap
  · have hdirty : fs.inodeCache.dirty = true := by
      by_contra hd
      exact hdone (hflush.mpr fun hd' => absurd hd' hd)
    have hcut : (fs.host.faults 0).full = false := by
      by_contra hfull
      exact hdone (hflush.mpr fun _ => (Bool.not_eq_false _).mp hfull)
    have hcalls : fs.cacheCalls n = 2 := by rw [Filesystem.cacheCalls, if_neg hhit, if_pos hdirty]
    refine Run.Ensures.of_eq (cacheInodeBlock_of_stuck hhit hdone) (Or.inr ⟨rfl, ⟨0, ?_, hcut⟩, ?_⟩)
    · rw [hcalls]
      exact Nat.two_pos
    · refine ⟨fun _ hspoils => ?_, fun _ => h.same_of_stuck hdone⟩
      exact Bool.false_ne_true (hcut.symm.trans (hspoils.2.1 hdirty))
  have hcalls : fs.cacheCalls n - 1 + 1 = fs.cacheCalls n ∧
      ∀ i, fs.flush.2.host.faults i = fs.host.faults (i + (fs.cacheCalls n - 1)) := by
    rw [Filesystem.cacheCalls, if_neg hhit, faults_flush]
    split
    · exact ⟨rfl, fun i => rfl⟩
    · exact ⟨rfl, fun i => rfl⟩
  have hload : fs.flush.2.host.faults 0 = fs.host.faults (fs.cacheCalls n - 1) := by
    rw [hcalls.2, Nat.zero_add]
  have hrun : (cacheInodeBlock clearDirty n).run fs = _ := cacheInodeBlock_of_miss hhit hdone
  cases hread : (fs.host.faults (fs.cacheCalls n - 1)).full with
  | false =>
    have hfailed : (fs.flush.2.load n).1 ≠ 512 := by
      rw [Filesystem.load, hload]
      exact Disk.pread_of_cut hread _ _
    rw [if_neg hfailed] at hrun
    refine Run.Ensures.of_eq hrun (Or.inr ⟨rfl, ⟨_, by omega, hread⟩, ?_⟩)
    rw [h.same_of_reloaded_iff hdone]
    constructor
    · rintro hinodes ⟨-, -, -, j, hj, hblock, hspoilt⟩
      exact hspoilt (hinodes j hj hblock)
    · intro hspoils j hj hblock
      by_contra hspoilt
      exact hspoils ⟨hhit, hflush.mp hdone, hread, j, hj, hblock, hspoilt⟩
  | true =>
    have hheld : fs.flush.2.disk.Holds n := by
      have hheld := h.handle.holds (h.handle.table.inTable hk)
      exact ⟨by rw [size_flush h.handle]; exact hheld.le_size,
        by rw [size_flush h.handle]; exact hheld.addressable⟩
    have hdata : fs.flush.2.load n = (512, fs.flush.2.disk.block n.toNat) := by
      rw [Filesystem.load, hload, Disk.pread_of_full' hheld hread]
      rfl
    rw [hdata, if_pos rfl] at hrun
    have hfull : ∀ i < fs.cacheCalls n, (fs.host.faults i).full = true := by
      intro i hi
      by_cases hlast : i = fs.cacheCalls n - 1
      · rw [hlast]
        exact hread
      -- there is a call before the load only if the cache is dirty
      have hdirty : fs.inodeCache.dirty = true := by
        by_contra hd
        rw [Filesystem.cacheCalls, if_neg hhit, if_neg hd] at hi hlast
        omega
      have hi0 : i = 0 := by
        rw [Filesystem.cacheCalls, if_neg hhit, if_pos hdirty] at hi hlast
        omega
      rw [hi0]
      exact hflush.mp hdone hdirty
    refine Run.Ensures.of_eq hrun (Or.inl ⟨rfl, hfull, flush_superblock fs, ?_, size_flush h.handle,
      fun m hm => block_flush h.handle hm, ?_⟩)
    · funext i
      show fs.flush.2.host.faults (i + 1) = _
      rw [hcalls.2, Nat.add_right_comm, Nat.add_assoc, hcalls.1]
    · have hwritten := (h.handle.faithful fun _ => True).written h.handle hdone
      show Block.inode (fs.flush.2.load n).2 (inodeSlot k) = _
      rw [hdata]
      refine hwritten.onDisk k ?_
      rw [flush_superblock]
      exact hk

end Cache

/-! ## Allocating an inode -/

/-- **A call of `sfs_fs_inode_allocate` that tears the lists**: the load of the first free
inode spoils it, or another one, or the inode is read and the write of the superblock
fails. -/
def Filesystem.InodeAllocateTears (fs : Filesystem F) (L : List UInt64) : Prop :=
  fs.superblock.freeInodeHead ≠ 0 ∧
    (fs.LoadSpoils L (inodeBlock fs.superblock.freeInodeHead) ∨
      (∀ i < fs.cacheCalls (inodeBlock fs.superblock.freeInodeHead),
        (fs.host.faults i).full = true) ∧
      (fs.host.faults (fs.cacheCalls (inodeBlock fs.superblock.freeInodeHead))).full = false)

/-- **A call of `sfs_fs_inode_deallocate` that tears the lists**: the load of the block of
the inode spoils a free one, or the inode is written and a call of the host after that
fails, which is the write of the superblock or one of those that free the blocks. -/
def Filesystem.InodeDeallocateTears (fs : Filesystem F) (nodes L : List UInt64) (v : Inode) :
    Prop :=
  fs.LoadSpoils L (inodeBlock v.inumber) ∨
    (∀ i < fs.cacheCalls (inodeBlock v.inumber), (fs.host.faults i).full = true) ∧
    ∃ i < 1 + callsToFree (v.direct.filter (· ≠ 0)).length (fs.disk.holes nodes),
      (fs.host.faults (i + fs.cacheCalls (inodeBlock v.inumber))).full = false

section Inodes

variable {fs : Filesystem F} {nodes L : List UInt64} {k : UInt64} {v : Inode}

/-- **`sfs_fs_inode_allocate` fails cleanly** unless it tears the lists. -/
theorem inodeAllocate_failsCleanly_iff (h : FreeLists fs nodes L) :
    FailsCleanly fs nodes L sfsFsInodeAllocate none ↔ ¬ fs.InodeAllocateTears L := by
  cases L with
  | nil =>
    have h0 : fs.superblock.freeInodeHead = 0 := h.list.linked
    rw [failsCleanly_iff (sfsFsInodeAllocate_of_head_eq_zero h0)]
    exact ⟨fun _ htears => htears.1 h0, fun _ _ => h.same_of_blocks rfl rfl fun _ _ => rfl⟩
  | cons k L =>
    have hhead : fs.superblock.freeInodeHead = k := h.list.linked.1
    have hk := h.list.valid k List.mem_cons_self
    have hk0 : k ≠ 0 := Ne.symm (UInt64.ne_of_lt hk.1)
    have hread : (sfsFsReadInode k : Fs F (Option Inode)) = do
        if (← cacheInodeBlock true (inodeBlock k)) ≠ 0 then return none
        let fs ← get
        return some (Block.inode fs.inodeCache.data (inodeSlot k)) := by
      rw [sfsFsReadInode, decide_eq_true hk.1, Run.assert_true, Run.pure_bind']
    rw [Filesystem.InodeAllocateTears, hhead]
    obtain ⟨ret, fs₁, hcache, hends⟩ := cacheInodeBlock_ends true h hk
    rcases hends with ⟨rfl, hfull, hcached⟩ | ⟨rfl, ⟨i, hi, hcut⟩, hsame⟩
    · set w := Block.inode fs₁.inodeCache.data (inodeSlot k) with hw
      set fs₂ : Filesystem F :=
        { fs₁ with superblock := { fs₁.superblock with freeInodeHead := w.size } } with hfs₂
      have hrun : (sfsFsInodeAllocate : Fs F (Option Inode)).run fs = (do
          if (← syncSuperblock) ≠ 0 then return none
          return some w : Fs F (Option Inode)).run fs₂ := by
        rw [sfsFsInodeAllocate, Run.run_bind, Run.run_get, Run.andThen_done, hhead, if_neg hk0,
          hread, Run.run_bind, Run.run_bind, hcache, Run.andThen_done, if_neg (by simp),
          Run.run_bind, Run.run_get, Run.andThen_done, Run.run_pure, Run.andThen_done]
        rfl
      have hspoils : ¬ fs.LoadSpoils (k :: L) (inodeBlock k) := fun hspoils => by
        obtain ⟨i, hi, hcut⟩ := hspoils.exists_cut
        exact Bool.false_ne_true (hcut.symm.trans (hfull i hi))
      have hsync : fs₂.host.faults 0 = fs.host.faults (fs.cacheCalls (inodeBlock k)) := by
        exact (congrFun hcached.faults 0).trans (by rw [Nat.zero_add])
      have hheld : fs₂.disk.Holds 0 := hcached.holds_zero h
      rw [Run.run_bind] at hrun
      cases hwrite : (fs.host.faults (fs.cacheCalls (inodeBlock k))).full with
      | true =>
        rw [syncSuperblock_of_full hheld (hsync ▸ hwrite), Run.andThen_done, if_neg (by simp),
          Run.run_pure] at hrun
        rw [failsCleanly_iff hrun]
        refine ⟨fun _ htears => ?_, fun _ hfailed => absurd hfailed (Option.some_ne_none _)⟩
        rcases htears.2 with hspoils' | ⟨-, hcut⟩
        · exact hspoils hspoils'
        · exact Bool.false_ne_true hcut.symm
      | false =>
        rw [syncSuperblock_of_cut (hsync ▸ hwrite), Run.andThen_done, if_pos (by decide),
          Run.run_pure] at hrun
        rw [failsCleanly_iff hrun]
        refine ⟨fun hclean => absurd (hclean rfl) (not_sameLists_of_inodeHead h ?_), fun htears =>
          absurd ⟨hk0, Or.inr ⟨hfull, rfl⟩⟩ htears⟩
        show w.size ≠ fs.superblock.freeInodeHead
        rw [hhead, hw, hcached.inode]
        exact h.list.linked.next_ne
    · have hrun : (sfsFsInodeAllocate : Fs F (Option Inode)).run fs = .done none fs₁ := by
        rw [sfsFsInodeAllocate, Run.run_bind, Run.run_get, Run.andThen_done, hhead, if_neg hk0,
          hread, Run.run_bind, Run.run_bind, hcache, Run.andThen_done, if_pos (by decide),
          Run.run_pure, Run.andThen_done, Run.run_pure]
      rw [failsCleanly_iff hrun]
      constructor
      · rintro hclean ⟨-, hspoils | ⟨hfull, -⟩⟩
        · exact hsame.mp (hclean rfl) hspoils
        · exact Bool.false_ne_true (hcut.symm.trans (hfull i hi))
      · intro htears _
        exact hsame.mpr fun hspoils => htears ⟨hk0, Or.inl hspoils⟩

/-- What follows the write of a freed inode: from here on every failure is too late. -/
theorem deallocated_failsCleanly_iff {fs₁ fs₂ : Filesystem F} (h : FreeLists fs nodes L)
    (hv : fs.MayDeallocate v) (hcached : Cached fs v.inumber fs₁)
    (hrun : (sfsFsInodeDeallocate v : Fs F ℤ).run fs = (do
      if (← syncSuperblock) ≠ 0 then return -1
      freePointers v.direct : Fs F ℤ).run fs₂)
    (hdisk : fs₂.disk = fs₁.disk) (hhost : fs₂.host = fs₁.host)
    (hsuper : fs₂.superblock = { fs₁.superblock with freeInodeHead := v.inumber }) :
    FailsCleanly fs nodes L (sfsFsInodeDeallocate v) (-1) ↔
      ¬ ∃ i < 1 + callsToFree (v.direct.filter (· ≠ 0)).length (fs.disk.holes nodes),
        (fs.host.faults (i + fs.cacheCalls (inodeBlock v.inumber))).full = false := by
  have hfaults : ∀ i, fs₂.host.faults i =
      fs.host.faults (i + fs.cacheCalls (inodeBlock v.inumber)) := by
    intro i
    rw [hhost, hcached.faults]
  have hheld : fs₂.disk.Holds 0 := hdisk ▸ hcached.holds_zero h
  -- the list has another head, whatever is done after that
  have hhead : v.inumber ≠ fs.superblock.freeInodeHead := by
    intro he
    cases L with
    | nil => exact UInt64.ne_of_lt hv.inUse.1.1 (he.trans h.list.linked).symm
    | cons k L => exact hv.inUse.2 _ h.list (he.trans h.list.linked.1 ▸ List.mem_cons_self)
  rw [Run.run_bind] at hrun
  cases hsync : (fs₂.host.faults 0).full with
  | false =>
    rw [syncSuperblock_of_cut hsync, Run.andThen_done, if_pos (by decide), Run.run_pure] at hrun
    rw [failsCleanly_iff hrun]
    refine ⟨fun hclean => absurd (hclean rfl) (not_sameLists_of_inodeHead h ?_),
      fun hfull => absurd ⟨0, by omega, hfaults 0 ▸ hsync⟩ hfull⟩
    show fs₂.superblock.freeInodeHead ≠ _
    rw [hsuper]
    exact hhead
  | true =>
    rw [syncSuperblock_of_full hheld hsync, Run.andThen_done, if_neg (by simp)] at hrun
    set fs₃ := fs₂.called.synced with hfs₃
    have hblock : ∀ m, fs.superblock.inRange m = true →
        fs₃.disk.block m.toNat = fs.disk.block m.toNat := by
      intro m hm
      have hm0 := Superblock.ne_zero_of_inRange h.poolOk.table hm
      have hsame : fs₃.disk.block m.toNat = fs₂.called.disk.block m.toNat :=
        Filesystem.block_writeBlock_of_ne _ hheld (toNat_ne_of_ne hm0.symm)
      rw [hsame]
      show fs₂.disk.block m.toNat = _
      rw [hdisk]
      exact hcached.block m hm
    have hnodes : ∀ m ∈ nodes, fs₃.disk.block m.toNat = fs.disk.block m.toNat := fun m hm =>
      hblock m (h.node_inRange hm)
    have hsuper₃ : fs₃.superblock = { fs.superblock with freeInodeHead := v.inumber } := by
      rw [← hcached.superblock]
      exact hsuper
    have hsize : fs₃.disk.size = fs.disk.size := by
      have hsame : fs₃.disk.size = fs₂.called.disk.size := Filesystem.size_writeBlock _ hheld
      rw [hsame, ← hcached.size, ← hdisk]
      rfl
    have hrange : fs₃.superblock.inRange = fs.superblock.inRange :=
      Superblock.inRange_congr (by rw [hsuper₃]) (by rw [hsuper₃])
    have hpool : poolOf fs₃.disk nodes = poolOf fs.disk nodes := poolOf_congr hnodes
    have hok : PoolOk fs₃ nodes := by
      have hok := h.poolOk
      refine ⟨?_, ?_, ?_, h.chain.congr (by rw [hsuper₃]) (by rw [hsuper₃]) hnodes, ?_⟩
      · rw [hsuper₃, hsize]
        exact hok.covers
      · rw [hsize]
        exact hok.addressable
      · rw [hsuper₃]
        exact hok.table
      · rw [hpool, hrange]
        exact h.data
    obtain ⟨ret, fs', hfree, hends⟩ := freePointers_ends hok hv.distinct
      (fun b hb => by rw [hrange]; exact (hv.blocks b hb).1)
      (fun b hb => by rw [hpool]; exact (hv.blocks b hb).2 nodes h.chain)
    have hkeeps := keeps_inodeHead_freePointers v.direct fs₃ ret fs' hfree
    rw [hfree] at hrun
    rw [failsCleanly_iff hrun]
    have hfaults₃ : ∀ i, fs₃.host.faults i =
        fs.host.faults (i + 1 + fs.cacheCalls (inodeBlock v.inumber)) := fun i => hfaults (i + 1)
    rw [Disk.holes_congr hnodes] at hends
    rcases hends with ⟨rfl, hfull⟩ | ⟨rfl, i, hi, hcut⟩
    · refine ⟨fun _ hcut => ?_, fun _ hfailed => absurd hfailed (by decide)⟩
      obtain ⟨i, hi, hcut⟩ := hcut
      cases i with
      | zero => exact Bool.false_ne_true (hcut.symm.trans (hfaults 0 ▸ hsync))
      | succ i =>
        rw [← hfaults₃ i, hfull i (by omega)] at hcut
        exact Bool.false_ne_true hcut.symm
    · refine ⟨fun hclean => absurd (hclean rfl) (not_sameLists_of_inodeHead h ?_), fun hfull =>
        absurd ⟨i + 1, by omega, hfaults₃ i ▸ hcut⟩ hfull⟩
      have hhead' : fs'.superblock.freeInodeHead = v.inumber := by
        refine hkeeps.trans ?_
        show fs₃.superblock.freeInodeHead = v.inumber
        rw [hsuper₃]
      rw [hhead']
      exact hhead

/-- **`sfs_fs_inode_deallocate` fails cleanly** unless it tears the lists. -/
theorem inodeDeallocate_failsCleanly_iff (h : FreeLists fs nodes L) (hv : fs.MayDeallocate v) :
    FailsCleanly fs nodes L (sfsFsInodeDeallocate v) (-1) ↔
      ¬ fs.InodeDeallocateTears nodes L v := by
  have hk := hv.inUse.1
  set n := inodeBlock v.inumber with hn
  set w := { v with size := fs.superblock.freeInodeHead } with hw
  have hwrite : (sfsFsWriteInode w : Fs F ℤ) = do
      if (← cacheInodeBlock false n) ≠ 0 then return -1
      modify fun fs => { fs with inodeCache := { fs.inodeCache with
        dirty := true
        data := Block.setInode fs.inodeCache.data (inodeSlot w.inumber) w } }
      return 0 := by
    rw [sfsFsWriteInode, show w.inumber = v.inumber from rfl, decide_eq_true hk.1, Run.assert_true,
      Run.pure_bind']
  have hstart : (sfsFsInodeDeallocate v : Fs F ℤ).run fs = (do
      if (← sfsFsWriteInode w) ≠ 0 then return -1
      setFreeInodeHead v.inumber
      if (← syncSuperblock) ≠ 0 then return -1
      freePointers v.direct : Fs F ℤ).run fs := rfl
  rw [hwrite] at hstart
  obtain ⟨ret, fs₁, hcache, hends⟩ := cacheInodeBlock_ends false h hk
  rcases hends with ⟨rfl, hfull, hcached⟩ | ⟨rfl, ⟨i, hi, hcut⟩, hsame⟩
  · have hspoils : ¬ fs.LoadSpoils L n := fun hspoils => by
      obtain ⟨i, hi, hcut⟩ := hspoils.exists_cut
      exact Bool.false_ne_true (hcut.symm.trans (hfull i hi))
    have htearsIff : fs.InodeDeallocateTears nodes L v ↔
        ∃ i < 1 + callsToFree (v.direct.filter (· ≠ 0)).length (fs.disk.holes nodes),
          (fs.host.faults (i + fs.cacheCalls n)).full = false :=
      ⟨fun htears => (htears.resolve_left hspoils).2, fun hcut => Or.inr ⟨hfull, hcut⟩⟩
    set fs₂ : Filesystem F := { fs₁ with
      inodeCache := { fs₁.inodeCache with
        dirty := true
        data := Block.setInode fs₁.inodeCache.data (inodeSlot w.inumber) w }
      superblock := { fs₁.superblock with freeInodeHead := v.inumber } } with hfs₂
    have hrun : (sfsFsInodeDeallocate v : Fs F ℤ).run fs = (do
        if (← syncSuperblock) ≠ 0 then return -1
        freePointers v.direct : Fs F ℤ).run fs₂ := by
      rw [hstart, Run.run_bind, Run.run_bind, hcache, Run.andThen_done, if_neg (by simp),
        Run.run_bind, Run.run_modify, Run.andThen_done, Run.run_pure, Run.andThen_done,
        if_neg (by simp)]
      rfl
    rw [htearsIff]
    exact deallocated_failsCleanly_iff h hv hcached hrun rfl rfl rfl
  · have hrun : (sfsFsInodeDeallocate v : Fs F ℤ).run fs = .done (-1) fs₁ := by
      rw [hstart, Run.run_bind, Run.run_bind, hcache, Run.andThen_done, if_pos (by decide),
        Run.run_pure, Run.andThen_done, if_pos (by decide), Run.run_pure]
    rw [failsCleanly_iff hrun]
    constructor
    · rintro hclean (hspoils | ⟨hfull, -⟩)
      · exact hsame.mp (hclean rfl) hspoils
      · exact Bool.false_ne_true (hcut.symm.trans (hfull i hi))
    · intro htears _
      exact hsame.mpr fun hspoils => htears (Or.inl hspoils)

end Inodes

/-! ## The four functions -/

/-- **The allocators are atomic exactly when no list is torn.**  On a handle with well-formed
free lists, and whatever the host makes of each call, a call of one of the four functions
that fails leaves the free lists as they were if and only if it is not one of those that tear
them. -/
theorem allocators_are_atomic_iff {fs : Filesystem F} {nodes L : List UInt64}
    (h : FreeLists fs nodes L) :
    (FailsCleanly fs nodes L sfsFsAllocateBlock none ↔ ¬ fs.AllocateTears) ∧
    (∀ b, fs.BlockInUse b → (FailsCleanly fs nodes L (sfsFsFreeBlock b) (-1) ↔
      ¬ fs.disk.FreeTears b fs.host.faults none nodes)) ∧
    (FailsCleanly fs nodes L sfsFsInodeAllocate none ↔ ¬ fs.InodeAllocateTears L) ∧
    ∀ v, fs.MayDeallocate v → (FailsCleanly fs nodes L (sfsFsInodeDeallocate v) (-1) ↔
      ¬ fs.InodeDeallocateTears nodes L v) :=
  ⟨allocateBlock_failsCleanly_iff h, fun _ hb => freeBlock_failsCleanly_iff h hb,
    inodeAllocate_failsCleanly_iff h, fun _ hv => inodeDeallocate_failsCleanly_iff h hv⟩

/-! ## The last free block -/

/-- A host on which the second call fails. -/
def Host.failsSecond : Host :=
  { Host.quiet with faults := fun i => if i = 1 then .error else .none }

/-- The superblock of a disk with one free block and no free inode. -/
def lastFreeBlock : Superblock :=
  { oneFreeBlock with freeInodeHead := 0 }

/-- That disk on that host. -/
def lastBlock : Filesystem Unit :=
  (Filesystem.blank lastFreeBlock ()).onHost Host.failsSecond

theorem block_lastBlock : lastBlock.disk.block (3 : UInt64).toNat = Block.zero :=
  block_blank (by decide)

theorem poolOf_lastBlock : poolOf lastBlock.disk [3] = [3] := by
  rw [poolOf_cons, block_lastBlock, Block.slots_zero, poolOf_nil, List.nil_append]

theorem freeLists_lastBlock : FreeLists lastBlock [3] [] := by
  have hreliable : (Filesystem.blank lastFreeBlock ()).Reliable :=
    reliable_blank (by decide) (by decide)
  have hle : lastFreeBlock.inodes.toNat ≤ 3 * lastFreeBlock.inodeTableBlocks.toNat := by decide
  have hlt : lastFreeBlock.inodeTableBlocks < lastFreeBlock.blocks := by decide
  refine ⟨⟨hreliable.covers, hreliable.addressable, ⟨hle, hlt⟩, ?_⟩, ⟨⟨rfl, by decide, ?_⟩, ?_, ?_⟩,
    ?_, rfl, ?_, ?_⟩
  · exact ⟨Or.inl rfl, fun _ => rfl, fun h => absurd rfl h⟩
  · show lastBlock.disk.nextNode 3 = 0
    rw [Disk.nextNode, block_lastBlock, Block.word_zero]
  · rw [poolOf_lastBlock]
    exact List.nodup_singleton 3
  · rw [poolOf_lastBlock]
    intro b hb
    rw [List.mem_singleton.mp hb]
    exact show (3 : UInt64) < 8 by decide
  · rw [poolOf_lastBlock]
    intro b hb
    rw [List.mem_singleton.mp hb]
    exact show lastFreeBlock.inRange 3 = true by decide
  · exact fun k hk => absurd hk List.not_mem_nil
  · exact fun k hk => absurd hk List.not_mem_nil

theorem blockInUse_lastBlock : lastBlock.BlockInUse 4 := by
  refine ⟨show lastFreeBlock.inRange 4 = true by decide, fun nodes hc => ?_⟩
  rw [hc.nodes_unique freeLists_lastBlock.chain, poolOf_lastBlock]
  decide

theorem mayDeallocate_lastBlock : lastBlock.MayDeallocate emptyTwo := by
  have hvalid : lastBlock.superblock.ValidInumber emptyTwo.inumber := by
    constructor <;> decide
  have hnone : emptyTwo.direct.filter (· ≠ 0) = [] := by
    refine List.filter_eq_nil_iff.mpr fun x hx => ?_
    obtain ⟨i, -, rfl⟩ := List.mem_map.mp hx
    simp [emptyTwo_pointer]
  refine ⟨⟨hvalid, fun L hL => ?_⟩, ?_, ?_⟩
  · rw [hL.linked.eq_nil_iff.mpr rfl]
    exact List.not_mem_nil
  · rw [hnone]
    exact List.nodup_nil
  · rw [hnone]
    exact fun b hb => absurd hb List.not_mem_nil

theorem allocators_are_atomic_iff_lastBlock :
    (FailsCleanly lastBlock [3] [] sfsFsAllocateBlock none ↔ ¬ lastBlock.AllocateTears) ∧
    (FailsCleanly lastBlock [3] [] (sfsFsFreeBlock 4) (-1) ↔
      ¬ lastBlock.disk.FreeTears 4 lastBlock.host.faults none [3]) ∧
    (FailsCleanly lastBlock [3] [] (sfsFsInodeDeallocate emptyTwo) (-1) ↔
      ¬ lastBlock.InodeDeallocateTears [3] [] emptyTwo) :=
  have h := allocators_are_atomic_iff freeLists_lastBlock
  ⟨h.1, h.2.1 4 blockInUse_lastBlock, h.2.2.2 emptyTwo mayDeallocate_lastBlock⟩

/-- **The last free block is lost**: its node is read, the head is moved in memory, and the
write of the superblock fails.  The call returns -1, and the pool is empty. -/
theorem allocator_loses_a_block :
    FreeLists lastBlock [3] [] ∧ poolOf lastBlock.disk [3] = [3] ∧
    ∃ fs', sfsFsAllocateBlock.run lastBlock = .done none fs' ∧ FreeChain fs' [] ∧
      ¬ SameLists lastBlock [3] [] fs' := by
  have hfind : findSlot (· ≠ 0) (lastBlock.disk.block (3 : UInt64).toNat) = none := by
    rw [block_lastBlock]
    exact Block.findSlot_of_slots_eq_nil Block.slots_zero
  have hhead : lastBlock.superblock.freeBlocksHead = 3 := rfl
  have hrun := sfsFsAllocateBlock_of_read hhead (by decide)
    (freeLists_lastBlock.holds_node List.mem_cons_self) rfl
  rw [hfind] at hrun
  dsimp only at hrun
  have hiff := allocateBlock_node_iff freeLists_lastBlock hrun
  rw [Run.run_bind, setFreeBlocksHead, Run.run_modify, Run.andThen_done, Run.run_bind,
    syncSuperblock_of_cut (by rfl), Run.andThen_done, if_pos (by decide), Run.run_pure] at hrun
  refine ⟨freeLists_lastBlock, poolOf_lastBlock, _, hrun, ?_, fun hsame => ?_⟩
  · refine ⟨?_, List.nodup_nil, fun b hb => absurd hb List.not_mem_nil⟩
    show Block.word (lastBlock.disk.block (3 : UInt64).toNat) 0 = 0
    rw [block_lastBlock, Block.word_zero]
  · exact hiff.mp (Run.Ensures.of_eq hrun fun _ => hsame) rfl

end SimpleFileSystem
