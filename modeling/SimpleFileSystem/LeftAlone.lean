import SimpleFileSystem.Sessions

/-!
# What the requests leave alone

Some parts of a filesystem are out of the way of most functions.  `Spared` lists what a part has
to do with if the functions on inodes and blocks are to leave it alone, whatever fails in them,
and `Steady` what more there is in a request.

The layout of the disk is a steady part: all of the superblock but the heads of the two free
lists.  So a mounted filesystem has the one with which it was opened (`layout_is_fixed`).  What
holds of the rest of the state, and is not changed by the calls on the mutex and the pool, holds
for good in the same way (`Standing`).
-/

namespace SimpleFileSystem

variable {F π α : Type}

/-! ## The functions of `fs.c` -/

/-- **A part of a filesystem that is not** the disk, the cache, the clock or the head of the
free block list. -/
structure Spared (part : Filesystem F → π) : Prop where
  read : ∀ n block, Run.Keeps part (blockRead n block)
  write : ∀ n block, Run.Keeps part (blockWrite n block)
  time : Run.Keeps part time
  cache : ∀ f : InodeCache → InodeCache,
    Run.Keeps part (modify fun fs => { fs with inodeCache := f fs.inodeCache })
  blocksHead : ∀ n, Run.Keeps part (setFreeBlocksHead n)

namespace Spared

variable {part : Filesystem F → π}

theorem syncSuperblock (h : Spared part) : Run.Keeps part syncSuperblock :=
  Run.keeps_get.bind fun _ => (h.write _ _).bind fun _ =>
    (Run.keeps_pure _).ite (Run.keeps_pure _)

theorem cacheInodeBlock (h : Spared part) (clearDirty : Bool) (n : UInt64) :
    Run.Keeps part (cacheInodeBlock clearDirty n) := by
  have hwriteBack : Run.Keeps part writeBack :=
    Run.keeps_get.bind fun _ =>
      ((h.write _ _).bind fun _ => Run.keeps_pure _).ite (Run.keeps_pure _)
  refine Run.keeps_get.bind fun _ => (Run.keeps_pure _).ite (hwriteBack.bind fun _ => ?_)
  refine (Run.keeps_pure _).ite (Run.Keeps.bind (h.cache fun cache => { cache with
    blockNumber := toCInt n, dirty := if clearDirty then false else cache.dirty }) fun _ => ?_)
  refine Run.keeps_get.bind fun _ => (h.read _ _).bind fun answer => ?_
  exact (h.cache fun cache => { cache with data := answer.2 }).bind fun _ => Run.keeps_pure _

theorem readInode (h : Spared part) (k : UInt64) : Run.Keeps part (sfsFsReadInode k) :=
  (Run.keeps_assert _).bind fun _ => (h.cacheInodeBlock _ _).bind fun _ =>
    (Run.keeps_pure _).ite (Run.keeps_get.bind fun _ => Run.keeps_pure _)

theorem writeInode (h : Spared part) (v : Inode) : Run.Keeps part (sfsFsWriteInode v) :=
  (Run.keeps_assert _).bind fun _ => (h.cacheInodeBlock _ _).bind fun _ =>
    (Run.keeps_pure _).ite ((h.cache fun cache => { cache with
      dirty := true, data := Block.setInode cache.data (inodeSlot v.inumber) v }).bind
        fun _ => Run.keeps_pure _)

/-- An inode is read, or that is the end. -/
theorem reads (h : Spared part) (k : UInt64) {x : Fs F α} {f : Inode → Fs F α}
    (hx : Run.Keeps part x) (hf : ∀ v, Run.Keeps part (f v)) :
    Run.Keeps part (do
      match ← sfsFsReadInode k with
      | none => x
      | some v => f v) := by
  refine (h.readInode k).bind fun answer => ?_
  cases answer with
  | none => exact hx
  | some v => exact hf v

/-- An inode is written, and that is the end. -/
theorem writesInode (h : Spared part) (v : Inode) {x y : Fs F α} (hx : Run.Keeps part x)
    (hy : Run.Keeps part y) :
    Run.Keeps part (do if (← sfsFsWriteInode v) ≠ 0 then x else y) :=
  (h.writeInode v).bind fun _ => hx.ite hy

theorem allocateBlock (h : Spared part) : Run.Keeps part sfsFsAllocateBlock := by
  refine Run.keeps_get.bind fun _ => (Run.keeps_pure _).ite ?_
  refine (h.read _ _).bind fun answer => (Run.keeps_pure _).ite ?_
  split
  · exact (h.write _ _).bind fun _ => (Run.keeps_pure _).ite (Run.keeps_pure _)
  · exact (h.blocksHead _).bind fun _ => h.syncSuperblock.bind fun _ =>
      (Run.keeps_pure _).ite (Run.keeps_pure _)

theorem freeBlock (h : Spared part) (b : UInt64) : Run.Keeps part (sfsFsFreeBlock b) := by
  refine Run.keeps_get.bind fun _ => Run.Keeps.ite ?_ (Run.Keeps.loop (fun w => ?_) _ _)
  · refine (h.write _ _).bind fun _ => (Run.keeps_pure _).ite ?_
    exact (h.blocksHead _).bind fun _ => h.syncSuperblock.bind fun _ =>
      (Run.keeps_pure _).ite (Run.keeps_pure _)
  · obtain ⟨node, prev, index⟩ := w
    refine Run.Keeps.ite ?_ ((h.read _ _).bind fun answer => (Run.keeps_pure _).ite ?_)
    · exact (h.write _ _).bind fun _ => (Run.keeps_pure _).ite ((h.write _ _).bind fun _ =>
        (Run.keeps_pure _).ite (Run.keeps_pure _))
    · split
      · exact (h.write _ _).bind fun _ => (Run.keeps_pure _).ite (Run.keeps_pure _)
      · exact Run.keeps_pure _

theorem freePointers (h : Spared part) (ps : List UInt64) : Run.Keeps part (freePointers ps) := by
  induction ps with
  | nil => exact Run.keeps_pure _
  | cons p ps ih =>
    exact Run.Keeps.ite ih ((h.freeBlock p).bind fun _ => (Run.keeps_pure _).ite ih)

theorem readFromIndirect (h : Spared part) (p idx : UInt64) (createIfEmpty : Bool) :
    Run.Keeps part (readFromIndirect p idx createIfEmpty) := by
  refine (Run.keeps_pure _).ite ((h.read _ _).bind fun answer => (Run.keeps_pure _).ite ?_)
  refine Run.Keeps.ite (h.allocateBlock.bind fun found => ?_) (Run.keeps_pure _)
  cases found with
  | none => exact Run.keeps_pure _
  | some n => exact (h.write _ _).bind fun _ => (Run.keeps_pure _).ite (Run.keeps_pure _)

/-- **`sfs_fs_inode_block_read`** -/
theorem inodeBlockRead (h : Spared part) (v : Inode) (i : UInt64) (block : Block) :
    Run.Keeps part (sfsFsInodeBlockRead v i block) := by
  have hnumber : Run.Keeps part (blockNumberForRead v i) :=
    (Run.keeps_pure _).ite ((h.readFromIndirect _ _ _).ite (Run.keeps_pure _))
  refine hnumber.bind fun found => ?_
  cases found with
  | none => exact Run.keeps_pure _
  | some n =>
    refine (Run.keeps_pure _).ite (Run.keeps_get.bind fun _ => (Run.keeps_pure _).ite ?_)
    exact (h.read _ _).bind fun _ => Run.keeps_pure _

theorem blockNumberForWrite (h : Spared part) (v : Inode) (i : UInt64) :
    Run.Keeps part (blockNumberForWrite v i) := by
  have hdirect : Run.Keeps part (directForWrite v i.toNat) := by
    refine (Run.keeps_pure _).ite (h.allocateBlock.bind fun found => ?_)
    cases found with
    | none => exact Run.keeps_pure _
    | some n => exact h.writesInode _ (Run.keeps_pure _) (Run.keeps_pure _)
  have hensure : Run.Keeps part (ensureIndirect v) := by
    refine (Run.keeps_pure _).ite (h.allocateBlock.bind fun found => ?_)
    cases found with
    | none => exact Run.keeps_pure _
    | some n =>
      exact h.time.bind fun _ => h.writesInode _ (Run.keeps_pure _) (Run.keeps_pure _)
  refine hdirect.ite (Run.Keeps.ite (hensure.bind fun _ => ?_) (Run.keeps_pure _))
  exact (Run.keeps_pure _).ite ((h.readFromIndirect _ _ _).bind fun _ => Run.keeps_pure _)

/-- **`sfs_fs_inode_block_write`** -/
theorem inodeBlockWrite (h : Spared part) (v : Inode) (i : UInt64) (block : Block) :
    Run.Keeps part (sfsFsInodeBlockWrite v i block) := by
  refine (h.blockNumberForWrite v i).bind fun answer => ?_
  obtain ⟨r, found⟩ := answer
  cases found with
  | none => exact Run.keeps_pure _
  | some n =>
    refine Run.keeps_get.bind fun _ => (Run.keeps_pure _).ite ?_
    exact (h.write _ _).bind fun _ => Run.keeps_pure _

theorem addLink (h : Spared part) (k : UInt64) : Run.Keeps part (addLink k) := by
  refine (h.readInode k).bind fun file => ?_
  cases file with
  | none => exact Run.keeps_pure _
  | some file => exact h.time.bind fun _ => h.writesInode _ (Run.keeps_pure _) (Run.keeps_pure _)

end Spared

/-! ## The functions of `dir.c` and the loops of `sfs.c` -/

/-- **A part that has nothing to do** with what memory there is, either, and is not the head of
the free inode list. -/
structure Steady (part : Filesystem F → π) : Prop extends Spared part where
  malloc : Run.Keeps part malloc
  free : ∀ block, Run.Keeps part (free block)
  inodeHead : ∀ k, Run.Keeps part (setFreeInodeHead k)

/-- A layer of blocks that leaves the part alone. -/
structure InodeLayer.LeavesAlone (L : InodeLayer F) (part : Filesystem F → π) : Prop where
  allocate : Run.Keeps part L.allocate
  deallocate : ∀ v, Run.Keeps part (L.deallocate v)
  blockRead : ∀ v i block, Run.Keeps part (L.blockRead v i block)
  blockWrite : ∀ v i block, Run.Keeps part (L.blockWrite v i block)

namespace Steady

variable {part : Filesystem F → π} {L : InodeLayer F}

theorem inodeAllocate (h : Steady part) : Run.Keeps part sfsFsInodeAllocate := by
  refine Run.keeps_get.bind fun _ => (Run.keeps_pure _).ite ((h.readInode _).bind fun answer => ?_)
  cases answer with
  | none => exact Run.keeps_pure _
  | some v =>
    exact (h.inodeHead _).bind fun _ => h.syncSuperblock.bind fun _ =>
      (Run.keeps_pure _).ite (Run.keeps_pure _)

theorem inodeDeallocate (h : Steady part) (v : Inode) :
    Run.Keeps part (sfsFsInodeDeallocate v) := by
  refine Run.keeps_get.bind fun _ => h.writesInode _ (Run.keeps_pure _) ?_
  refine (h.inodeHead _).bind fun _ => h.syncSuperblock.bind fun _ => ?_
  exact (Run.keeps_pure _).ite (h.freePointers _)

theorem fsLayer (h : Steady part) : fsLayer.LeavesAlone part where
  allocate := h.inodeAllocate
  deallocate := h.inodeDeallocate
  blockRead := h.inodeBlockRead
  blockWrite := h.inodeBlockWrite

theorem splitPath (h : Steady part) (path : CString) : Run.Keeps part (splitPath path) :=
  h.malloc.bind fun _ => (Run.keeps_pure _).ite <| (Run.keeps_pure _).ite <|
    (Run.keeps_pure _).ite (Run.keeps_pure _)

theorem dirIterate (h : Steady part) (v : Inode) : Run.Keeps part (sfsDirIterate v) :=
  (Run.keeps_assert _).bind fun _ => h.malloc.bind fun _ =>
    (Run.keeps_pure _).ite (Run.keeps_pure _)

theorem iternext (h : Steady part) (hL : L.LeavesAlone part) (wantInode : Bool)
    (it : DirIterator) : Run.Keeps part (sfsDirIternext L wantInode it) := by
  have hend : ∀ it : DirIterator, Run.Keeps part (iterEnd it) :=
    fun it => (h.free _).bind fun _ => Run.keeps_pure _
  have hstop : ∀ it : DirIterator, Run.Keeps part (do return ← iterEnd it) :=
    fun it => (hend it).bind fun _ => Run.keeps_pure _
  refine Run.Keeps.loop (fun it => (hstop it).ite ?_) _ _
  dsimp only
  split
  · refine (hL.blockRead _ _ _).bind fun _ => (hend _).ite (h.time.bind fun _ => ?_)
    refine h.writesInode _ (hend _) ?_
    split
    · exact Run.Keeps.ite (h.reads _ (hstop _) fun _ => Run.keeps_pure _) (Run.keeps_pure _)
    · exact Run.keeps_pure _
  · split
    · exact Run.Keeps.ite (h.reads _ (hstop _) fun _ => Run.keeps_pure _) (Run.keeps_pure _)
    · exact Run.keeps_pure _

theorem search (h : Steady part) (hL : L.LeavesAlone part) (name : CString) (it : DirIterator) :
    Run.Keeps part (search L name it) := by
  refine Run.Keeps.loop (fun it => (h.iternext hL false it).bind fun answer => ?_) _ _
  cases answer with
  | stop directory => exact Run.keeps_pure _
  | entry it j inode => exact (Run.keeps_pure _).ite (Run.keeps_pure _)

/-- The entry is cleared. -/
theorem clearEntry (h : Steady part) (hL : L.LeavesAlone part) (it : DirIterator) (j : ℕ) :
    Run.Keeps part (do
      let it := { it with
        cachedBlock := Block.setDirInumber it.cachedBlock j 0
        inode := { it.inode with modifiedTime := ← SimpleFileSystem.time } }
      if (← sfsFsWriteInode it.inode) ≠ 0 then return ((-1 : ℤ), it)
      let (ret, directory) ← L.blockWrite it.inode it.iblock it.cachedBlock
      return (if ret ≠ 0 then -1 else 0, { it with inode := directory })) := by
  refine h.time.bind fun _ => h.writesInode _ (Run.keeps_pure _) ?_
  exact (hL.blockWrite _ _ _).bind fun _ => Run.keeps_pure _

theorem iterUnlink (h : Steady part) (hL : L.LeavesAlone part) (it : DirIterator) (j : ℕ) :
    Run.Keeps part (sfsDirIterUnlink L it j) := by
  refine (h.readInode _).bind fun answer => ?_
  cases answer with
  | none => exact Run.keeps_pure _
  | some v =>
    have hrest := h.clearEntry hL it j
    refine h.time.bind fun _ => Run.Keeps.ite ?_ (h.writesInode _ (Run.keeps_pure _) hrest)
    exact (hL.deallocate _).bind fun _ => (Run.keeps_pure _).ite hrest

theorem dirLink (h : Steady part) (hL : L.LeavesAlone part) (directory : Inode) (name : CString)
    (v : Inode) : Run.Keeps part (sfsDirLink L directory name v) := by
  refine (Run.keeps_pure _).ite (Run.Keeps.loop (fun i => Run.Keeps.ite ?_ ?_) _ _)
  · refine (hL.blockRead _ _ _).bind fun _ => (Run.keeps_pure _).ite ?_
    split
    · refine (hL.blockWrite _ _ _).bind fun _ => (Run.keeps_pure _).ite (h.time.bind fun _ => ?_)
      refine h.writesInode _ (Run.keeps_pure _) ?_
      exact h.writesInode _ (Run.keeps_pure _) (Run.keeps_pure _)
    · exact Run.keeps_pure _
  · refine (hL.blockWrite _ _ _).bind fun _ => (Run.keeps_pure _).ite (h.time.bind fun _ => ?_)
    refine h.writesInode _ (Run.keeps_pure _) (h.time.bind fun _ => ?_)
    exact h.writesInode _ (Run.keeps_pure _) (Run.keeps_pure _)

theorem newFile (h : Steady part) (context : FuseContext) (mode : UInt32)
    (directory file : Inode) : Run.Keeps part (newFile context mode directory file) :=
  h.time.bind fun _ => h.time.bind fun _ => h.time.bind fun _ => Run.keeps_pure _

theorem opendirWalk (h : Steady part) (hL : L.LeavesAlone part) (directory : Inode)
    (tok : CString) (pathTok : Option CString) :
    Run.Keeps part (opendirWalk L directory tok pathTok) := by
  refine (h.dirIterate _).bind fun it => ?_
  cases it with
  | none => exact Run.keeps_halt _
  | some it =>
  refine Run.Keeps.loop (fun b => ?_) _ _
  obtain ⟨tok, pathTok, it⟩ := b
  refine (h.iternext hL true it).bind fun answer => ?_
  cases answer with
  | stop directory => exact Run.keeps_pure _
  | entry it j v =>
    refine (Run.keeps_pure _).ite ((h.free _).bind fun _ => ?_)
    split
    · refine (Run.keeps_pure _).ite ((h.addLink _).bind fun linked => ?_)
      cases linked with
      | none => exact Run.keeps_pure _
      | some directory => exact Run.keeps_pure _
    · refine (h.dirIterate _).bind fun it => ?_
      cases it with
      | none => exact Run.keeps_halt _
      | some it => exact Run.keeps_pure _

theorem readdirLoop (h : Steady part) (hL : L.LeavesAlone part)
    (filler : List FillerCall → Bool) (b : DirIterator × List FillerCall) :
    Run.Keeps part (Run.loop (readdirStep L filler) loopBound b) := by
  refine Run.Keeps.loop (fun b => ?_) _ _
  obtain ⟨it, calls⟩ := b
  refine (h.iternext hL true it).bind fun answer => ?_
  cases answer with
  | stop directory => exact Run.keeps_pure _
  | entry it j v => exact (Run.keeps_pure _).ite (Run.keeps_pure _)

end Steady

namespace InodeLayer.LeavesAlone

variable {part : Filesystem F → π} {L : InodeLayer F}

theorem readLoop (hL : L.LeavesAlone part) (v : Inode) (r : BlockRange)
    (b : UInt64 × Memory × Block) : Run.Keeps part (Run.loop (readStep L v r) loopBound b) := by
  refine Run.Keeps.loop (fun b => ?_) _ _
  obtain ⟨iblock, memory, tmpBlock⟩ := b
  refine (Run.keeps_pure _).ite (Run.Keeps.ite ?_ ?_)
  · exact (hL.blockRead _ _ _).bind fun _ => (Run.keeps_pure _).ite (Run.keeps_pure _)
  · exact (hL.blockRead _ _ _).bind fun _ => (Run.keeps_pure _).ite
      ((Run.keeps_pure _).ite (Run.keeps_pure _))

theorem writeLoop (hL : L.LeavesAlone part) (memory : Memory) (r : BlockRange)
    (b : UInt64 × Inode × Block) :
    Run.Keeps part (Run.loop (writeStep L memory r) loopBound b) := by
  refine Run.Keeps.loop (fun b => ?_) _ _
  obtain ⟨iblock, v, tmpBlock⟩ := b
  have hoverlay : Run.Keeps part (overlayTmp L memory v r iblock tmpBlock) :=
    Run.Keeps.ite ((hL.blockRead _ _ _).bind fun _ => (Run.keeps_pure _).ite (Run.keeps_pure _))
      (Run.keeps_pure _)
  refine (Run.keeps_pure _).ite (hoverlay.bind fun overlaid => ?_)
  cases overlaid with
  | none => exact Run.keeps_pure _
  | some tmpBlock =>
    exact (hL.blockWrite _ _ _).bind fun _ => (Run.keeps_pure _).ite (Run.keeps_pure _)

end InodeLayer.LeavesAlone

/-! ## The requests -/

/-- **What holds of the state for good**, if a part of the filesystem is left alone: the calls
on the mutex and the pool do not change it. -/
structure Standing (part : Filesystem DirFiles → π) (I : SfsState DirFiles → Prop) : Prop where
  onFs : ∀ {α : Type} {x : Fs DirFiles α}, Run.Keeps part x → Run.Maintains I (onFs x)
  mutex : ∀ s mu, I s → I { s with mu := mu }
  allocate : Run.Maintains I sfsFiledescriptorAllocate
  setSlot : ∀ s n slot, I s → I { s with fdPool := s.fdPool.setSlot n slot }
  push : ∀ s n, I s → I { s with fdPool := s.fdPool.push n }

section Requests

variable {part : Filesystem DirFiles → π} {I : SfsState DirFiles → Prop}
  {L : InodeLayer DirFiles}

namespace Standing

theorem answer (hw : Standing part I) (a : α) :
    Run.Maintains I (do unlock; return a : Sfs DirFiles α) :=
  Run.Maintains.bind (Run.maintains_modify fun s => hw.mutex s _) fun _ => Run.maintains_pure a

theorem lock (hw : Standing part I) : Run.Maintains I (lock : Sfs DirFiles Unit) := by
  intro s a s' hs hrun
  obtain ⟨-, rfl⟩ := lock_run hrun
  exact hw.mutex s _ hs

theorem getFromFd (fd : ℤ) :
    Run.Maintains I (sfsFiledescriptorGetFromFd fd : Sfs DirFiles (Option ℕ)) :=
  (Run.maintains_assert _).bind fun _ => Run.maintains_get.bind fun _ =>
    (Run.maintains_pure _).ite (Run.maintains_pure _)

theorem openHandle (hw : Standing part I) (k flags : UInt64) :
    Run.Maintains I (openHandle k flags : Sfs DirFiles (ℤ × Option UInt64)) := by
  refine hw.allocate.bind fun fd => ?_
  cases fd with
  | none => exact hw.answer _
  | some fd =>
    refine Run.Maintains.bind (Run.maintains_modify fun s => hw.setSlot s _ _) fun _ => ?_
    refine Run.Maintains.bind (Run.maintains_modify fun s => hw.setSlot s _ _) fun _ => ?_
    exact Run.maintains_get.bind fun _ => hw.answer _

theorem releases (hw : Standing part I) (n : ℕ) : Run.Maintains I (do
    sfsFiledescriptorFree n
    unlock
    return 0 : Sfs DirFiles ℤ) :=
  Run.Maintains.bind (Run.maintains_modify fun s => hw.push s n) fun _ => hw.answer _

end Standing

namespace Steady

/-- What a search for a name begins with. -/
theorem finds (h : Steady part) (hw : Standing part I)
    (hL : L.LeavesAlone part) {name : CString} {directory : Inode}
    {fails : Sfs DirFiles α} {f : Search → Sfs DirFiles α}
    (hfails : Run.Maintains I fails) (hf : ∀ found, Run.Maintains I (f found)) :
    Run.Maintains I (do
      let some it ← onFs (sfsDirIterate directory) | fails
      f (← onFs (SimpleFileSystem.search L name it))) := by
  refine (hw.onFs (h.dirIterate _)).bind fun it => ?_
  cases it with
  | none => exact hfails
  | some it => exact (hw.onFs (h.search hL name it)).bind hf

/-- What a request on a name begins with. -/
theorem onName (h : Steady part) (hw : Standing part I) {path : CString}
    {fails : ℤ → Sfs DirFiles α} {lost : Sfs DirFiles α} {f : CString → Inode → Sfs DirFiles α}
    (hfails : ∀ ret, Run.Maintains I (fails ret))
    (hlost : Run.Maintains I lost)
    (hf : ∀ name directory, Run.Maintains I (f name directory)) :
    Run.Maintains I (do
      lock
      match ← onFs (SimpleFileSystem.splitPath path) with
      | .inl ret => fails ret
      | .inr name =>
        let some directory ← onFs sfsDirRoot | lost
        f name directory) := by
  refine hw.lock.bind fun _ => (hw.onFs (h.splitPath path)).bind fun answer => ?_
  cases answer with
  | inl ret => exact hfails ret
  | inr name =>
    refine (hw.onFs (h.readInode 1)).bind fun directory => ?_
    cases directory with
    | none => exact hlost
    | some directory => exact hf name directory

theorem getattr (h : Steady part) (hw : Standing part I)
    (hL : L.LeavesAlone part) (path : CString) :
    Run.Maintains I (sfsGetattr L path) := by
  refine h.onName hw (fun _ => hw.answer _) (hw.answer _) fun name directory => ?_
  refine (hw.answer _).ite (h.finds hw hL (hw.answer _) fun found => ?_)
  cases found with
  | stop directory => exact hw.answer _
  | found it j =>
    refine (hw.onFs (h.free _)).bind fun block => ?_
    refine (hw.onFs (h.readInode _)).bind fun file => ?_
    cases file with
    | none => exact hw.answer _
    | some file => exact hw.answer _

theorem create (h : Steady part) (hw : Standing part I)
    (hL : L.LeavesAlone part) (context : FuseContext)
    (path : CString) (mode : UInt32) (flags : UInt64) :
    Run.Maintains I (sfsCreate L context path mode flags) := by
  refine h.onName hw (fun _ => hw.answer _) (hw.answer _) fun name directory => ?_
  refine h.finds hw hL (hw.answer _) fun found => ?_
  cases found with
  | found it j =>
    refine (hw.onFs (h.free _)).bind fun _ => (hw.answer _).ite ?_
    refine (hw.onFs (h.addLink _)).bind fun file => ?_
    cases file with
    | none => exact hw.answer _
    | some file => exact hw.openHandle _ _
  | stop directory =>
    refine (hw.onFs hL.allocate).bind fun file => ?_
    cases file with
    | none => exact hw.answer _
    | some file =>
      refine (hw.onFs (h.newFile _ _ _ _)).bind fun file => ?_
      refine (hw.onFs (h.writeInode _)).bind fun _ => (hw.answer _).ite ?_
      refine (hw.onFs (h.dirLink hL _ _ _)).bind fun _ => ?_
      exact (hw.answer _).ite (hw.openHandle _ _)

theorem unlink (h : Steady part) (hw : Standing part I)
    (hL : L.LeavesAlone part) (path : CString) :
    Run.Maintains I (sfsUnlink L path) := by
  refine h.onName hw (fun _ => hw.answer _) (hw.answer _) fun name directory => ?_
  refine (hw.answer _).ite (h.finds hw hL (hw.answer _) fun found => ?_)
  cases found with
  | stop directory => exact hw.answer _
  | found it j =>
    refine (hw.onFs (h.iterUnlink hL _ _)).bind fun _ => (hw.answer _).ite ?_
    exact (hw.onFs (h.free _)).bind fun _ => hw.answer _

theorem «open» (h : Steady part) (hw : Standing part I)
    (hL : L.LeavesAlone part) (path : CString) (flags : UInt64) :
    Run.Maintains I (sfsOpen L path flags) := by
  refine h.onName hw (fun _ => hw.answer _) (hw.answer _) fun name directory => ?_
  refine h.finds hw hL (hw.answer _) fun found => ?_
  cases found with
  | stop directory => exact hw.answer _
  | found it j =>
    refine (hw.onFs (h.free _)).bind fun _ => ?_
    refine (hw.onFs (h.addLink _)).bind fun file => ?_
    cases file with
    | none => exact hw.answer _
    | some file => exact hw.openHandle _ _

/-- What a request on a handle begins with. -/
theorem onHandle (h : Steady part) (hw : Standing part I) {fd : ℤ} {fails lost : Sfs DirFiles α}
    {f : ℕ → Inode → Sfs DirFiles α} (hfails : Run.Maintains I fails)
    (hlost : Run.Maintains I lost)
    (hf : ∀ n v, Run.Maintains I (f n v)) :
    Run.Maintains I (do
      let some n ← sfsFiledescriptorGetFromFd fd | fails
      let s ← get
      let some v ← onFs (sfsFsReadInode (s.fdPool.slot n).inumber) | lost
      f n v) := by
  refine (Standing.getFromFd _).bind fun n => ?_
  cases n with
  | none => exact hfails
  | some n =>
    refine Run.maintains_get.bind fun s => (hw.onFs (h.readInode _)).bind fun answer => ?_
    cases answer with
    | none => exact hlost
    | some v => exact hf n v

theorem release (h : Steady part) (hw : Standing part I)
    (hL : L.LeavesAlone part) (fh : UInt64) :
    Run.Maintains I (sfsRelease L fh) := by
  refine hw.lock.bind fun _ => h.onHandle hw (hw.answer _) (hw.answer _)
    fun n v => (Run.maintains_assert _).bind fun _ => (hw.onFs h.time).bind fun _ => ?_
  refine Run.Maintains.ite ?_ ?_
  · exact (hw.onFs (hL.deallocate _)).bind fun _ => (hw.answer _).ite (hw.releases n)
  · exact (hw.onFs (h.writeInode _)).bind fun _ => (hw.answer _).ite (hw.releases n)

theorem readRange (h : Steady part) (hw : Standing part I)
    (hL : L.LeavesAlone part) (memory : Memory) (tmpBlock : Block)
    (size : UInt64) (offset : ℤ) (fh : UInt64) :
    Run.Maintains I (sfsRead L memory tmpBlock size offset fh) := by
  refine hw.lock.bind fun _ => (hw.answer _).ite ?_
  refine h.onHandle hw (hw.answer _) (hw.answer _) fun n v => ?_
  refine (hw.onFs h.time).bind fun _ => (hw.onFs (h.writeInode _)).bind fun _ => ?_
  refine (hw.answer _).ite ?_
  exact (hw.onFs (hL.readLoop _ _ _)).bind fun _ => hw.answer _

theorem writeRange (h : Steady part) (hw : Standing part I)
    (hL : L.LeavesAlone part) (memory : Memory) (tmpBlock : Block)
    (size : UInt64) (offset : ℤ) (fh : UInt64) :
    Run.Maintains I (sfsWrite L memory tmpBlock size offset fh) := by
  refine hw.lock.bind fun _ => (hw.answer _).ite ?_
  refine h.onHandle hw (hw.answer _) (hw.answer _) fun n v => ?_
  have htouch : Run.Keeps part (touchForWrite v (UInt64.ofInt offset + size)) :=
    h.time.bind fun _ => (h.time.bind fun _ => Run.keeps_pure _).ite (Run.keeps_pure _)
  refine (hw.onFs htouch).bind fun v => (hw.onFs (h.writeInode _)).bind fun _ => ?_
  refine (hw.answer _).ite ?_
  exact (hw.onFs (hL.writeLoop _ _ _)).bind fun _ => hw.answer _

theorem opendir (h : Steady part) (hw : Standing part I)
    (hL : L.LeavesAlone part) (path : CString) (flags : UInt64) :
    Run.Maintains I (sfsOpendir L path flags) := by
  refine hw.lock.bind fun _ => (Run.maintains_pure _).ite ?_
  refine (hw.onFs (h.readInode 1)).bind fun directory => ?_
  cases directory with
  | none => exact hw.answer _
  | some directory =>
    refine (Run.maintains_pure _).ite ((hw.onFs (h.opendirWalk hL _ _ _)).bind fun walk => ?_)
    cases walk with
    | opened directory => exact hw.openHandle _ _
    | failed => exact hw.answer _
    | notDirectory => exact Run.maintains_pure _

theorem readdir (h : Steady part) (hw : Standing part I)
    (hL : L.LeavesAlone part) (filler : List FillerCall → Bool)
    (path : CString) : Run.Maintains I (sfsReaddir L filler path) := by
  refine hw.lock.bind fun _ => (hw.answer _).ite ?_
  refine (hw.onFs (h.readInode 1)).bind fun directory => ?_
  cases directory with
  | none => exact hw.answer _
  | some directory =>
    refine (hw.answer _).ite ((hw.answer _).ite ?_)
    refine (hw.onFs (h.dirIterate _)).bind fun it => ?_
    cases it with
    | none => exact Run.maintains_halt _
    | some it =>
      exact (hw.onFs (h.readdirLoop hL _ _)).bind fun _ => hw.answer _

theorem releasedir (h : Steady part) (hw : Standing part I) (fh : UInt64) :
    Run.Maintains I (sfsReleasedir fh : Sfs DirFiles ℤ) := by
  refine hw.lock.bind fun _ => h.onHandle hw (hw.answer _) (hw.answer _)
    fun n v => (hw.onFs h.time).bind fun _ => ?_
  refine (hw.onFs (h.writeInode _)).bind fun _ => (hw.answer _).ite ?_
  exact hw.releases n

/-- **Every request** leaves a steady part alone. -/
theorem reply (h : Steady part) (hw : Standing part I)
    (hL : L.LeavesAlone part) (r : Request) :
    Run.Maintains I (r.reply L) := by
  cases r with
  | getattr => exact (h.getattr hw hL _).bind fun _ => Run.maintains_pure _
  | create => exact (h.create hw hL _ _ _ _).bind fun _ => Run.maintains_pure _
  | unlink => exact (h.unlink hw hL _).bind fun _ => Run.maintains_pure _
  | «open» => exact (h.open hw hL _ _).bind fun _ => Run.maintains_pure _
  | release => exact (h.release hw hL _).bind fun _ => Run.maintains_pure _
  | read => exact (h.readRange hw hL _ _ _ _ _).bind fun _ => Run.maintains_pure _
  | write => exact (h.writeRange hw hL _ _ _ _ _).bind fun _ => Run.maintains_pure _
  | opendir => exact (h.opendir hw hL _ _).bind fun _ => Run.maintains_pure _
  | readdir => exact (h.readdir hw hL _ _).bind fun _ => Run.maintains_pure _
  | releasedir => exact (h.releasedir hw _).bind fun _ => Run.maintains_pure _

end Steady

end Requests

/-! ## The layout of the disk -/

/-- The superblock but for the heads of the free lists. -/
def Filesystem.layout (fs : Filesystem F) : Superblock :=
  { fs.superblock with freeBlocksHead := 0, freeInodeHead := 0 }

theorem steady_layout : Steady (Filesystem.layout (F := F)) where
  read n block := by
    intro fs a fs' hrun
    cases hrun
    rfl
  write n block := by
    intro fs a fs' hrun
    cases hrun
    rfl
  time := by
    intro fs a fs' hrun
    cases hrun
    rfl
  cache f := Run.keeps_modify fun _ => rfl
  blocksHead n := Run.keeps_modify fun _ => rfl
  malloc := by
    intro fs a fs' hrun
    cases hrun
    rfl
  free block := by
    intro fs a fs' hrun
    cases hrun
    rfl
  inodeHead k := Run.keeps_modify fun _ => rfl

/-- A part of the filesystem that is left alone is what it was. -/
theorem Steady.standing {part : Filesystem DirFiles → π} (h : Steady part) (c : π) :
    Standing part fun s => part s.fs = c where
  onFs hx := by
    intro s a s' hs hrun
    rw [onFs, Run.run_zoom] at hrun
    cases hfs : Run.run _ s.fs with
    | done b fs =>
      rw [hfs, Outcome.onState_done] at hrun
      cases hrun
      exact (hx _ _ _ hfs).trans hs
    | halt e =>
      rw [hfs, Outcome.onState_halt] at hrun
      cases hrun
  mutex _ _ hs := hs
  allocate := by
    intro s a s' hs hrun
    rcases allocate_fs hrun with hfs | hfs
    · rw [hfs]
      exact hs
    · rw [hfs]
      exact (h.malloc _ _ _ (malloc_run s.fs)).trans hs
  setSlot _ _ _ hs := hs
  push _ _ hs := hs

/-- **A request leaves the layout alone**, whatever fails in it. -/
theorem layout_of_reply {s s' : SfsState DirFiles} {r : Request} {reply : Reply}
    (hrun : (r.reply fsLayer).run s = .done reply s') : s'.fs.layout = s.fs.layout :=
  steady_layout.reply (steady_layout.standing _) steady_layout.fsLayer r s reply s' rfl hrun

/-- The pool has a slab, as `sfs_filedescriptor_pool_init` leaves it. -/
def SfsState.HasSlab (s : SfsState DirFiles) : Prop :=
  s.fdPool.slabs ≠ []

/-- Nothing of the filesystem matters to it. -/
theorem standing_hasSlab : Standing (fun _ => ()) SfsState.HasSlab where
  onFs hx := by
    intro s a s' hs hrun
    rw [onFs, Run.run_zoom] at hrun
    cases hfs : Run.run _ s.fs with
    | done b fs =>
      rw [hfs, Outcome.onState_done] at hrun
      cases hrun
      exact hs
    | halt e =>
      rw [hfs, Outcome.onState_halt] at hrun
      cases hrun
  mutex _ _ hs := hs
  allocate := by
    intro s a s' hs hrun
    by_cases hfree : s.fdPool.freelist ≠ 0
    · rw [sfsFiledescriptorAllocate, Run.run_bind, Run.run_get, Run.andThen_done,
        if_pos hfree] at hrun
      cases hrun
      exact hs
    · rw [sfsFiledescriptorAllocate, Run.run_bind, Run.run_get, Run.andThen_done,
        if_neg hfree] at hrun
      dsimp only at hrun
      rw [Run.run_bind, onFs_run (malloc_run s.fs), Run.andThen_done] at hrun
      split at hrun
      · cases hrun
        exact hs
      · cases hrun
        exact List.append_ne_nil_of_right_ne_nil _ (List.cons_ne_nil _ _)
  setSlot s n slot hs := by
    intro hnil
    exact hs (by simpa [FdPool.setSlot] using hnil)
  push s n hs := by
    intro hnil
    exact hs (by simpa [FdPool.push, FdPool.setSlot] using hnil)

/-- **A request leaves a slab.** -/
theorem hasSlab_of_reply {s s' : SfsState DirFiles} {r : Request} {reply : Reply}
    (hs : s.HasSlab) (hrun : (r.reply fsLayer).run s = .done reply s') : s'.HasSlab := by
  have hsteady : Steady (fun _ : Filesystem DirFiles => ()) :=
    ⟨⟨fun _ _ _ _ _ _ => rfl, fun _ _ _ _ _ _ => rfl, fun _ _ _ _ => rfl, fun _ _ _ _ _ => rfl,
      fun _ _ _ _ _ => rfl⟩, fun _ _ _ _ => rfl, fun _ _ _ _ _ => rfl, fun _ _ _ _ _ => rfl⟩
  exact hsteady.reply standing_hasSlab hsteady.fsLayer r s reply s' hs hrun

end SimpleFileSystem
