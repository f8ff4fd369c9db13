import SimpleFileSystem.SoundDisk
import SimpleFileSystem.NextBlocks
import SimpleFileSystem.MappedFile

/-!
# Reads and writes over the disk

`sfs_read` and `sfs_write` over `fs.c`, where writing a block may take free blocks, fill the
index block and write the inode.  Whatever they do, only the file of the handle has changed
when they return (`FileChanged`), so a sound disk is sound again.

Its blocks have changed as those of an array do.  A read puts into the memory what the blocks
of the range hold, as far as an inode maps them (`readUpTo`).  A write leaves the blocks of the
range as `writtenUpTo` has them, or a part of them, if it has run out of free blocks or into
the end of what an inode maps; and the size is the new one in either case.
-/

open ByteCodec

namespace SimpleFileSystem

variable {F : Type}

/-! ## One file -/

/-- **Only the file `k` has changed**, and not in what the directory knows of it. -/
structure FileChanged (A : List UInt64) (L : FreeList) (k : UInt64) (fs fs' : Filesystem F) :
    Prop where
  disk : SoundDisk fs' A L
  inodes : fs'.superblock.inodes = fs.superblock.inodes
  links : (fs'.logicalInode k).links = (fs.logicalInode k).links
  others : ∀ j, fs.superblock.ValidInumber j → j ≠ k → fs'.logicalInode j = fs.logicalInode j
  files : ∀ j ∈ A, j ≠ k → ∀ i, fs'.fileBlock j i = fs.fileBlock j i

section Changes

variable {fs fs' fs'' : Filesystem F} {A : List UInt64} {L : FreeList} {k : UInt64} {v w : Inode}
  {i : UInt64} {ret : ℤ} {data : Block}

theorem FileChanged.refl (h : SoundDisk fs A L) (k : UInt64) : FileChanged A L k fs fs :=
  ⟨h, rfl, rfl, fun _ _ _ => rfl, fun _ _ _ _ => rfl⟩

theorem FileChanged.trans (h : FileChanged A L k fs fs') (h' : FileChanged A L k fs' fs'') :
    FileChanged A L k fs fs'' where
  disk := h'.disk
  inodes := h'.inodes.trans h.inodes
  links := h'.links.trans h.links
  others j hj hne := by
    refine (h'.others j ?_ hne).trans (h.others j hj hne)
    rw [Superblock.ValidInumber, h.inodes]
    exact hj
  files j hj hne i := (h'.files j hj hne i).trans (h.files j hj hne i)

namespace SoundDisk

theorem valid (h : SoundDisk fs A L) (hk : k ∈ A) : fs.superblock.ValidInumber k :=
  h.paired.mirrors.mem_valid hk

/-- The inode of a file is the caller's copy of it. -/
theorem current (h : SoundDisk fs A L) (hk : k ∈ A) : fs.Current A (fs.logicalInode k) := by
  have hown := h.own k (h.valid hk)
  exact ⟨by rw [hown]; exact hk, by rw [hown]⟩

/-- **`sfs_fs_read_inode`** of a file. -/
theorem readInode (h : SoundDisk fs A L) (hk : k ∈ A) :
    Run.Ensures (sfsFsReadInode k) fs fun answer fs' => answer = some (fs.logicalInode k) ∧
      SoundDisk fs' A L ∧ TableFrame fs fs' ∧
        ∀ j, 0 < j → fs'.logicalInode j = fs.logicalInode j := by
  obtain ⟨nodes, himage⟩ := h.shelved.image
  have hvalid := himage.valid k hk
  obtain ⟨answer, fs', hrun, hanswer, hmirrors, -⟩ := h.paired.mirrors.readInode hvalid
  obtain ⟨-, -, hframe, hsame⟩ :=
    (himage.readInode hvalid (himage.state.table.lt_int hvalid h.shelved.small)).post hrun
  exact Run.Ensures.of_eq hrun ⟨hanswer, hmirrors.soundDisk, hframe, hsame⟩

/-- **`sfs_fs_write_inode`** of a file. -/
theorem writeInode (h : SoundDisk fs A L) (hv : fs.Current A v) :
    Run.Ensures (sfsFsWriteInode v) fs fun ret fs' => ret = 0 ∧ SoundDisk fs' A L ∧
      TableFrame fs fs' ∧ fs'.logicalInode v.inumber = v ∧
        ∀ j, 0 < j → j ≠ v.inumber → fs'.logicalInode j = fs.logicalInode j := by
  obtain ⟨nodes, himage⟩ := h.shelved.image
  have hvalid := himage.valid _ hv.mem
  obtain ⟨ret, fs', hrun, hret, hmirrors, -⟩ :=
    h.paired.mirrors.writeInode_moved hv v.shadow_stripped
  obtain ⟨-, -, hframe, hset, hsame⟩ := (himage.writeInode [] hv.mem
    (himage.state.table.lt_int hvalid h.shelved.small) (by rw [hv.owned])
    (hv.indexOk himage)).post hrun
  exact Run.Ensures.of_eq hrun ⟨hret, hmirrors.soundDisk, hframe, hset, hsame⟩

/-- The clock is read. -/
theorem ticked (h : SoundDisk fs A L) : SoundDisk fs.ticked A L :=
  (h.paired.mirrors.of_host fs.ticked.host rfl h.memory).soundDisk

/-- **A logical block was written**, or not. -/
theorem wrote (h : SoundDisk fs A L) (hv : fs.Current A v) (hstored : v = fs.logicalInode v.inumber)
    (hwrote : Wrote fs A v i data (ret, w) fs') :
    FileChanged A L v.inumber fs fs' ∧ fs'.logicalInode v.inumber = w := by
  obtain ⟨nodes, himage⟩ := h.shelved.image
  have hself : fs'.logicalInode v.inumber = w := hwrote.inodes.stored hstored
  have hremapped : v.Remapped w := hwrote.inodes.remapped
  have hcount := hwrote.settled.inodes
  refine ⟨⟨⟨h.shelved.write hv hwrote, h.root, fun j hj => ?_, fun j hj => ?_, ?_⟩, hcount, ?_,
    hwrote.inodes.others, hwrote.files⟩, hself⟩
  · rw [Superblock.ValidInumber, hcount] at hj
    by_cases hjv : j = v.inumber
    · rw [hjv, hself, hremapped.inumber]
    · rw [hwrote.inodes.others j hj hjv]
      exact h.own j hj
  · rw [Superblock.ValidInumber, hcount] at hj
    by_cases hjv : j = v.inumber
    · exact fun _ => hjv ▸ hv.mem
    · rw [hwrote.inodes.others j hj hjv]
      exact h.alive j hj
  · rw [hwrote.settled.mallocs]
    exact h.memory
  · rw [hself, ← hstored, hremapped.links]

end SoundDisk

/-! ### Its inode -/

/-- **The inode of the file `k` is `v` now**, and its blocks are where they were. -/
structure Touched (A : List UInt64) (L : FreeList) (k : UInt64) (v : Inode)
    (fs fs' : Filesystem F) : Prop where
  changed : FileChanged A L k fs fs'
  inode : fs'.logicalInode k = v
  blocks : ∀ i, fs'.fileBlock k i = fs.fileBlock k i
  ready : ∀ i last, fs.IndexReady (fs.logicalInode k) i last → fs'.IndexReady v i last

namespace Touched

theorem refl (h : SoundDisk fs A L) (k : UInt64) : Touched A L k (fs.logicalInode k) fs fs :=
  ⟨FileChanged.refl h k, rfl, fun _ => rfl, fun _ _ => id⟩

/-- The inode table is written, and in it the inode of the file. -/
theorem of_tableFrame (h : Touched A L k v fs fs') (h' : SoundDisk fs'' A L) (hk : k ∈ A)
    (hframe : TableFrame fs' fs'') (hset : fs''.logicalInode k = w)
    (hsame : ∀ j, 0 < j → j ≠ k → fs''.logicalInode j = fs'.logicalInode j)
    (hpointers : w.blockPointers = v.blockPointers) (hlinks : w.links = v.links) :
    Touched A L k w fs fs'' := by
  obtain ⟨nodes, himage⟩ := h.changed.disk.shelved.image
  have hchanged : FileChanged A L k fs' fs'' := by
    refine ⟨h', by rw [hframe.superblock], ?_, fun j hj hne => hsame j hj.1 hne,
      fun j hj hne i => ?_⟩
    · rw [hset, hlinks, h.inode]
    · exact himage.fileBlock_of_tableFrame hj hframe (hsame j (himage.valid j hj).1 hne) i
  refine ⟨h.changed.trans hchanged, hset, fun i => ?_, fun i last hready => ?_⟩
  · refine (himage.fileBlock_of_pointers hk hframe ?_ i).trans (h.blocks i)
    rw [hset, hpointers, h.inode]
  · have hsame := SamePool.of_tableFrame himage hframe
    exact (h.ready i last hready).of_samePool himage hsame hpointers

theorem time (h : Touched A L k v fs fs') :
    Run.Ensures time fs' fun _ fs'' => Touched A L k v fs fs'' := by
  obtain ⟨nodes, himage⟩ := h.changed.disk.shelved.image
  have hticked : FileChanged A L k fs' fs'.ticked :=
    ⟨h.changed.disk.ticked, rfl, rfl, fun _ _ _ => rfl, fun _ _ _ _ => rfl⟩
  exact ⟨_, _, time_run fs', h.changed.trans hticked, h.inode, h.blocks, fun i last hready =>
    (h.ready i last hready).of_samePool himage
      ⟨himage.ticked.state.reliable, rfl, rfl, fun _ _ => rfl⟩ rfl⟩

theorem readInode (h : Touched A L k v fs fs') (hk : k ∈ A) :
    Run.Ensures (sfsFsReadInode k) fs' fun answer fs'' =>
      answer = some v ∧ Touched A L k v fs fs'' := by
  refine (h.changed.disk.readInode hk).mono ?_
  rintro answer fs'' ⟨rfl, h', hframe, hsame⟩
  have hset := (hsame k (h.changed.disk.valid hk).1).trans h.inode
  refine ⟨congrArg some h.inode, h.of_tableFrame h' hk hframe hset ?_ rfl rfl⟩
  exact fun j hj _ => hsame j hj

theorem writeInode (h : Touched A L k v fs fs') (hk : k ∈ A) (hinumber : w.inumber = k)
    (hpointers : w.blockPointers = v.blockPointers) (hlinks : w.links = v.links) :
    Run.Ensures (sfsFsWriteInode w) fs' fun ret fs'' => ret = 0 ∧ Touched A L k w fs fs'' := by
  subst hinumber
  have hcurrent : fs'.Current A w := ⟨hk, by rw [hpointers, h.inode]⟩
  refine (h.changed.disk.writeInode hcurrent).mono ?_
  rintro ret fs'' ⟨hret, h', hframe, hset, hsame⟩
  exact ⟨hret, h.of_tableFrame h' hk hframe hset hsame hpointers hlinks⟩

/-- The inode that `sfs_write` writes before the loop. -/
theorem touchForWrite (h : Touched A L k v fs fs') (stop : UInt64) :
    Run.Ensures (touchForWrite v stop) fs' fun w fs'' => Touched A L k v fs fs'' ∧
      w.inumber = v.inumber ∧ w.blockPointers = v.blockPointers ∧ w.links = v.links ∧
        w.size = if v.size < stop then stop else v.size := by
  rw [SimpleFileSystem.touchForWrite]
  refine h.time.bind fun now fs₁ h₁ => ?_
  dsimp only
  split
  · exact h₁.time.bind fun changed fs₂ h₂ => Run.ensures_pure ⟨h₂, rfl, rfl, rfl, rfl⟩
  · exact Run.ensures_pure ⟨h₁, rfl, rfl, rfl, rfl⟩

end Touched

end Changes

/-! ## The loop of `sfs_read` -/

/-- The memory after the blocks from the first of a range up to `stop` have been read. -/
def readUpTo (r : BlockRange) (c : Blocks) (memory : Memory) (stop : ℕ) : Memory :=
  (List.range' r.firstBlock.toNat (stop - r.firstBlock.toNat)).foldl
    (fun memory j => readInto r memory (UInt64.ofNat j) (c (UInt64.ofNat j))) memory

/-- The range has blocks that no inode maps. -/
def BlockRange.Beyond (r : BlockRange) : Prop :=
  r.firstBlock ≤ r.lastBlock ∧ mappedBlocks ≤ r.lastBlock.toNat

instance (r : BlockRange) : Decidable r.Beyond :=
  inferInstanceAs (Decidable (_ ∧ _))

section ReadLoop

variable {fs : Filesystem F} {nodes A : List UInt64} {L : FreeList} {v : Inode} {r : BlockRange}
  {memory : Memory} {tmpBlock : Block} {c : Blocks} {iblock : UInt64}

theorem readUpTo_first (r : BlockRange) (c : Blocks) (memory : Memory) {stop : ℕ}
    (hstop : stop ≤ r.firstBlock.toNat) : readUpTo r c memory stop = memory := by
  rw [readUpTo, Nat.sub_eq_zero_of_le hstop, List.range'_zero, List.foldl_nil]

theorem readUpTo_succ (hfirst : r.firstBlock ≤ iblock) :
    readUpTo r c memory (iblock.toNat + 1) =
      readInto r (readUpTo r c memory iblock.toNat) iblock (c iblock) := by
  have hle := UInt64.le_iff_toNat_le.mp hfirst
  rw [readUpTo, Nat.succ_sub hle, List.range'_1_concat, List.foldl_append, List.foldl_cons,
    List.foldl_nil, Nat.add_sub_cancel' hle, UInt64.ofNat_toNat, readUpTo]

/-- A block of a file, or past its end. -/
theorem Image.blockRead_cases (h : Image fs nodes A []) (hv : fs.Current A v) (i : UInt64)
    (block : Block) : (sfsFsInodeBlockRead v i block).run fs =
      .done (if i < sfsNdirBlocks + sfsNindBlocks then (0, fs.fileBlock v.inumber i)
        else (-1, block)) fs := by
  by_cases hi : i < sfsNdirBlocks + sfsNindBlocks
  · rw [if_pos hi, h.blockRead_run hv hi]
  · rw [if_neg hi]
    exact congrArg (fun x : Fs F (ℤ × Block) => x.run fs) (fsLayer_past hi block).1

/-- **The loop of `sfs_read`** over the disk: it leaves the disk alone, and reads the blocks of
the range that an inode maps. -/
theorem readLoop_disk (h : Image fs nodes A []) (hv : fs.Current A v) (r : BlockRange)
    (memory : Memory) (tmpBlock : Block) :
    Run.Ensures (Run.loop (readStep fsLayer v r) loopBound (r.firstBlock, memory, tmpBlock)) fs
      fun res fs' => fs' = fs ∧ res = (decide (¬ r.Beyond),
        readUpTo r (fs.fileBlock v.inumber) memory (min (r.lastBlock.toNat + 1) mappedBlocks)) := by
  refine Run.Ensures.loop (G := ℕ)
    (fun g b t => b.1.toNat + g = r.firstBlock.toNat + 77 ∧ r.firstBlock ≤ b.1 ∧
      (b.1 = r.firstBlock ∨ b.1.toNat ≤ min (r.lastBlock.toNat + 1) mappedBlocks) ∧
      b.2.1 = readUpTo r (fs.fileBlock v.inumber) memory b.1.toNat ∧ t = fs)
    id ?_ (g := 77) ⟨rfl, UInt64.le_refl _, Or.inl rfl,
      (readUpTo_first r _ memory (Nat.le_refl _)).symm, rfl⟩ (by decide)
  rintro g ⟨iblock, memory', tmpBlock⟩ t ⟨hg, hfirst, hstop, hmemory, ht⟩
  dsimp only at hg hfirst hstop hmemory ht ⊢
  subst ht hmemory
  have hle := UInt64.le_iff_toNat_le.mp hfirst
  by_cases hlast : iblock ≤ r.lastBlock
  · have hnat := UInt64.le_iff_toNat_le.mp hlast
    have hrun := readStep_of_reads (L := fsLayer) (h.blockRead_cases hv iblock)
      (readUpTo r (t.fileBlock v.inumber) memory iblock.toNat) tmpBlock hlast
    by_cases h76 : iblock < sfsNdirBlocks + sfsNindBlocks
    · rw [if_pos h76, ← readUpTo_succ hfirst] at hrun
      obtain ⟨tmpBlock', hrun⟩ := hrun
      have hlt := mapped_iff.mp h76
      unfold mappedBlocks at hlt hstop
      have hsucc : (iblock + 1).toNat = iblock.toNat + 1 := by
        rw [UInt64.toNat_add]
        exact Nat.mod_eq_of_lt (by show iblock.toNat + 1 < 2 ^ 64; omega)
      refine ⟨_, _, hrun, g - 1, ⟨?_, ?_, Or.inr ?_, ?_, rfl⟩, ?_⟩
      · show (iblock + 1).toNat + (g - 1) = _
        omega
      · show r.firstBlock ≤ iblock + 1
        rw [UInt64.le_iff_toNat_le]
        omega
      · show (iblock + 1).toNat ≤ min (r.lastBlock.toNat + 1) 76
        omega
      · show _ = readUpTo r _ memory (iblock + 1).toNat
        rw [hsucc]
      · show g - 1 < g
        omega
    · rw [if_neg h76] at hrun
      rw [mapped_iff, Nat.not_lt] at h76
      have hbeyond : r.Beyond := ⟨UInt64.le_trans hfirst hlast, Nat.le_trans h76 hnat⟩
      refine ⟨_, _, hrun, rfl, Prod.ext (decide_eq_false (not_not.mpr hbeyond)).symm ?_⟩
      obtain rfl | hstop := hstop
      · rw [readUpTo_first _ _ _ (Nat.le_refl _), readUpTo_first]
        exact Nat.le_trans (Nat.min_le_right _ _) h76
      · show readUpTo _ _ _ _ = readUpTo _ _ _ _
        rw [show iblock.toNat = min (r.lastBlock.toNat + 1) mappedBlocks by omega]
  · have hnat : ¬ iblock.toNat ≤ r.lastBlock.toNat :=
      fun hle => hlast (UInt64.le_iff_toNat_le.mpr hle)
    refine ⟨.inr (true, _), t, by rw [readStep, if_pos hlast, Run.run_pure], rfl, ?_⟩
    obtain rfl | hstop := hstop
    · have hempty : ¬ r.Beyond := fun hbeyond => hlast hbeyond.1
      rw [readUpTo_first _ _ _ (Nat.le_refl _), readUpTo_first, decide_eq_true hempty]
      exact Nat.le_trans (Nat.min_le_left _ _) (by omega)
    · have hwithin : ¬ r.Beyond := fun hbeyond => by
        have := hbeyond.2
        omega
      rw [decide_eq_true hwithin,
        show iblock.toNat = min (r.lastBlock.toNat + 1) mappedBlocks by omega]

end ReadLoop

/-! ## The loop of `sfs_write` -/

/-- The range is written up to the block `stop`, and that is all of it if `ok`. -/
structure WritesUpTo (r : BlockRange) (ok : Bool) (stop : ℕ) : Prop where
  all : ok = true → stop = r.lastBlock.toNat + 1 ∧ ¬ r.Beyond
  part : ok = false → r.firstBlock ≤ r.lastBlock ∧ stop ≤ r.lastBlock.toNat

/-- **The loop of `sfs_write`**, in front of the block `b.1`: those before it have been written. -/
structure Writing (A : List UInt64) (L : FreeList) (r : BlockRange) (memory : Memory)
    (tmpBlock : Block) (v : Inode) (base : Filesystem F) (b : UInt64 × Inode × Block)
    (fs : Filesystem F) : Prop where
  changed : FileChanged A L v.inumber base fs
  inumber : b.2.1.inumber = v.inumber
  stored : fs.logicalInode v.inumber = b.2.1
  size : b.2.1.size = v.size
  first : r.firstBlock ≤ b.1
  stop : b.1 = r.firstBlock ∨ b.1.toNat ≤ min (r.lastBlock.toNat + 1) mappedBlocks
  stack : b.1 = r.firstBlock → b.2.2 = tmpBlock
  ready : fs.IndexReady b.2.1 b.1 r.lastBlock
  blocks : fs.fileBlock v.inumber =
    writtenUpTo r memory tmpBlock (base.fileBlock v.inumber) b.1.toNat

/-- What it leaves. -/
structure WroteRange (A : List UInt64) (L : FreeList) (r : BlockRange) (memory : Memory)
    (tmpBlock : Block) (v : Inode) (base : Filesystem F) (ok : Bool) (fs : Filesystem F) :
    Prop where
  changed : FileChanged A L v.inumber base fs
  size : (fs.logicalInode v.inumber).size = v.size
  blocks : ∃ stop, WritesUpTo r ok stop ∧ fs.fileBlock v.inumber =
    writtenUpTo r memory tmpBlock (base.fileBlock v.inumber) stop

section WriteLoop

variable {base fs : Filesystem F} {A : List UInt64} {L : FreeList} {v w : Inode} {r : BlockRange}
  {memory : Memory} {tmpBlock tmpBlock' : Block} {iblock : UInt64}

theorem succ_toNat_of_mapped (h76 : iblock < sfsNdirBlocks + sfsNindBlocks) :
    (iblock + 1).toNat = iblock.toNat + 1 := by
  have hlt := mapped_iff.mp h76
  unfold mappedBlocks at hlt
  rw [UInt64.toNat_add]
  exact Nat.mod_eq_of_lt (by show iblock.toNat + 1 < 2 ^ 64; omega)

/-- Only in the first block the bytes on the stack matter. -/
theorem Writing.writtenBlock_eq (h : Writing A L r memory tmpBlock v base (iblock, w, tmpBlock') fs)
    (old : Block) :
    writtenBlock r memory tmpBlock' old iblock = writtenBlock r memory tmpBlock old iblock := by
  unfold writtenBlock
  split
  · rfl
  · next hwhole =>
    split
    · rfl
    · next hcopied => exact h.stack (eq_firstBlock hwhole hcopied)

/-- The loop ends in front of a block that it does not write. -/
theorem Writing.fails (h : Writing A L r memory tmpBlock v base (iblock, w, tmpBlock') fs)
    (hlast : iblock ≤ r.lastBlock) : WroteRange A L r memory tmpBlock v base false fs := by
  refine ⟨h.changed, by rw [h.stored]; exact h.size, iblock.toNat,
    ⟨fun e => absurd e Bool.false_ne_true, fun _ => ⟨UInt64.le_trans h.first hlast, ?_⟩⟩, h.blocks⟩
  exact UInt64.le_iff_toNat_le.mp hlast

/-- **One iteration of `sfs_write`** over the disk. -/
theorem Writing.step (h : Writing A L r memory tmpBlock v base (iblock, w, tmpBlock') fs)
    (hk : v.inumber ∈ A) (hlast : iblock ≤ r.lastBlock) :
    Run.Ensures (writeStep fsLayer memory r (iblock, w, tmpBlock')) fs fun res fs' =>
      (∀ ok, res = .inr ok → ok = false ∧ WroteRange A L r memory tmpBlock v base false fs') ∧
      ∀ b, res = .inl b → b.1 = iblock + 1 ∧ iblock < sfsNdirBlocks + sfsNindBlocks ∧
        Writing A L r memory tmpBlock v base b fs' := by
  obtain ⟨nodes, himage⟩ := h.changed.disk.shelved.image
  have hw : w.inumber = v.inumber := h.inumber
  have hstored : w = fs.logicalInode w.inumber := by
    rw [hw]
    exact h.stored.symm
  have hcurrent : fs.Current A w := ⟨by rw [hw]; exact hk, by rw [← hstored]⟩
  have hread := himage.blockRead_cases hcurrent iblock
  by_cases h76 : iblock < sfsNdirBlocks + sfsNindBlocks
  · -- the block of the file as it is
    have hold : fs.fileBlock w.inumber iblock = base.fileBlock v.inumber iblock := by
      rw [hw, h.blocks]
      exact if_neg fun hcond => Nat.lt_irrefl _ hcond.2
    obtain ⟨tmp, hrun⟩ := writeStep_of_reads (L := fsLayer) (r := r)
      (fun block => (hread block).trans (by rw [if_pos h76])) memory tmpBlock' hlast
    rw [h.writtenBlock_eq, hold] at hrun
    generalize hdata : writtenBlock r memory tmpBlock (base.fileBlock v.inumber iblock) iblock =
      data at hrun
    obtain ⟨⟨ret, u⟩, fs', hwrite, hwrote⟩ := sfsFsInodeBlockWrite_wrote himage hcurrent
      h.changed.disk.shelved.small (h.ready.blankIndex hlast) data
    obtain ⟨hchanged, hself⟩ := h.changed.disk.wrote hcurrent hstored hwrote
    rw [hw] at hchanged hself
    have hsize : (fs'.logicalInode v.inumber).size = v.size := by
      have hremapped : w.Remapped u := hwrote.inodes.remapped
      rw [hself, hremapped.size]
      exact h.size
    have hown := hwrote.own
    rw [show (fsLayer : InodeLayer F).blockWrite w iblock data = sfsFsInodeBlockWrite w iblock data
      from rfl, hwrite, Run.andThen_done] at hrun
    dsimp only at hrun hown
    by_cases hret : ret = 0
    · subst hret
      obtain ⟨-, hwritten⟩ := hwrote.written rfl
      have hsucc := succ_toNat_of_mapped h76
      have hlt := mapped_iff.mp h76
      have hnat := UInt64.le_iff_toNat_le.mp hlast
      have hnat' : r.firstBlock.toNat ≤ iblock.toNat := UInt64.le_iff_toNat_le.mp h.first
      rw [if_neg (not_not.mpr rfl), Run.run_pure] at hrun
      refine Run.Ensures.of_eq hrun ⟨fun ok hok => absurd hok Sum.inl_ne_inr, ?_⟩
      rintro b hb
      cases hb
      refine ⟨rfl, h76, h.changed.trans hchanged, ?_, hself, ?_, ?_, Or.inr ?_, fun e => ?_, ?_, ?_⟩
      · exact hwrote.inodes.remapped.inumber.trans hw
      · rw [← hself]
        exact hsize
      · show r.firstBlock ≤ iblock + 1
        rw [UInt64.le_iff_toNat_le]
        omega
      · show (iblock + 1).toNat ≤ min (r.lastBlock.toNat + 1) mappedBlocks
        omega
      · have e' := congrArg UInt64.toNat (show iblock + 1 = r.firstBlock from e)
        omega
      · obtain ⟨u', t, fs₁, hplan, hstore⟩ := sfsFsInodeBlockWrite_run himage hcurrent iblock
        have hdone := (hstore data).symm.trans hwrite
        obtain ⟨hanswer, rfl⟩ := Outcome.done.inj hdone
        obtain ⟨hzero, rfl⟩ := Prod.ext_iff.mp hanswer
        obtain ⟨x, rfl, hrange⟩ := store_returns_zero hzero
        rw [show fs₁.store (some x) data = (0, fs₁.writeBlock x data) from if_pos hrange]
        exact hplan.indexReady himage hcurrent h.ready data hsucc
      · show fs'.fileBlock v.inumber = writtenUpTo r memory tmpBlock _ (iblock + 1).toNat
        rw [hsucc, ← writtenUpTo_succ h.first, hdata]
        funext j
        by_cases hj : j = iblock
        · rw [hj, Function.update_self, ← hw]
          exact hwritten
        · rw [Function.update_of_ne hj, ← h.blocks, ← hw]
          exact hown j fun _ => hj
    · rw [if_pos hret, Run.run_pure] at hrun
      refine Run.Ensures.of_eq hrun ⟨fun ok hok => ?_, fun b hb => absurd hb Sum.inr_ne_inl⟩
      cases hok
      have hblocks : fs'.fileBlock v.inumber = fs.fileBlock v.inumber := funext fun j => by
        rw [← hw]
        exact hown j fun e => absurd e hret
      obtain ⟨-, -, stop, hstop, hfs⟩ := h.fails hlast
      exact ⟨rfl, h.changed.trans hchanged, hsize, stop, hstop, hblocks.trans hfs⟩
  · have hrun := writeStep_of_fails (L := fsLayer) (r := r)
      (fun block => (hread block).trans (by rw [if_neg h76]))
      (fun block => sfsFsInodeBlockWrite_past fs w h76 block) memory tmpBlock' hlast
    refine Run.Ensures.of_eq hrun ⟨fun ok hok => ?_, fun b hb => absurd hb Sum.inr_ne_inl⟩
    cases hok
    exact ⟨rfl, h.fails hlast⟩

/-- **The loop of `sfs_write`** over the disk ends, and has written the blocks of the range, or
a part of them. -/
theorem Writing.loop (h : Writing A L r memory tmpBlock v base (r.firstBlock, w, tmpBlock) fs)
    (hk : v.inumber ∈ A) :
    Run.Ensures (Run.loop (writeStep fsLayer memory r) loopBound (r.firstBlock, w, tmpBlock)) fs
      (WroteRange A L r memory tmpBlock v base) := by
  refine Run.Ensures.loop (G := ℕ)
    (fun g b t => b.1.toNat + g = r.firstBlock.toNat + 77 ∧
      Writing A L r memory tmpBlock v base b t)
    id ?_ (g := 77) ⟨rfl, h⟩ (by decide)
  rintro g ⟨iblock, w, tmpBlock'⟩ t ⟨hg, hwriting⟩
  dsimp only at hg
  by_cases hlast : iblock ≤ r.lastBlock
  · refine (hwriting.step hk hlast).mono ?_
    rintro res t' ⟨hends, hgoes⟩
    cases res with
    | inl b =>
      obtain ⟨hb, h76, hnext⟩ := hgoes b rfl
      have hlt := mapped_iff.mp h76
      have hsucc := succ_toNat_of_mapped h76
      rw [← hb] at hsucc
      unfold mappedBlocks at hlt
      refine ⟨g - 1, ⟨?_, hnext⟩, ?_⟩
      · omega
      · show g - 1 < g
        omega
    | inr ok =>
      obtain ⟨rfl, hwritten⟩ := hends ok rfl
      exact hwritten
  · have hnat : ¬ iblock.toNat ≤ r.lastBlock.toNat :=
      fun hle => hlast (UInt64.le_iff_toNat_le.mpr hle)
    refine ⟨.inr true, t, by rw [writeStep, if_pos hlast, Run.run_pure], hwriting.changed,
      by rw [hwriting.stored]; exact hwriting.size, r.lastBlock.toNat + 1,
      ⟨fun _ => ⟨rfl, fun hbeyond => ?_⟩, fun e => absurd e.symm Bool.false_ne_true⟩, ?_⟩
    · obtain hfirst | hstop := hwriting.stop
      · have hfirst : iblock = r.firstBlock := hfirst
        exact hlast (hfirst ▸ hbeyond.1)
      · have hmapped := hbeyond.2
        dsimp only at hstop
        omega
    · rw [hwriting.blocks]
      obtain hfirst | hstop := hwriting.stop
      · have hfirst : iblock = r.firstBlock := hfirst
        subst hfirst
        rw [writtenUpTo_first _ _ _ (Nat.le_refl _), writtenUpTo_first _ _ _ (by omega)]
      · dsimp only at hstop
        rw [show iblock.toNat = r.lastBlock.toNat + 1 by omega]

end WriteLoop

/-! ## The requests -/

/-- **The handle `n` is one of the file `k`** on a sound disk, and no request is running. -/
structure Holding (s : SfsState F) (A : List UInt64) (L : FreeList) (n : ℕ) (k : UInt64) :
    Prop where
  idle : ¬ s.Locked
  disk : SoundDisk s.fs A L
  handle : n < s.fdPool.capacity
  small : n < 2 ^ 31
  slot : (s.fdPool.slot n).inumber = k
  mem : k ∈ A

/-- What is in a file. -/
structure Contents where
  size : UInt64
  blocks : Blocks

/-- The contents of the file `k`. -/
def Filesystem.contents (fs : Filesystem F) (k : UInt64) : Contents :=
  ⟨(fs.logicalInode k).size, fs.fileBlock k⟩

/-- **What `sfs_read` returns**, and the memory after it.  It does not ask for the size. -/
def Contents.read (c : Contents) (memory : Memory) (size : UInt64) (offset : ℤ) : ℤ × Memory :=
  if size = 0 then (0, memory)
  else
    let r := blockRange offset size
    (if r.Beyond then -1 else toCInt size,
      readUpTo r c.blocks memory (min (r.lastBlock.toNat + 1) mappedBlocks))

/-- **What `sfs_write` returns**, and the contents after it. -/
inductive Contents.Write (c : Contents) (memory : Memory) (tmpBlock : Block) (offset : ℤ) :
    UInt64 → ℤ → Contents → Prop where
  | empty : c.Write memory tmpBlock offset 0 0 c
  | blocks {size : UInt64} {ok : Bool} {stop : ℕ} (nonempty : size ≠ 0)
      (range : WritesUpTo (blockRange offset size) ok stop) :
      c.Write memory tmpBlock offset size (if ok then toCInt size else -1)
        { size := if c.size < UInt64.ofInt offset + size then UInt64.ofInt offset + size else c.size
          blocks := writtenUpTo (blockRange offset size) memory tmpBlock c.blocks stop }

section Requests

variable {s : SfsState F} {A : List UInt64} {L : FreeList} {n : ℕ} {k : UInt64} {memory : Memory}
  {tmpBlock : Block} {size : UInt64} {offset : ℤ}

/-- What a request on the file leaves. -/
structure Transferred (s s' : SfsState F) (A : List UInt64) (L : FreeList) (k : UInt64) : Prop where
  idle : ¬ s'.Locked
  pool : s'.fdPool = s.fdPool
  changed : FileChanged A L k s.fs s'.fs

/-- The number of the handle comes back from the client as it was. -/
theorem Holding.fd (h : Holding s A L n k) : (toCInt (ofCInt n)).toNat = n := by
  rw [toCInt_ofCInt h.small, Int.toNat_natCast]

theorem Holding.getFromFd (h : Holding s A L n k) {s' : SfsState F} (hpool : s'.fdPool = s.fdPool) :
    (sfsFiledescriptorGetFromFd (toCInt (ofCInt n))).run s' = .done (some n) s' := by
  rw [toCInt_ofCInt h.small]
  exact sfsFiledescriptorGetFromFd_run (by rw [hpool]; exact h.handle)

/-- The mutex is given back, and the request returns. -/
theorem unlocked_ensures {α : Type} {a : α} {Q : α → SfsState F → Prop}
    (h : ∀ s', ¬ s'.Locked → s'.fdPool = s.fdPool → s'.fs = s.fs → Q a s') :
    Run.Ensures (unlock >>= fun _ => pure a : Sfs F α) s Q := by
  refine ⟨a, _, rfl, h _ (fun hlocked => ?_) rfl rfl⟩
  cases hlocked

/-- **`sfs_read`** over the disk. -/
theorem Holding.sfsRead (h : Holding s A L n k) (memory : Memory) (tmpBlock : Block)
    (size : UInt64) (offset : ℤ) :
    Run.Ensures (sfsRead fsLayer memory tmpBlock size offset (ofCInt n)) s fun answer s' =>
      Transferred s s' A L k ∧ s'.fs.contents k = s.fs.contents k ∧
        answer = (s.fs.contents k).read memory size offset := by
  have hown := h.disk.own k (h.disk.valid h.mem)
  rw [SimpleFileSystem.sfsRead, Contents.read, Filesystem.contents]
  refine (Run.Ensures.of_eq (lock_run_of_free h.idle) ⟨rfl, rfl⟩ : Run.Ensures lock s
    fun _ s₁ => s₁.fs = s.fs ∧ s₁.fdPool = s.fdPool).bind fun _ s₁ hs₁ => ?_
  obtain ⟨hfs₁, hpool₁⟩ := hs₁
  split
  · refine unlocked_ensures fun s' hidle hpool hfs => ?_
    rw [hfs₁] at hfs
    rw [hfs]
    exact ⟨⟨hidle, hpool.trans hpool₁, hfs ▸ FileChanged.refl h.disk k⟩, rfl, rfl⟩
  · have htouched : Touched A L k (s.fs.logicalInode k) s.fs s₁.fs := by
      rw [hfs₁]
      exact Touched.refl h.disk k
    generalize s.fs.logicalInode k = v at hown htouched ⊢
    refine (Run.Ensures.of_eq (h.getFromFd hpool₁) ⟨rfl, rfl⟩ :
      Run.Ensures (sfsFiledescriptorGetFromFd (toCInt (ofCInt n))) s₁
        fun found t => found = some n ∧ s₁ = t).bind ?_
    rintro _ _ ⟨rfl, rfl⟩
    dsimp only
    refine (Run.Ensures.of_eq (Run.run_get s₁) ⟨rfl, rfl⟩ :
      Run.Ensures get s₁ fun t t' => t = s₁ ∧ s₁ = t').bind ?_
    rintro _ _ ⟨rfl, rfl⟩
    rw [hpool₁, h.slot]
    refine (onFs_ensures (htouched.readInode h.mem)).bind ?_
    rintro _ s₂ ⟨⟨rfl, h₂⟩, hpool₂⟩
    dsimp only
    refine (onFs_ensures h₂.time).bind ?_
    rintro now s₃ ⟨h₃, hpool₃⟩
    generalize hw : ({ v with accessTime := now } : Inode) = w
    have hinumber : w.inumber = k := by
      rw [← hw]
      exact hown
    refine (onFs_ensures (h₃.writeInode h.mem hinumber (by rw [← hw]) (by rw [← hw]))).bind ?_
    rintro _ s₄ ⟨⟨rfl, h₄⟩, hpool₄⟩
    rw [if_neg (by simp)]
    obtain ⟨nodes, himage⟩ := h₄.changed.disk.shelved.image
    have hcurrent : s₄.fs.Current A w := by
      rw [← h₄.inode]
      exact h₄.changed.disk.current h.mem
    have hblocks : s₄.fs.fileBlock k = s.fs.fileBlock k := funext h₄.blocks
    have hloop := readLoop_disk himage hcurrent (blockRange offset size) memory tmpBlock
    rw [hinumber, hblocks] at hloop
    refine (onFs_ensures hloop).bind ?_
    rintro _ s₅ ⟨⟨hfs₅, rfl⟩, hpool₅⟩
    refine unlocked_ensures fun s' hidle hpool hfs => ?_
    rw [hfs₅] at hfs
    refine ⟨⟨hidle, ?_, by rw [hfs]; exact h₄.changed⟩, ?_, ?_⟩
    · exact hpool.trans (hpool₅.trans (hpool₄.trans (hpool₃.trans (hpool₂.trans hpool₁))))
    · rw [Filesystem.contents, hfs, h₄.inode, hblocks, ← hw]
    · simp only [decide_eq_true_eq, ite_not]

/-- **`sfs_write`** over the disk: the size is the new one whatever becomes of the blocks. -/
theorem Holding.sfsWrite (h : Holding s A L n k) (memory : Memory) (tmpBlock : Block)
    (size : UInt64) (offset : ℤ) (hready : s.fs.IndexReady (s.fs.logicalInode k)
      (blockRange offset size).firstBlock (blockRange offset size).lastBlock) :
    Run.Ensures (sfsWrite fsLayer memory tmpBlock size offset (ofCInt n)) s fun ret s' =>
      Transferred s s' A L k ∧
        (s.fs.contents k).Write memory tmpBlock offset size ret (s'.fs.contents k) := by
  have hown := h.disk.own k (h.disk.valid h.mem)
  rw [SimpleFileSystem.sfsWrite, Filesystem.contents]
  refine (Run.Ensures.of_eq (lock_run_of_free h.idle) ⟨rfl, rfl⟩ : Run.Ensures lock s
    fun _ s₁ => s₁.fs = s.fs ∧ s₁.fdPool = s.fdPool).bind fun _ s₁ hs₁ => ?_
  obtain ⟨hfs₁, hpool₁⟩ := hs₁
  split
  · next h0 =>
    subst h0
    refine unlocked_ensures fun s' hidle hpool hfs => ?_
    rw [hfs₁] at hfs
    rw [hfs]
    exact ⟨⟨hidle, hpool.trans hpool₁, hfs ▸ FileChanged.refl h.disk k⟩, .empty⟩
  · next h0 =>
    have htouched : Touched A L k (s.fs.logicalInode k) s.fs s₁.fs := by
      rw [hfs₁]
      exact Touched.refl h.disk k
    generalize hv : s.fs.logicalInode k = v at hown htouched hready ⊢
    refine (Run.Ensures.of_eq (h.getFromFd hpool₁) ⟨rfl, rfl⟩ :
      Run.Ensures (sfsFiledescriptorGetFromFd (toCInt (ofCInt n))) s₁
        fun found t => found = some n ∧ s₁ = t).bind ?_
    rintro _ _ ⟨rfl, rfl⟩
    dsimp only
    refine (Run.Ensures.of_eq (Run.run_get s₁) ⟨rfl, rfl⟩ :
      Run.Ensures get s₁ fun t t' => t = s₁ ∧ s₁ = t').bind ?_
    rintro _ _ ⟨rfl, rfl⟩
    rw [hpool₁, h.slot]
    refine (onFs_ensures (htouched.readInode h.mem)).bind ?_
    rintro _ s₂ ⟨⟨rfl, h₂⟩, hpool₂⟩
    dsimp only
    refine (onFs_ensures (h₂.touchForWrite (UInt64.ofInt offset + size))).bind ?_
    rintro w s₃ ⟨⟨h₃, hinumber, hpointers, hlinks, hsize⟩, hpool₃⟩
    have hw : w.inumber = k := hinumber.trans hown
    refine (onFs_ensures (h₃.writeInode h.mem hw hpointers hlinks)).bind ?_
    rintro _ s₄ ⟨⟨rfl, h₄⟩, hpool₄⟩
    rw [if_neg (by simp)]
    have hblocks : s₄.fs.fileBlock k = s.fs.fileBlock k := funext h₄.blocks
    have hindex := h₄.ready _ _ (hv.symm ▸ hready)
    subst hw
    have hwriting : Writing A L (blockRange offset size) memory tmpBlock w s₄.fs
        ((blockRange offset size).firstBlock, w, tmpBlock) s₄.fs :=
      ⟨FileChanged.refl h₄.changed.disk _, rfl, h₄.inode, rfl, UInt64.le_refl _, Or.inl rfl,
        fun _ => rfl, hindex, (writtenUpTo_first _ _ _ (Nat.le_refl _)).symm⟩
    refine (onFs_ensures (hwriting.loop h.mem)).bind ?_
    rintro ok s₅ ⟨⟨hchanged, hsize₅, stop, hstop, hblocks₅⟩, hpool₅⟩
    refine unlocked_ensures fun s' hidle hpool hfs => ?_
    refine ⟨⟨hidle, ?_, by rw [hfs]; exact h₄.changed.trans hchanged⟩, ?_⟩
    · exact hpool.trans (hpool₅.trans (hpool₄.trans (hpool₃.trans (hpool₂.trans hpool₁))))
    · rw [Filesystem.contents, hfs, hsize₅, hblocks₅, hblocks, hsize]
      exact .blocks h0 hstop

end Requests

/-! ## Sessions -/

section Sessions

variable {x y : Session} {A : List UInt64} {L : FreeList} {n : ℕ} {k : UInt64}

theorem Session.Sound.holding (h : x.Sound A L) (hn : n ∈ x.files) :
    Holding x.state A L n (x.state.fdPool.slot n).inumber := by
  obtain ⟨free, hhandles⟩ := h.pool
  have hlt := hhandles.lt_of_opened (List.mem_append_left _ hn)
  exact ⟨h.idle, h.disk, hlt, Nat.lt_trans hlt hhandles.small, rfl, h.mem_of_handle hn⟩

/-- **A request on a file leaves the disk sound**, with the same entries. -/
theorem Session.Sound.transferred (h : x.Sound A L) (hk1 : k ≠ 1)
    (ht : Transferred x.state y.state A L k) (hfiles : y.files = x.files)
    (hdirs : y.dirs = x.dirs) : y.Sound A L ∧ y.state.fs.diskSlots = x.state.fs.diskSlots := by
  have hroot : y.state.fs.logicalInode 1 = x.state.fs.logicalInode 1 :=
    ht.changed.others 1 (h.disk.valid h.disk.root) (Ne.symm hk1)
  have hlength : y.state.fs.rootLength = x.state.fs.rootLength := by
    rw [Filesystem.rootLength, hroot, Filesystem.rootLength]
  have hslots : y.state.fs.diskSlots = x.state.fs.diskSlots := by
    rw [Filesystem.diskSlots, hlength, Filesystem.diskSlots]
    refine List.map_congr_left fun i _ => ?_
    exact congrArg (fun b => Block.dirEntry b 0)
      (ht.changed.files 1 h.disk.root (Ne.symm hk1) (UInt64.ofNat i))
  have hrefs : ∀ j, y.diskRefs j = x.diskRefs j := by
    intro j
    rw [Session.diskRefs, hslots, Session.diskRefs, Session.handlesOf, ht.pool, hfiles,
      Session.handlesOf]
  refine ⟨⟨ht.changed.disk, ht.idle, ?_, ?_, ?_, ?_, ?_, ?_, ?_, ?_, fun j hj1 hj => ?_⟩, hslots⟩
  · rw [hroot]
    exact h.directory
  · rw [hroot, hlength]
    exact h.size
  · rw [hlength]
    exact h.mapped
  · rw [hslots]
    exact h.distinct
  · rw [hslots]
    exact h.named
  · rw [ht.pool, hfiles, hdirs]
    exact h.pool
  · rw [ht.pool, hfiles]
    exact h.held
  · rw [ht.pool, hdirs]
    exact h.heldDirs
  · rw [hrefs] at hj ⊢
    obtain ⟨hvalid, hcounted⟩ := h.counted j hj1 hj
    refine ⟨by rw [Superblock.ValidInumber, ht.changed.inodes]; exact hvalid, ?_⟩
    by_cases hjk : j = k
    · rw [hjk, ht.changed.links, ← hjk]
      exact hcounted
    · rw [ht.changed.others j hvalid hjk]
      exact hcounted

end Sessions

end SimpleFileSystem
