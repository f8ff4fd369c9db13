import SimpleFileSystem.BlockWrite
import SimpleFileSystem.FileArray
import SimpleFileSystem.OpenFile

/-!
# A file with all its blocks

On a disk of 79 blocks one file can own every block that an inode maps: block 2 is its
index block, and its logical block `i` is block `i + 3`.  In such a file nothing is
allocated when it is written, so for `fs.c` it is an array of blocks
(`MappedFile.fileArray`): the layer of `fs.c` behaves on it as the one of `arrayLayer`
does on every file.
-/

open ByteCodec

namespace SimpleFileSystem

variable {F : Type}

/-! ## Writing a block that exists -/

section Existing

variable {fs : Filesystem F} {v : Inode} {i x : UInt64}

theorem readFromIndirect_present_run (hr : fs.Reliable) {p : UInt64} (hp : fs.superblock.IndexOk p)
    (h0 : p ≠ 0) (idx : UInt64) (hx : fs.disk.entry p idx.toNat ≠ 0) :
    (readFromIndirect p idx true).run fs = .done (some (fs.disk.entry p idx.toNat)) fs := by
  have hholds := hr.holds (Superblock.lt_of_inRange (hp h0))
  have hentry : fs.disk.entry p idx.toNat = Block.word (fs.disk.block p.toNat) idx.toNat :=
    if_neg h0
  rw [hentry] at hx ⊢
  rw [readFromIndirect, if_neg h0, Run.run_bind, blockRead_of_holds hr.noFaults hholds,
    Run.andThen_done]
  simp [hx]

/-- **`sfs_fs_inode_block_write`** to a block that the file has: it is written, and nothing
is allocated. -/
theorem sfsFsInodeBlockWrite_of_resolve (hr : fs.Reliable)
    (hp : fs.superblock.IndexOk (v.pointer 12)) (h : fs.disk.resolve v i = some x) (hx : x ≠ 0)
    (data : Block) : (sfsFsInodeBlockWrite v i data).run fs =
      .done ((fs.store (some x) data).1, v) (fs.store (some x) data).2 := by
  have hfound : (blockNumberForWrite v i).run fs = .done (v, some x) fs := by
    rw [blockNumberForWrite]
    rw [Disk.resolve] at h
    by_cases h12 : i < sfsNdirBlocks
    · rw [if_pos h12] at h
      rw [if_pos h12, directForWrite, Option.some.inj h, if_pos hx, Run.run_pure]
    rw [if_neg h12] at h
    by_cases h76 : i < sfsNdirBlocks + sfsNindBlocks
    · rw [if_pos h76] at h
      have hentry := Option.some.inj h
      have h0 : v.pointer 12 ≠ 0 := by
        intro e
        rw [Disk.entry, if_pos e] at hentry
        exact hx hentry.symm
      have h12' : sfsNdirBlocks.toNat = 12 := rfl
      rw [if_neg h12, if_pos h76, Run.run_bind, ensureIndirect, h12', if_pos h0, Run.run_pure,
        Run.andThen_done]
      dsimp only
      rw [if_neg (by simp), Run.run_bind]
      have hread := readFromIndirect_present_run hr hp h0 (i - sfsNdirBlocks)
        (by rw [hentry]; exact hx)
      rw [hentry] at hread
      rw [hread, Run.andThen_done, Run.run_pure]
    · rw [if_neg h76] at h
      exact absurd h (Ne.symm (Option.some_ne_none x))
  rw [sfsFsInodeBlockWrite, Run.run_bind, hfound, Run.andThen_done]
  dsimp only
  by_cases hrange : fs.superblock.inRange x = true
  · have hholds := hr.holds (Superblock.lt_of_inRange hrange)
    simp [Filesystem.store, hrange, blockWrite_of_holds hr.noFaults hholds]
  · simp [Filesystem.store, hrange]

/-- Past the end of what an inode maps nothing is read or written. -/
theorem fsLayer_past (h76 : ¬ i < sfsNdirBlocks + sfsNindBlocks) (block : Block) :
    (fsLayer : InodeLayer F).blockRead v i block = pure (-1, block) ∧
      (fsLayer : InodeLayer F).blockWrite v i block = pure (-1, v) := by
  have h12 : ¬ i < sfsNdirBlocks := by
    rw [UInt64.lt_iff_toNat_lt] at h76 ⊢
    have h76' : ¬ i.toNat < 76 := h76
    show ¬ i.toNat < 12
    omega
  constructor
  · show sfsFsInodeBlockRead v i block = _
    rw [sfsFsInodeBlockRead, blockNumberForRead, if_neg h12, if_neg h76]
    rfl
  · show sfsFsInodeBlockWrite v i block = _
    rw [sfsFsInodeBlockWrite, blockNumberForWrite, if_neg h12, if_neg h76]
    rfl

end Existing

/-! ## The disk -/

/-- The superblock of a disk of 79 blocks, one of them for inodes, of which none is free. -/
def fullDisk : Superblock where
  signature _ := 0
  createTime := 0
  blockSize := 512
  inodeTableBlocks := 1
  inodes := 3
  blocks := 79
  freeBlocksHead := 0
  freeInodeHead := 3

/-- The index block: its entry `e` is block `e + 15`. -/
def fullIndex : Block :=
  fun b => if (b : ℕ) % 8 = 0 then UInt8.ofNat ((b : ℕ) / 8 + 15) else 0

/-- The inode of a file with all its blocks, open under one handle. -/
def fullTwo : Inode :=
  { Inode.zero with
    inumber := 2
    mode := 0o100644
    links := 1
    size := 38912
    blockPointers := fun j =>
      if (j : ℕ) < 12 then UInt64.ofNat (j + 3) else if (j : ℕ) = 12 then 2 else 0 }

/-- The inode table without that file: the root directory, and a free inode. -/
def fullInodes : Block :=
  (Block.zero.setInode 0 { Inode.zero with inumber := 1, mode := sIfdir, links := 1 }).setInode 2
    { Inode.zero with inumber := 3 }

theorem word_fullIndex {e : ℕ} (he : e < 64) : fullIndex.word e = UInt64.ofNat (e + 15) := by
  refine Codec.uint64.decode_of_eq fun j hj => ?_
  have hj8 : j < 8 := hj
  have hnat : (UInt64.ofNat (e + 15)).toNat = e + 15 :=
    UInt64.toNat_ofNat_of_lt' (by show e + 15 < 2 ^ 64; omega)
  show view fullIndex (8 * e) j = leByte (UInt64.ofNat (e + 15)).toNat j
  rw [hnat, view, dif_pos (by omega)]
  unfold fullIndex leByte
  dsimp only
  by_cases hj0 : j = 0
  · subst hj0
    rw [if_pos (by omega), show (8 * e + 0) / 8 = e by omega, Nat.pow_zero, Nat.div_one]
  · have hpow : 256 ≤ 256 ^ j := by
      calc 256 = 256 ^ 1 := (Nat.pow_one 256).symm
        _ ≤ 256 ^ j := Nat.pow_le_pow_right (by decide) (by omega)
    rw [if_neg (by omega), Nat.div_eq_of_lt (by omega)]
    rfl

/-- The filesystem has that disk, and `v` that inode's block pointers. -/
structure MappedFile (fs : Filesystem F) (v : Inode) : Prop where
  reliable : fs.Reliable
  superblock : fs.superblock = fullDisk
  index : fs.disk.block 2 = fullIndex
  pointers : v.blockPointers = fullTwo.blockPointers

/-- The filesystem with other data in the blocks of the file. -/
def Filesystem.withData (fs : Filesystem F) (c : Blocks) : Filesystem F :=
  { fs with disk :=
    { size := fs.disk.size
      byte := fun p =>
        if 512 * 3 ≤ p ∧ p < 512 * 79 then
          c (UInt64.ofNat (p / 512 - 3)) (placeInBlock p)
        else fs.disk.byte p } }

section Data

variable {fs : Filesystem F} {v : Inode} {c : Blocks} {iblock : UInt64}

theorem block_withData_of_lt {m : ℕ} (hm : m < 3) :
    (fs.withData c).disk.block m = fs.disk.block m := by
  funext b
  have hb := b.isLt
  exact if_neg (by omega)

variable (fs c) in
theorem block_withData {m : ℕ} (hm : m < mappedBlocks) :
    (fs.withData c).disk.block (m + 3) = c (UInt64.ofNat m) := by
  funext b
  have hb := b.isLt
  unfold mappedBlocks at hm
  refine (if_pos (by omega)).trans ?_
  rw [show (512 * (m + 3) + (b : ℕ)) / 512 - 3 = m by omega]
  exact congrArg (c (UInt64.ofNat m)) (Fin.ext (by rw [val_placeInBlock]; omega))

theorem withData_self (fs : Filesystem F) :
    fs.withData (fun i => fs.disk.block (i.toNat + 3)) = fs := by
  have hbyte : (fs.withData fun i => fs.disk.block (i.toNat + 3)).disk.byte = fs.disk.byte := by
    funext p
    by_cases hp : 512 * 3 ≤ p ∧ p < 512 * 79
    · have hnat : (UInt64.ofNat (p / 512 - 3)).toNat = p / 512 - 3 :=
        UInt64.toNat_ofNat_of_lt' (by show p / 512 - 3 < 2 ^ 64; omega)
      refine (if_pos hp).trans ?_
      show fs.disk.byte (512 * ((UInt64.ofNat (p / 512 - 3)).toNat + 3) + p % 512) = _
      rw [hnat]
      exact congrArg fs.disk.byte (by omega)
    · exact if_neg hp
  show { fs with disk :=
    ⟨fs.disk.size, (fs.withData fun i => fs.disk.block (i.toNat + 3)).disk.byte⟩ } = fs
  rw [hbyte]

theorem withData_writeBlock (h : MappedFile fs v) (h76 : iblock.toNat < mappedBlocks)
    (block : Block) {n : UInt64} (hn : n.toNat = iblock.toNat + 3) :
    (fs.withData c).writeBlock n block = fs.withData (Function.update c iblock block) := by
  have hcovers := h.reliable.covers
  rw [h.superblock] at hcovers
  have hblocks : fullDisk.blocks.toNat = 79 := rfl
  unfold mappedBlocks at h76
  have hsize : ((fs.withData c).disk.setBlock n.toNat block).size = fs.disk.size :=
    Disk.setBlock_size (fs.withData c).disk block (by show _ ≤ fs.disk.size; omega)
  have hbyte : ((fs.withData c).disk.setBlock n.toNat block).byte =
      (fs.withData (Function.update c iblock block)).disk.byte := by
    funext p
    show (if 512 * n.toNat ≤ p ∧ p < 512 * n.toNat + blockSize then view block 0 (p - 512 * n.toNat)
      else if fs.disk.size ≤ p ∧ p < 512 * n.toNat then 0 else (fs.withData c).disk.byte p) = _
    by_cases hin : 512 * n.toNat ≤ p ∧ p < 512 * n.toNat + blockSize
    · rw [if_pos hin]
      unfold blockSize at hin
      refine Eq.trans ?_ (if_pos (by omega)).symm
      have hnumber : UInt64.ofNat (p / 512 - 3) = iblock := by
        rw [show p / 512 - 3 = iblock.toNat by omega, UInt64.ofNat_toNat]
      rw [hnumber, Function.update_self, view, dif_pos (by omega)]
      exact congrArg block (Fin.ext (by rw [val_placeInBlock]; show 0 + _ = _; omega))
    · rw [if_neg hin, if_neg (by omega)]
      unfold blockSize at hin
      by_cases hdata : 512 * 3 ≤ p ∧ p < 512 * 79
      · have hnumber : UInt64.ofNat (p / 512 - 3) ≠ iblock := by
          intro e
          have hnat := congrArg UInt64.toNat e
          rw [UInt64.toNat_ofNat_of_lt' (by show p / 512 - 3 < 2 ^ 64; omega)] at hnat
          omega
        refine (if_pos hdata).trans (Eq.trans ?_ (if_pos hdata).symm)
        rw [Function.update_of_ne hnumber]
      · exact (if_neg hdata).trans (if_neg hdata).symm
  show { fs with disk := (fs.withData c).disk.setBlock n.toNat block } = _
  rw [show (fs.withData c).disk.setBlock n.toNat block = ⟨fs.disk.size,
    (fs.withData (Function.update c iblock block)).disk.byte⟩ by rw [← hsize, ← hbyte]]
  rfl

theorem MappedFile.withData (h : MappedFile fs v) (c : Blocks) : MappedFile (fs.withData c) v where
  reliable := ⟨h.reliable.noFaults, h.reliable.covers, h.reliable.addressable⟩
  superblock := h.superblock
  index := (block_withData_of_lt (by decide)).trans h.index
  pointers := h.pointers

theorem MappedFile.pointer (h : MappedFile fs v) (j : ℕ) : v.pointer j = fullTwo.pointer j := by
  rw [Inode.pointer, h.pointers, Inode.pointer]

theorem MappedFile.indexOk (h : MappedFile fs v) : fs.superblock.IndexOk (v.pointer 12) := by
  intro _
  rw [h.superblock, h.pointer 12]
  decide

/-- **The logical block `i`** is block `i + 3`. -/
theorem MappedFile.resolve (h : MappedFile fs v) (iblock : UInt64) : fs.disk.resolve v iblock =
    if iblock < sfsNdirBlocks + sfsNindBlocks then some (UInt64.ofNat (iblock.toNat + 3))
    else none := by
  rw [Disk.resolve]
  by_cases h12 : iblock < sfsNdirBlocks
  · have hlt := toNat_lt_of_direct h12
    have h76 : iblock < sfsNdirBlocks + sfsNindBlocks := by
      rw [mapped_iff]
      unfold mappedBlocks
      omega
    rw [if_pos h12, if_pos h76, h.pointer, Inode.pointer, dif_pos (by omega)]
    exact congrArg some (if_pos hlt)
  · rw [if_neg h12]
    by_cases h76 : iblock < sfsNdirBlocks + sfsNindBlocks
    · have hindex : v.pointer 12 = 2 := (h.pointer 12).trans rfl
      have hle : 12 ≤ iblock.toNat := UInt64.le_iff_toNat_le.mp (UInt64.not_lt.mp h12)
      rw [if_pos h76, if_pos h76, hindex, Disk.entry, if_neg (by decide),
        show (2 : UInt64).toNat = 2 from rfl, h.index, word_fullIndex (toNat_entry_lt h12 h76),
        toNat_sub_ndir h12, show iblock.toNat - 12 + 15 = iblock.toNat + 3 by omega]
    · rw [if_neg h76, if_neg h76]

theorem toNat_dataBlock (h76 : iblock < sfsNdirBlocks + sfsNindBlocks) :
    (UInt64.ofNat (iblock.toNat + 3)).toNat = iblock.toNat + 3 := by
  have hlt : iblock.toNat < 76 := mapped_iff.mp h76
  exact UInt64.toNat_ofNat_of_lt' (by show iblock.toNat + 3 < 2 ^ 64; omega)

theorem inRange_dataBlock (h76 : iblock < sfsNdirBlocks + sfsNindBlocks) :
    fullDisk.inRange (UInt64.ofNat (iblock.toNat + 3)) = true := by
  have hlt : iblock.toNat < 76 := mapped_iff.mp h76
  rw [Superblock.inRange_iff, UInt64.le_iff_toNat_le, UInt64.lt_iff_toNat_lt,
    toNat_dataBlock h76]
  show 2 ≤ iblock.toNat + 3 ∧ iblock.toNat + 3 < 79
  omega

theorem dataBlock_ne_zero (h76 : iblock < sfsNdirBlocks + sfsNindBlocks) :
    UInt64.ofNat (iblock.toNat + 3) ≠ 0 := by
  intro e
  have hnat := congrArg UInt64.toNat e
  rw [toNat_dataBlock h76] at hnat
  exact absurd hnat (Nat.succ_ne_zero _)

/-- **For `fs.c` the file is an array of blocks.** -/
theorem MappedFile.fileArray (h : MappedFile fs v) : FileArray fsLayer v fs.withData where
  read c iblock block := by
    have hc := h.withData c
    show (sfsFsInodeBlockRead v iblock block).run _ = _
    rw [sfsFsInodeBlockRead_run hc.reliable hc.indexOk, hc.resolve]
    by_cases h76 : iblock < sfsNdirBlocks + sfsNindBlocks
    · have hblock := block_withData fs c (mapped_iff.mp h76)
      rw [if_pos h76, if_pos h76, Filesystem.fetch, if_neg (dataBlock_ne_zero h76), hc.superblock,
        if_pos (inRange_dataBlock h76),
        toNat_dataBlock h76, hblock, UInt64.ofNat_toNat]
    · rw [if_neg h76, if_neg h76]
      rfl
  write c iblock block := by
    have hc := h.withData c
    by_cases h76 : iblock < sfsNdirBlocks + sfsNindBlocks
    · have hrun := sfsFsInodeBlockWrite_of_resolve hc.reliable hc.indexOk
        ((hc.resolve iblock).trans (if_pos h76)) (dataBlock_ne_zero h76) block
      have hstore : (fs.withData c).store (some (UInt64.ofNat (iblock.toNat + 3))) block =
          (0, fs.withData (Function.update c iblock block)) := by
        rw [Filesystem.store, hc.superblock, if_pos (inRange_dataBlock h76),
          withData_writeBlock h (mapped_iff.mp h76) block (toNat_dataBlock h76)]
      rw [if_pos h76]
      rw [hstore] at hrun
      exact hrun
    · rw [if_neg h76, (fsLayer_past h76 block).2]
      rfl

end Data

/-! ## The file, open -/

/-- The disk with that file, all of it zeros, before the inode of the file is written. -/
def Filesystem.full : Filesystem Unit :=
  ((Filesystem.blank fullDisk ()).writeBlock 1 fullInodes).writeBlock 2 fullIndex

/-- The file is open under handle 0. -/
def openedFull : SfsState Unit :=
  openedTwo Filesystem.full fullTwo

theorem reliable_fullDisk : (Filesystem.blank fullDisk ()).Reliable :=
  reliable_blank (by decide) (by decide)

theorem holds_fullDisk {n : UInt64} (hn : n < fullDisk.blocks) (table : Block) :
    ((Filesystem.blank fullDisk ()).writeBlock 1 table).disk.Holds n :=
  Filesystem.holds_writeBlock table (reliable_fullDisk.holds (by decide))
    (reliable_fullDisk.holds hn)

theorem inodeState_full : InodeState Filesystem.full where
  reliable := by
    have h1 := Filesystem.size_writeBlock fullInodes
      (reliable_fullDisk.holds (show (1 : UInt64) < fullDisk.blocks by decide))
    have h2 := Filesystem.size_writeBlock fullIndex
      (holds_fullDisk (show (2 : UInt64) < fullDisk.blocks by decide) fullInodes)
    have hsize : Filesystem.full.disk.size = (Filesystem.blank fullDisk ()).disk.size := h2.trans h1
    refine ⟨fun _ => rfl, ?_, ?_⟩
    · rw [hsize]
      exact reliable_fullDisk.covers
    · rw [hsize]
      exact reliable_fullDisk.addressable
  table := by
    have hle : fullDisk.inodes.toNat ≤ 3 * fullDisk.inodeTableBlocks.toNat := by decide
    have hlt : fullDisk.inodeTableBlocks < fullDisk.blocks := by decide
    exact ⟨hle, hlt⟩
  cache := ⟨Or.inl rfl, fun _ => rfl, fun h => absurd rfl h⟩

theorem block_full {m : ℕ} (hm : 3 ≤ m) : Filesystem.full.disk.block m = Block.zero := by
  have h2 : (2 : UInt64).toNat ≠ m := by show 2 ≠ m; omega
  have h1 : (1 : UInt64).toNat ≠ m := by show 1 ≠ m; omega
  rw [Filesystem.full, Filesystem.block_writeBlock_of_ne _ (holds_fullDisk (by decide) _) h2,
    Filesystem.block_writeBlock_of_ne _ (reliable_fullDisk.holds (by decide)) h1,
    block_blank (by omega)]

theorem openFile_openedFull : OpenFile openedFull 0 2 ∧
    openedFull.fs.logicalInode 2 = fullTwo ∧ TableFrame Filesystem.full openedFull.fs := by
  have hcache : (-2 ^ 31 : ℤ) ≤ 0 ∧ (0 : ℤ) < 2 ^ 31 := by decide
  have hvalid : fullDisk.ValidInumber 2 := by constructor <;> decide
  exact openFile_openedTwo inodeState_full hcache hvalid rfl

/-- **In the loops of a request the file is mapped**, and its data are zeros. -/
theorem mappedFile_begun {v : Inode} (hv : v.blockPointers = fullTwo.blockPointers) {host : Host}
    (hquiet : host.NoFaults) : MappedFile (openedFull.begun 2 v host).fs v ∧
      (openedFull.begun 2 v host).fs.withData (fun _ => Block.zero) =
        (openedFull.begun 2 v host).fs := by
  obtain ⟨hopen, -, hframe⟩ := openFile_openedFull
  have htouched := hframe.trans (frame_touched hopen.handle 2 v)
  have hblock : ∀ m, 2 ≤ m → (openedFull.begun 2 v host).fs.disk.block m =
      Filesystem.full.disk.block m := by
    intro m hm
    refine htouched.block m fun n hn => ?_
    have hle : n.toNat ≤ 1 := UInt64.le_iff_toNat_le.mp hn.2
    omega
  have hreliable := htouched.reliable inodeState_full.reliable
  refine ⟨⟨⟨hquiet, hreliable.covers, hreliable.addressable⟩, htouched.superblock, ?_, hv⟩, ?_⟩
  · rw [hblock 2 (Nat.le_refl _)]
    exact Filesystem.block_writeBlock _ _ _
  · have hdata : (fun i : UInt64 => (openedFull.begun 2 v host).fs.disk.block (i.toNat + 3)) =
        fun _ => Block.zero := by
      funext i
      rw [hblock _ (by omega), block_full (by omega)]
    rw [← hdata, withData_self]

end SimpleFileSystem
