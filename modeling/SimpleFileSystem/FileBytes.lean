import SimpleFileSystem.FileArray
import SimpleFileSystem.OpenFile

/-!
# The bytes of a file, when its blocks are an array

`arrayLayer` keeps the logical blocks of files in an array and does nothing else: reads
return what is there, zeros in a hole, and writes put it there.  On it the handlers can
be compared with what they are for.  `sfs_read` should copy bytes of the file to the
buffer, and `sfs_write` should be an overlay of the file by the buffer.

What `sfs_write` does leave in the file is said byte by byte in `byte_written_of_aligned`,
for a range that begins with a block, and `byte_written_of_within`.
-/

open ByteCodec

namespace SimpleFileSystem

/-! ## The array of blocks -/

/-- The logical blocks of the files, by inode number. -/
abbrev Files := UInt64 → Blocks

/-- A block of a file replaced. -/
def Files.setBlock (files : Files) (k i : UInt64) (block : Block) : Files :=
  Function.update files k (Function.update (files k) i block)

/-- The byte of a file at a position. -/
def Blocks.byte (c : Blocks) (p : ℕ) : UInt8 :=
  c (UInt64.ofNat (p / 512)) (placeInBlock p)

/-- The number of bytes that an inode maps. -/
def mappedBytes : ℕ := 38912

/-- **A faithful array of logical blocks**, with any functions that allocate and
deallocate inodes. -/
def arrayLayer (allocate : Fs Files (Option Inode)) (deallocate : Inode → Fs Files ℤ) :
    InodeLayer Files where
  allocate := allocate
  deallocate := deallocate
  blockRead inode iblock block :=
    if iblock < sfsNdirBlocks + sfsNindBlocks then do
      let fs ← get
      return (0, fs.files inode.inumber iblock)
    else return (-1, block)
  blockWrite inode iblock block :=
    if iblock < sfsNdirBlocks + sfsNindBlocks then do
      modify fun fs => { fs with files := fs.files.setBlock inode.inumber iblock block }
      return (0, inode)
    else return (-1, inode)

/-- The filesystem with other blocks of a file. -/
def Filesystem.withBlocks (fs : Filesystem Files) (k : UInt64) (c : Blocks) : Filesystem Files :=
  { fs with files := Function.update fs.files k c }

theorem withBlocks_self (fs : Filesystem Files) (k : UInt64) :
    fs.withBlocks k (fs.files k) = fs := by
  rw [Filesystem.withBlocks, Function.update_eq_self]

@[simp] theorem withBlocks_files (fs : Filesystem Files) (k : UInt64) (c : Blocks) :
    (fs.withBlocks k c).files k = c :=
  Function.update_self _ _ _

/-- **The files of the array layer** are arrays of blocks. -/
theorem fileArray_arrayLayer (allocate : Fs Files (Option Inode))
    (deallocate : Inode → Fs Files ℤ) (fs : Filesystem Files) (v : Inode) :
    FileArray (arrayLayer allocate deallocate) v (fs.withBlocks v.inumber) where
  read c iblock block := by
    show (ite _ _ _ : Fs Files _).run _ = _
    by_cases h76 : iblock < sfsNdirBlocks + sfsNindBlocks
    · rw [if_pos h76, if_pos h76, Run.run_bind, Run.run_get, Run.andThen_done, Run.run_pure,
        Filesystem.withBlocks]
      dsimp only
      rw [Function.update_self]
    · rw [if_neg h76, if_neg h76, Run.run_pure]
  write c iblock block := by
    show (ite _ _ _ : Fs Files _).run _ = _
    by_cases h76 : iblock < sfsNdirBlocks + sfsNindBlocks
    · rw [if_pos h76, if_pos h76, Run.run_bind, Run.run_modify, Run.andThen_done, Run.run_pure,
        Filesystem.withBlocks, Filesystem.withBlocks, Files.setBlock]
      dsimp only
      rw [Function.update_self, Function.update_idem]
    · rw [if_neg h76, if_neg h76, Run.run_pure]

/-! ## The bytes that `sfs_write` leaves -/

section Write

variable {c : Blocks} {r : BlockRange} {o z : ℕ} {memory : Memory} {tmpBlock : Block}

theorem toNat_blockOf {p : ℕ} (hp : p < mappedBytes) : (UInt64.ofNat (p / 512)).toNat = p / 512 :=
  UInt64.toNat_ofNat_of_lt' (by unfold mappedBytes at hp; show p / 512 < 2 ^ 64; omega)

theorem byte_written (h : r.Covers o z) {p : ℕ} (hp : p < mappedBytes) :
    (writtenUpTo r memory tmpBlock c (r.lastBlock.toNat + 1)).byte p =
      if o / 512 ≤ p / 512 ∧ p / 512 ≤ (o + z - 1) / 512 then
        writtenBlock r memory tmpBlock (c (UInt64.ofNat (p / 512)))
          (UInt64.ofNat (p / 512)) (placeInBlock p)
      else c.byte p := by
  have hcond : (r.firstBlock ≤ UInt64.ofNat (p / 512) ∧
      (UInt64.ofNat (p / 512)).toNat < r.lastBlock.toNat + 1) ↔
        o / 512 ≤ p / 512 ∧ p / 512 ≤ (o + z - 1) / 512 := by
    rw [UInt64.le_iff_toNat_le, toNat_blockOf hp, h.firstBlock, h.lastBlock, Nat.lt_succ_iff]
  unfold Blocks.byte writtenUpTo
  by_cases hin : o / 512 ≤ p / 512 ∧ p / 512 ≤ (o + z - 1) / 512
  · rw [if_pos hin, if_pos (hcond.mpr hin)]
  · rw [if_neg hin, if_neg fun e => hin (hcond.mp e)]

/-- **If the range begins with a block**, the bytes of its whole blocks are those of the
memory at their position in the file, and those of the last one, if it is copied, are the
first of the buffer. -/
theorem byte_written_of_aligned (h : r.Covers o z) (halign : o % 512 = 0) {p : ℕ}
    (hp : p < mappedBytes) :
    (writtenUpTo r memory tmpBlock c (r.lastBlock.toNat + 1)).byte p =
      if o ≤ p ∧ p < o + z / 512 * 512 then memory p
      else if o ≤ p ∧ p < o + z then memory (p - (o + z / 512 * 512 : ℕ))
      else c.byte p := by
  have hpos := h.pos
  have hnat := toNat_blockOf hp
  rw [byte_written h hp]
  by_cases hin : o / 512 ≤ p / 512 ∧ p / 512 ≤ (o + z - 1) / 512
  · rw [if_pos hin]
    have hfirst : o / 512 ≤ (UInt64.ofNat (p / 512)).toNat := by omega
    have hlast : (UInt64.ofNat (p / 512)).toNat ≤ (o + z - 1) / 512 := by omega
    have hwhole := BlockRange.whole_iff h hfirst hlast
    have hcopied := BlockRange.copied_iff h hfirst hlast
    rw [hnat] at hwhole hcopied
    unfold writtenBlock
    by_cases hw : r.Whole (UInt64.ofNat (p / 512))
    · have hrange := hwhole.mp hw
      rw [if_pos hw, if_pos (by omega), BlockRange.wholeAt_eq h hlast, hnat]
      exact congrArg memory (by rw [val_placeInBlock]; omega)
    · have hc : r.Copied (UInt64.ofNat (p / 512)) := by
        refine hcopied.mpr ?_
        have hnot : ¬ (o ≤ 512 * (p / 512) ∧ 512 * (p / 512 + 1) ≤ o + z) :=
          fun e => hw (hwhole.mpr e)
        omega
      have hrange := hcopied.mp hc
      have hzero : (0 : UInt64).toNat = 0 := rfl
      rw [if_neg hw, if_pos hc, if_neg (by omega), hc.1, BlockRange.sliceAt_eq h hc,
        BlockRange.sliceLen_eq h hlast hc, hnat, hzero]
      by_cases hlt : p < o + z
      · rw [if_pos (by omega), splice_apply_of_mem (Nat.zero_le _)
          (by rw [val_placeInBlock]; omega)]
        exact congrArg memory (by rw [val_placeInBlock]; omega)
      · rw [if_neg (by omega), splice_apply_of_notMem (Or.inr (by rw [val_placeInBlock]; omega))]
        rfl
  · rw [if_neg hin, if_neg (by omega), if_neg (by omega)]

variable (c memory tmpBlock) in
/-- **If it begins within a block**, its first byte is one of the stack. -/
theorem byte_written_of_within (h : r.Covers o z) (halign : o % 512 ≠ 0)
    (hmapped : o + z ≤ mappedBytes) :
    (writtenUpTo r memory tmpBlock c (r.lastBlock.toNat + 1)).byte o =
      tmpBlock (placeInBlock o) := by
  have hpos := h.pos
  have hp : o < mappedBytes := by omega
  have hnat := toNat_blockOf hp
  have hfirst : o / 512 ≤ (UInt64.ofNat (o / 512)).toNat := by omega
  have hlast : (UInt64.ofNat (o / 512)).toNat ≤ (o + z - 1) / 512 := by omega
  rw [byte_written h hp, if_pos (by omega), writtenBlock, if_neg, if_neg]
  · rw [BlockRange.copied_iff h hfirst hlast, hnat]
    omega
  · rw [BlockRange.whole_iff h hfirst hlast, hnat]
    omega

end Write

/-! ## Ranges that an inode maps -/

section Mapped

variable {s : SfsState Files} {fh k size : UInt64} {r : BlockRange} {o z : ℕ}

theorem lastBlock_lt_mapped (h : r.Covers o z) (hmapped : o + z ≤ mappedBytes) :
    r.lastBlock.toNat < mappedBlocks := by
  have hpos := h.pos
  rw [h.lastBlock]
  unfold mappedBytes at hmapped
  unfold mappedBlocks
  omega

/-- The number of bytes of such a range is an `int`. -/
theorem toCInt_of_mapped (hmapped : o + size.toNat ≤ mappedBytes) : toCInt size = size.toNat := by
  unfold mappedBytes at hmapped
  rw [toCInt]
  split <;> omega

/-- The blocks of the file are those that it had before its inode was touched. -/
theorem OpenFile.begun_fs (h : OpenFile s fh k) (v : Inode) (host : Host) :
    (s.begun k v host).fs = ((s.fs.touched k v).onHost host).withBlocks k (s.fs.files k) := by
  have hsame : ((s.fs.touched k v).onHost host).files = s.fs.files :=
    (frame_touched h.handle k v).files
  rw [← hsame, withBlocks_self]
  rfl

end Mapped

/-! ## `sfs_write` as an overlay -/

/-- **Between two states a file has been overlaid** by `z` bytes at `o`, and it has grown if
it ended before. -/
structure Overlaid (o z : ℕ) (memory : Memory) (k : UInt64) (s s' : SfsState Files) : Prop where
  data : ∀ p < mappedBytes, o ≤ p → p < o + z → (s'.fs.files k).byte p = memory (p - o)
  rest : ∀ p < mappedBytes, p < o ∨ o + z ≤ p → (s'.fs.files k).byte p = (s.fs.files k).byte p
  size : (s'.fs.logicalInode k).size.toNat = max (s.fs.logicalInode k).size.toNat (o + z)

/-- **The bytes that `sfs_write` loads are the bytes of the buffer**: the range begins with
a block, and the memory is the same where the loop looks and where the data are. -/
structure LoadsData (o z : ℕ) (memory : Memory) : Prop where
  aligned : o % 512 = 0
  whole : ∀ j < z / 512 * 512, memory (o + j : ℕ) = memory j
  last : ∀ j < z % 512, memory j = memory (z / 512 * 512 + j : ℕ)

section Overlay

variable {allocate : Fs Files (Option Inode)} {deallocate : Inode → Fs Files ℤ}
  {s s' : SfsState Files} {fh k size : UInt64} {o z : ℕ} {memory : Memory} {tmpBlock : Block}
  {r : BlockRange} {c : Blocks}

theorem overlaid_iff : Overlaid o z memory k s s' ↔
    (∀ p < mappedBytes, (s'.fs.files k).byte p =
      if o ≤ p ∧ p < o + z then memory (p - o) else (s.fs.files k).byte p) ∧
    (s'.fs.logicalInode k).size.toNat = max (s.fs.logicalInode k).size.toNat (o + z) := by
  constructor
  · intro h
    refine ⟨fun p hp => ?_, h.size⟩
    split
    · next hin => exact h.data p hp hin.1 hin.2
    · next hin => exact h.rest p hp (by omega)
  · rintro ⟨hbytes, hsize⟩
    refine ⟨fun p hp hlo hhi => ?_, fun p hp hout => ?_, hsize⟩
    · rw [hbytes p hp, if_pos ⟨hlo, hhi⟩]
    · rw [hbytes p hp, if_neg (by omega)]

variable (memory c) in
/-- **The bytes are those of an overlay** exactly if the loop loads the data. -/
theorem overlay_iff (h : r.Covers o z) (hmapped : o + z ≤ mappedBytes) :
    (∀ tmpBlock, ∀ p < mappedBytes,
      (writtenUpTo r memory tmpBlock c (r.lastBlock.toNat + 1)).byte p =
        if o ≤ p ∧ p < o + z then memory (p - o) else c.byte p) ↔ LoadsData o z memory := by
  have hpos := h.pos
  constructor
  · intro hoverlay
    have haligned : o % 512 = 0 := by
      by_contra hwithin
      have hbyte : ∀ tmpBlock : Block, tmpBlock (placeInBlock o) = memory ((o : ℕ) - o) := by
        intro tmpBlock
        rw [← byte_written_of_within c memory tmpBlock h hwithin hmapped,
          hoverlay tmpBlock o (by omega), if_pos (by omega)]
      exact absurd ((hbyte fun _ => 0).trans (hbyte fun _ => 1).symm) (by decide)
    have hat : ∀ p < mappedBytes, o ≤ p → p < o + z →
        (if p < o + z / 512 * 512 then memory p else memory (p - (o + z / 512 * 512 : ℕ))) =
          memory (p - o) := by
      intro p hp hlo hhi
      have hp' := hoverlay Block.zero p hp
      rw [byte_written_of_aligned h haligned hp] at hp'
      have hdata : (if o ≤ p ∧ p < o + z then memory (p - o) else c.byte p) = memory (p - o) :=
        if_pos ⟨hlo, hhi⟩
      rw [← hdata, ← hp']
      split
      · next hlt => rw [if_pos ⟨hlo, hlt⟩]
      · next hlt => rw [if_neg fun e => hlt e.2, if_pos ⟨hlo, hhi⟩]
    refine ⟨haligned, fun j hj => ?_, fun j hj => ?_⟩
    · have hj' := hat (o + j) (by omega) (by omega) (by omega)
      rw [if_pos (by omega)] at hj'
      rw [hj']
      exact congrArg memory (by omega)
    · have hj' := hat (o + z / 512 * 512 + j) (by omega) (by omega) (by omega)
      rw [if_neg (by omega)] at hj'
      have hleft : ((o + z / 512 * 512 + j : ℕ) : ℤ) - (o + z / 512 * 512 : ℕ) = j := by omega
      have hright : ((o + z / 512 * 512 + j : ℕ) : ℤ) - o = (z / 512 * 512 + j : ℕ) := by omega
      rw [hleft, hright] at hj'
      exact hj'
  · intro hloads tmpBlock p hp
    rw [byte_written_of_aligned h hloads.aligned hp]
    by_cases hwhole : o ≤ p ∧ p < o + z / 512 * 512
    · have hload := hloads.whole (p - o) (by omega)
      rw [if_pos hwhole, if_pos (by omega)]
      rw [show o + (p - o) = p by omega] at hload
      rw [hload]
      exact congrArg memory (by omega)
    · rw [if_neg hwhole]
      by_cases hin : o ≤ p ∧ p < o + z
      · have hload := hloads.last (p - (o + z / 512 * 512)) (by omega)
        rw [if_pos hin, if_pos hin]
        have hleft : ((p - (o + z / 512 * 512) : ℕ) : ℤ) = p - (o + z / 512 * 512 : ℕ) := by omega
        rw [hleft] at hload
        rw [hload]
        exact congrArg memory (by omega)
      · rw [if_neg hin, if_neg hin]

variable (allocate deallocate) in
/-- **What `sfs_write` leaves**, if no call fails or it returns the number of bytes for some
contents of the stack: for all contents it writes the blocks of the range, and the inode. -/
theorem sfsWrite_returns (h : OpenFile s fh k) (hpos : 0 < size)
    (hmapped : o + size.toNat ≤ mappedBytes) (hreturns : s.fs.host.NoFaults ∨ ∃ tmpBlock s',
      (sfsWrite (arrayLayer allocate deallocate) memory tmpBlock size o fh).run s =
        .done size.toNat s') :
    ∃ v now changed host, v = extended (s.fs.logicalInode k) (UInt64.ofInt o + size) now changed ∧
      ∀ tmpBlock, ∃ s',
        (sfsWrite (arrayLayer allocate deallocate) memory tmpBlock size o fh).run s =
          .done size.toNat s' ∧
        s'.fs = ((s.fs.touched k v).onHost host).withBlocks k (writtenUpTo (blockRange o size)
          memory tmpBlock (s.fs.files k) ((blockRange o size).lastBlock.toNat + 1)) := by
  have hsize : size ≠ 0 := fun e => by
    rw [e] at hpos
    exact UInt64.lt_irrefl 0 hpos
  have hcovers := BlockRange.covers_blockRange (o := o) hpos
    (by unfold mappedBytes at hmapped; omega)
  obtain ⟨hfaults, s₁, hfail⟩ | ⟨v, now, changed, host, hv, -, hrun⟩ :=
    sfsWrite_cases (arrayLayer allocate deallocate) o h hsize
  · obtain hquiet | ⟨tmpBlock, s₂, hreturns⟩ := hreturns
    · exact absurd hquiet hfaults
    · rw [hfail memory tmpBlock] at hreturns
      have hret : (-1 : ℤ) = size.toNat := (Outcome.done.inj hreturns).1
      omega
  · refine ⟨v, now, changed, host, hv, fun tmpBlock => ?_⟩
    have hinumber : v.inumber = k := by
      rw [hv, extended_inumber]
      exact h.inumber
    obtain ⟨ok, fs', hloop, hok, hfs'⟩ := writeLoop_ensures (s.fs.files k) memory
      tmpBlock hcovers
      (fileArray_arrayLayer allocate deallocate ((s.fs.touched k v).onHost host) v)
    have hlast := lastBlock_lt_mapped hcovers hmapped
    rw [hinumber, ← h.begun_fs] at hloop
    rw [hinumber, Nat.min_eq_left hlast] at hfs'
    rw [decide_eq_true hlast] at hok
    subst hok
    refine ⟨{ s.begun k v host with mu := .unlock :: .lock :: s.mu, fs := fs' }, ?_, hfs'⟩
    rw [hrun memory tmpBlock, writeBlocks]
    dsimp only
    rw [Run.run_bind, onFs_run hloop, Run.andThen_done, if_pos rfl, toCInt_of_mapped hmapped]
    rfl

/-- **`sfs_write` is an overlay** exactly if the loop loads the data and, where the file
grows, the number of the block of its inode fits into an `int`. -/
theorem write_is_overlay_iff (h : OpenFile s fh k) (hpos : 0 < size)
    (hmapped : o + size.toNat ≤ mappedBytes) (hreturns : ∃ tmpBlock s',
      (sfsWrite (arrayLayer allocate deallocate) memory tmpBlock size o fh).run s =
        .done size.toNat s') :
    (∀ tmpBlock s', (sfsWrite (arrayLayer allocate deallocate) memory tmpBlock size o fh).run s =
      .done size.toNat s' → Overlaid o size.toNat memory k s s') ↔
    LoadsData o size.toNat memory ∧ ((inodeBlock k).toNat < 2 ^ 31 ∨
      o + size.toNat ≤ (s.fs.logicalInode k).size.toNat) := by
  obtain ⟨v, now, changed, host, hv, hends⟩ := sfsWrite_returns allocate deallocate h hpos hmapped
    (Or.inr hreturns)
  have hcovers := BlockRange.covers_blockRange (o := o) hpos
    (by unfold mappedBytes at hmapped; omega)
  have hbytes := overlay_iff memory (s.fs.files k) hcovers hmapped
  have hinumber : v.inumber = k := by
    rw [hv, extended_inumber]
    exact h.inumber
  have hstop : (UInt64.ofInt o + size).toNat = o + size.toNat := by
    unfold mappedBytes at hmapped
    rw [UInt64.toNat_add, BlockRange.toNat_ofInt_natCast (by omega)]
    omega
  have hgrown : (s.fs.touched k v).logicalInode k =
      if (inodeBlock k).toNat < 2 ^ 31 then v else s.fs.logicalInode k :=
    logicalInode_touched h.handle h.cacheInt h.valid hinumber
  have hsize : ((s.fs.touched k v).logicalInode k).size.toNat =
      max (s.fs.logicalInode k).size.toNat (o + size.toNat) ↔
        (inodeBlock k).toNat < 2 ^ 31 ∨ o + size.toNat ≤ (s.fs.logicalInode k).size.toNat := by
    rw [hgrown]
    split
    · next hint =>
      refine iff_of_true ?_ (Or.inl hint)
      rw [hv, extended_size, hstop]
    · next hint =>
      refine Iff.trans ?_ (or_iff_right hint).symm
      omega
  rw [← hbytes, ← hsize]
  constructor
  · intro hoverlaid
    refine ⟨fun tmpBlock => ?_, ?_⟩
    · obtain ⟨s', hrun, hfs⟩ := hends tmpBlock
      have hwritten := (overlaid_iff.mp (hoverlaid tmpBlock s' hrun)).1
      rw [hfs, withBlocks_files] at hwritten
      exact hwritten
    · obtain ⟨s', hrun, hfs⟩ := hends Block.zero
      have hgrows := (overlaid_iff.mp (hoverlaid Block.zero s' hrun)).2
      rw [hfs] at hgrows
      exact hgrows
  · rintro ⟨hwritten, hgrows⟩ tmpBlock s₁ hrun₁
    obtain ⟨s', hrun, hfs⟩ := hends tmpBlock
    rw [hrun] at hrun₁
    cases hrun₁
    refine overlaid_iff.mpr ⟨?_, ?_⟩
    · rw [hfs, withBlocks_files]
      exact hwritten tmpBlock
    · rw [hfs]
      exact hgrows

end Overlay

/-- An open file of so many bytes, with these blocks. -/
def openedArray (size : UInt64) (c : Blocks) : SfsState Files :=
  openedTwo (Filesystem.blank oneFreeBlock fun _ => c) { emptyTwo with size := size }

theorem openFile_openedArray (size : UInt64) (c : Blocks) :
    OpenFile (openedArray size c) 0 2 ∧ ((openedArray size c).fs.logicalInode 2).size = size ∧
      (openedArray size c).fs.files 2 = c ∧ (openedArray size c).fs.host.NoFaults := by
  have hvalid : oneFreeBlock.ValidInumber 2 := by constructor <;> decide
  have hcache : (-2 ^ 31 : ℤ) ≤ 0 ∧ (0 : ℤ) < 2 ^ 31 := by decide
  have hstate : InodeState (Filesystem.blank oneFreeBlock (fun _ => c : Files)) :=
    inodeState_oneFreeBlock
  obtain ⟨hopen, hinode, hframe⟩ := openFile_openedTwo hstate hcache hvalid
    (v := { emptyTwo with size := size }) rfl
  refine ⟨hopen, ?_, ?_, ?_⟩
  · exact congrArg Inode.size hinode
  · exact congrFun hframe.files 2
  · exact (hframe.reliable hstate.reliable).noFaults

/-- A write to it returns, and what it leaves. -/
theorem sfsWrite_openedArray (memory : Memory) {o : ℕ} {size : UInt64} (hpos : 0 < size)
    (hmapped : o + size.toNat ≤ mappedBytes) : ∃ s',
    (sfsWrite (arrayLayer sfsFsInodeAllocate sfsFsInodeDeallocate) memory Block.zero size o 0).run
      (openedArray 0 fun _ => Block.zero) =
        .done size.toNat s' ∧
      s'.fs.files 2 = writtenUpTo (blockRange o size) memory Block.zero (fun _ => Block.zero)
        ((blockRange o size).lastBlock.toNat + 1) := by
  obtain ⟨hopen, -, hfiles, hquiet⟩ := openFile_openedArray 0 fun _ => Block.zero
  obtain ⟨v, now, changed, host, hv, hends⟩ :=
    sfsWrite_returns sfsFsInodeAllocate sfsFsInodeDeallocate
    hopen hpos hmapped (Or.inl hquiet)
  obtain ⟨s', hrun, hfs⟩ := hends Block.zero
  refine ⟨s', hrun, ?_⟩
  rw [hfs, withBlocks_files, hfiles]

/-- A write of the first block of a file. -/
theorem write_is_overlay_iff_firstBlock : ∃ s',
    (sfsWrite (arrayLayer sfsFsInodeAllocate sfsFsInodeDeallocate) (fun _ => 1) Block.zero 512
      (0 : ℕ) 0).run
      (openedArray 0 fun _ => Block.zero) = .done 512 s' ∧
    Overlaid 0 512 (fun _ => 1) 2 (openedArray 0 fun _ => Block.zero) s' := by
  have hmapped : 0 + (512 : UInt64).toNat ≤ mappedBytes := by decide
  obtain ⟨s', hrun, -⟩ := sfsWrite_openedArray (fun _ => 1) (by decide) hmapped
  have hloads : LoadsData 0 512 fun _ => 1 := ⟨rfl, fun _ _ => rfl, fun _ _ => rfl⟩
  exact ⟨s', hrun, (write_is_overlay_iff (openFile_openedArray 0 _).1 (by decide) hmapped
    ⟨_, s', hrun⟩).mpr ⟨hloads, Or.inl (by decide)⟩ Block.zero s' hrun⟩

/-- **A write of the second block** stores what follows the buffer. -/
theorem write_loads_past_buffer : ∃ s',
    (sfsWrite (arrayLayer sfsFsInodeAllocate sfsFsInodeDeallocate)
      (fun i => if i < 512 then 1 else 0) Block.zero 512 (512 : ℕ) 0).run
      (openedArray 0 fun _ => Block.zero) = .done 512 s' ∧
    ¬ Overlaid 512 512 (fun i => if i < 512 then 1 else 0) 2
      (openedArray 0 fun _ => Block.zero) s' := by
  have hmapped : 512 + (512 : UInt64).toNat ≤ mappedBytes := by decide
  obtain ⟨s', hrun, hfiles⟩ := sfsWrite_openedArray (fun i => if i < 512 then 1 else 0)
    (by decide) hmapped
  refine ⟨s', hrun, fun hoverlaid => ?_⟩
  have hbyte := hoverlaid.data 512 (by decide) (by decide) (by decide)
  rw [hfiles, byte_written_of_aligned (BlockRange.covers_blockRange (by decide) (by decide))
    (by decide) (by decide), if_pos (by decide)] at hbyte
  exact absurd hbyte (by decide)

end SimpleFileSystem
