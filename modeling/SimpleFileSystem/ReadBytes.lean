import SimpleFileSystem.FileBytes

/-!
# What `sfs_read` returns

`sfs_read` should return the bytes of the file from an offset on, as many as there are of
those that are asked for.  It never looks at the size of the file, so it returns the number
that is asked for, and it puts blocks at the addresses that `BlockRanges` says are wrong.

`ReadsFile` is the property of an offset, a number of bytes and a file size, for all files
of that size.  `read_returns_bytes_iff` says which offsets, numbers and sizes have it.  For
the others the file that is all zeros but for its byte at the offset is enough to tell:
the first byte of the buffer, which should be that one, is zero.
-/

open ByteCodec

namespace SimpleFileSystem

/-- **`sfs_read` returns the file's bytes**: a read of `size` bytes at `o` that succeeds
returns the number of them that a file of `fileSize` bytes has, and puts these bytes into
the buffer. -/
def ReadsFile (allocate : Fs Files (Option Inode)) (deallocate : Inode → Fs Files ℤ) (o : ℕ)
    (size fileSize : UInt64) : Prop :=
  ∀ (s s' : SfsState Files) (fh k : UInt64) (memory memory' : Memory) (tmpBlock : Block) (n : ℤ),
    OpenFile s fh k → (s.fs.logicalInode k).size = fileSize →
    (sfsRead (arrayLayer allocate deallocate) memory tmpBlock size o fh).run s =
      .done (n, memory') s' → n ≠ -1 →
    n = min size.toNat (fileSize.toNat - o) ∧
      ∀ i : ℕ, i < n → memory' i = (s.fs.files k).byte (o + i)

/-- The ranges for which the blocks are put where they belong: those that begin with a block
and hold no whole one, and those that begin with the first block and end with a block. -/
def PutsBlocksRight (o z : ℕ) : Prop :=
  o % 512 = 0 ∧ (z < 512 ∨ o = 0 ∧ z % 512 = 0)

section Loop

variable {r : BlockRange} {o z : ℕ} {iblock : UInt64} {memory : Memory} {c : Blocks}

theorem byte_eq {p i j : ℕ} (hi : iblock.toNat = i) (hj : j < 512) (hp : p = 512 * i + j) :
    c.byte p = c iblock ⟨j, hj⟩ := by
  have hdiv : p / 512 = iblock.toNat := by omega
  have hmod : p % 512 = j := by omega
  unfold Blocks.byte
  rw [hdiv, UInt64.ofNat_toNat]
  exact congrArg (c iblock) (Fin.ext hmod)

/-- The bytes that have been read are those of the file. -/
theorem readInto_of_right (h : r.Covers o z) (hright : PutsBlocksRight o z)
    (hfirst : r.firstBlock ≤ iblock) (hlast : iblock ≤ r.lastBlock)
    (hI : ∀ j < z, o + j < 512 * iblock.toNat → memory (j : ℕ) = c.byte (o + j)) :
    ∀ j < z, o + j < 512 * (iblock.toNat + 1) →
      readInto r memory iblock (c iblock) (j : ℕ) = c.byte (o + j) := by
  have hpos := h.pos
  rw [UInt64.le_iff_toNat_le, h.firstBlock] at hfirst
  rw [UInt64.le_iff_toNat_le, h.lastBlock] at hlast
  have hwhole := BlockRange.whole_iff h hfirst hlast
  have hcopied := BlockRange.copied_iff h hfirst hlast
  unfold PutsBlocksRight at hright
  intro j hj hstop
  unfold readInto
  by_cases hw : r.Whole iblock
  · have hrange := hwhole.mp hw
    rw [if_pos hw, BlockRange.wholeAt_eq h hlast]
    by_cases hold : o + j < 512 * iblock.toNat
    · rw [Memory.setBlock_of_notMem (by omega)]
      exact hI j hj hold
    · have hlt : j - 512 * iblock.toNat < 512 := by omega
      rw [Memory.setBlock_of_mem (j := j - 512 * iblock.toNat) hlt (by omega)]
      exact (byte_eq rfl hlt (by omega)).symm
  · have hnot : ¬ (o ≤ 512 * iblock.toNat ∧ 512 * (iblock.toNat + 1) ≤ o + z) :=
      fun e => hw (hwhole.mpr e)
    have hc : r.Copied iblock := hcopied.mpr (by omega)
    have hrange := hcopied.mp hc
    have hzero : (0 : UInt64).toNat = 0 := rfl
    have hlt : j < 512 := by omega
    rw [if_neg hw, if_pos hc, BlockRange.sliceAt_eq h hc, BlockRange.sliceLen_eq h hlast hc,
      hc.1, hzero, Memory.copy_of_mem (by omega) (by omega), view, dif_pos (by omega)]
    have hnat : 0 + ((j : ℤ) - -((o % 512 : ℕ) : ℤ)).toNat = j := by omega
    rw [byte_eq (show iblock.toNat = iblock.toNat from rfl) hlt (by omega)]
    exact congrArg (c iblock) (Fin.ext hnat)

/-- The file whose only byte that is not zero is the one at `o`. -/
def markedAt (o : ℕ) : Blocks :=
  fun i b => if 512 * i.toNat + b = o then 1 else 0

theorem byte_markedAt {o : ℕ} (ho : o < mappedBytes) : (markedAt o).byte o = 1 := by
  have hnat := toNat_blockOf ho
  refine if_pos ?_
  show 512 * (UInt64.ofNat (o / 512)).toNat + o % 512 = o
  omega

/-- Where the blocks are not put right, the marked byte does not end up at the beginning of
the buffer. -/
theorem readInto_of_wrong (h : r.Covers o z) (hwrong : ¬ PutsBlocksRight o z)
    (hfirst : r.firstBlock ≤ iblock) (hlast : iblock ≤ r.lastBlock)
    (hI : memory 0 = 0 ∨ o = 0 ∧ iblock.toNat ≤ r.lastBlock.toNat) :
    readInto r memory iblock (markedAt o iblock) 0 = 0 ∨
      o = 0 ∧ iblock.toNat + 1 ≤ r.lastBlock.toNat := by
  have hpos := h.pos
  rw [UInt64.le_iff_toNat_le, h.firstBlock] at hfirst
  rw [UInt64.le_iff_toNat_le, h.lastBlock] at hlast
  rw [h.lastBlock] at hI ⊢
  have hwhole := BlockRange.whole_iff h hfirst hlast
  have hcopied := BlockRange.copied_iff h hfirst hlast
  unfold PutsBlocksRight at hwrong
  by_cases hnext : o = 0 ∧ iblock.toNat + 1 ≤ (o + z - 1) / 512
  · exact Or.inr hnext
  refine Or.inl ?_
  unfold readInto
  by_cases hw : r.Whole iblock
  · have hrange := hwhole.mp hw
    rw [if_pos hw, BlockRange.wholeAt_eq h hlast, Memory.setBlock_of_notMem (by omega)]
    exact hI.resolve_right (by omega)
  · rw [if_neg hw]
    by_cases hc : r.Copied iblock
    · have hrange := hcopied.mp hc
      have hzero : (0 : UInt64).toNat = 0 := rfl
      rw [if_pos hc, BlockRange.sliceAt_eq h hc, BlockRange.sliceLen_eq h hlast hc, hc.1, hzero]
      by_cases hin : o % 512 < o + z - 512 * iblock.toNat
      · rw [Memory.copy_of_mem (by omega) (by omega), view, dif_pos (by omega)]
        refine if_neg ?_
        show ¬ 512 * iblock.toNat + (0 + ((0 : ℤ) - -((o % 512 : ℕ) : ℤ)).toNat) = o
        omega
      · rw [Memory.copy_of_notMem (by omega)]
        exact hI.resolve_right (by omega)
    · rw [if_neg hc]
      have hnot : ¬ (o ≤ 512 * iblock.toNat ∧ o + z < 512 * (iblock.toNat + 1)) :=
        fun e => hc (hcopied.mpr e)
      have hnot' : ¬ (o ≤ 512 * iblock.toNat ∧ 512 * (iblock.toNat + 1) ≤ o + z) :=
        fun e => hw (hwhole.mpr e)
      exact hI.resolve_right (by omega)

end Loop

section Main

variable {allocate : Fs Files (Option Inode)} {deallocate : Inode → Fs Files ℤ}
  {s : SfsState Files} {fh k size : UInt64} {o : ℕ} {memory : Memory} {tmpBlock : Block}

/-- A read of no bytes. -/
theorem sfsRead_zero (L : InodeLayer Files) (h : ¬ s.Locked) :
    (sfsRead L memory tmpBlock 0 o fh).run s =
      .done (0, memory) { s with mu := .unlock :: .lock :: s.mu } := by
  rw [sfsRead, Run.run_bind, lock_run_of_free h, Run.andThen_done, if_pos rfl]
  rfl

variable (allocate deallocate memory tmpBlock) in
/-- **`sfs_read` of an open file** ends with -1, after a call that failed, or with `size`,
and with the memory that the loop leaves. -/
theorem sfsRead_ends (h : OpenFile s fh k) (hpos : 0 < size)
    (hmapped : o + size.toNat ≤ mappedBytes) (I : ℕ → Memory → Prop)
    (hstep : ∀ iblock memory, (blockRange o size).firstBlock ≤ iblock →
      iblock ≤ (blockRange o size).lastBlock → I iblock.toNat memory →
      I (iblock.toNat + 1)
        (readInto (blockRange o size) memory iblock (s.fs.files k iblock)))
    (hinit : I (blockRange o size).firstBlock.toNat memory) :
    ∃ n memory' s', (sfsRead (arrayLayer allocate deallocate) memory tmpBlock size o fh).run s =
        .done (n, memory') s' ∧
      (n = -1 ∧ ¬ s.fs.host.NoFaults ∨
        n = size.toNat ∧ I ((blockRange o size).lastBlock.toNat + 1) memory') := by
  have hsize : size ≠ 0 := fun e => by
    rw [e] at hpos
    exact UInt64.lt_irrefl 0 hpos
  have hcovers := BlockRange.covers_blockRange (o := o) hpos
    (by unfold mappedBytes at hmapped; omega)
  obtain ⟨hfaults, s', hfail⟩ | ⟨now, host, -, hrun⟩ := sfsRead_cases
    (arrayLayer allocate deallocate) memory tmpBlock o h hsize
  · exact ⟨-1, memory, s', hfail, Or.inl ⟨rfl, hfaults⟩⟩
  · have hinumber : (accessed (s.fs.logicalInode k) now).inumber = k := h.inumber
    obtain ⟨⟨ok, memory'⟩, fs', hloop, -, stop, hI, htrue, hfalse⟩ :=
      readLoop_ensures memory tmpBlock
      (c := s.fs.files k) hcovers (fileArray_arrayLayer allocate deallocate
        ((s.fs.touched k (accessed (s.fs.logicalInode k) now)).onHost host)
        (accessed (s.fs.logicalInode k) now)) I
      (fun iblock memory hfirst hlast _ => hstep iblock memory hfirst hlast) hinit
    rw [hinumber, ← h.begun_fs] at hloop
    have hlast := lastBlock_lt_mapped hcovers hmapped
    cases ok with
    | false =>
      have hpast := hfalse rfl
      omega
    | true =>
      have hstop := htrue rfl
      subst hstop
      refine ⟨size.toNat, memory', { s.begun k (accessed (s.fs.logicalInode k) now) host with
        mu := .unlock :: .lock :: s.mu, fs := fs' }, ?_, Or.inr ⟨rfl, hI⟩⟩
      rw [hrun, readBlocks]
      dsimp only
      rw [Run.run_bind, onFs_run hloop, Run.andThen_done, if_pos rfl, toCInt_of_mapped hmapped]
      rfl

/-- **`sfs_read` returns the file's bytes** exactly if none are asked for, or all that are
asked for are in the file and their blocks are put right. -/
theorem read_returns_bytes_iff {fileSize : UInt64} (hmapped : o + size.toNat ≤ mappedBytes) :
    ReadsFile allocate deallocate o size fileSize ↔
      size = 0 ∨ o + size.toNat ≤ fileSize.toNat ∧ PutsBlocksRight o size.toNat := by
  have hzero_or : size = 0 ∨ 0 < size := by
    by_cases h0 : size = 0
    · exact Or.inl h0
    · refine Or.inr (UInt64.lt_iff_toNat_lt.mpr ?_)
      exact Nat.pos_of_ne_zero fun e => h0 (UInt64.toNat_inj.mp e)
  constructor
  · intro hreads
    refine hzero_or.imp_right fun hpos => ?_
    have hz := UInt64.lt_iff_toNat_lt.mp hpos
    have h0 : (0 : UInt64).toNat = 0 := rfl
    obtain ⟨hopen, hsize, hfiles, hquiet⟩ := openFile_openedArray fileSize (markedAt o)
    have hcovers := BlockRange.covers_blockRange (o := o) hpos
      (by unfold mappedBytes at hmapped; omega)
    -- the number of bytes, whatever the memory holds
    have hin : o + size.toNat ≤ fileSize.toNat := by
      obtain ⟨n, memory', s', hrun, ⟨-, hfaults⟩ | ⟨rfl, -⟩⟩ := sfsRead_ends allocate deallocate
        (fun _ => 0) Block.zero hopen hpos hmapped (fun _ _ => True) (fun _ _ _ _ _ => trivial)
        trivial
      · exact absurd hquiet hfaults
      · have hn := (hreads _ _ _ _ _ _ _ _ hopen hsize hrun (by omega)).1
        omega
    refine ⟨hin, ?_⟩
    by_contra hwrong
    obtain ⟨n, memory', s', hrun, ⟨-, hfaults⟩ | ⟨rfl, hI⟩⟩ := sfsRead_ends allocate deallocate
      (fun _ => 0) Block.zero hopen hpos hmapped
      (fun stop memory => memory 0 = 0 ∨ o = 0 ∧ stop ≤ (blockRange o size).lastBlock.toNat)
      (fun iblock memory hfirst hlast hI => by
        rw [hfiles]
        exact readInto_of_wrong hcovers hwrong hfirst hlast hI)
      (Or.inl rfl)
    · exact absurd hquiet hfaults
    · have hfirst := (hreads _ _ _ _ _ _ _ _ hopen hsize hrun (by omega)).2 0 (by omega)
      rw [hfiles, Nat.add_zero, byte_markedAt (by omega)] at hfirst
      rcases hI with hI | ⟨-, hI⟩
      · exact absurd (hfirst.symm.trans hI) (by decide)
      · omega
  · rintro hright s s' fh k memory memory' tmpBlock n hopen hsize hrun hn
    rcases hzero_or with rfl | hpos
    · rw [sfsRead_zero _ hopen.idle] at hrun
      cases hrun
      exact ⟨by simp, fun i hi => absurd hi (by omega)⟩
    · have hz := UInt64.lt_iff_toNat_lt.mp hpos
      have h0 : (0 : UInt64).toNat = 0 := rfl
      obtain ⟨hin, hright⟩ := hright.resolve_left fun e => by
        rw [e] at hz
        exact Nat.lt_irrefl _ hz
      have hcovers := BlockRange.covers_blockRange (o := o) hpos
        (by unfold mappedBytes at hmapped; omega)
      obtain ⟨n', memory₁, s₁, hrun₁, hends⟩ := sfsRead_ends allocate deallocate memory tmpBlock
        hopen hpos hmapped
        (fun stop memory => ∀ j < size.toNat, o + j < 512 * stop →
          memory (j : ℕ) = (s.fs.files k).byte (o + j))
        (fun iblock memory hfirst hlast hI => readInto_of_right hcovers hright hfirst hlast hI)
        (fun j _ hj => absurd hj (by rw [hcovers.firstBlock]; have := hright.1; omega))
      rw [hrun₁] at hrun
      cases hrun
      obtain ⟨rfl, -⟩ | ⟨rfl, hI⟩ := hends
      · exact absurd rfl hn
      · refine ⟨by omega, fun i hi => ?_⟩
        have hlast := hcovers.lastBlock
        exact hI i (by omega) (by omega)

end Main

/-- A read of a whole file of one block. -/
theorem read_returns_bytes_iff_firstBlock :
    ReadsFile sfsFsInodeAllocate sfsFsInodeDeallocate 0 512 512 := by
  have hmapped : 0 + (512 : UInt64).toNat ≤ mappedBytes := by decide
  have hin : 0 + (512 : UInt64).toNat ≤ (512 : UInt64).toNat := by decide
  exact (read_returns_bytes_iff hmapped).mpr (Or.inr ⟨hin, rfl, Or.inr ⟨rfl, rfl⟩⟩)

/-- **A read of the second block** leaves the beginning of the buffer alone. -/
theorem read_misplaces_second_block : ∃ memory' s',
    (sfsRead (arrayLayer sfsFsInodeAllocate sfsFsInodeDeallocate) (fun _ => 0) Block.zero 512
      (512 : ℕ) 0).run (openedArray 1024 (markedAt 512)) = .done (512, memory') s' ∧
    ((openedArray 1024 (markedAt 512)).fs.files 2).byte 512 = 1 ∧ memory' 0 = 0 := by
  have hmapped : 512 + (512 : UInt64).toNat ≤ mappedBytes := by decide
  have hpos : (0 : UInt64) < 512 := by decide
  have hcovers := BlockRange.covers_blockRange (o := 512) hpos (by decide)
  have hwrong : ¬ PutsBlocksRight 512 (512 : UInt64).toNat := fun e => absurd e.2 (by decide)
  obtain ⟨hopen, -, hfiles, hquiet⟩ := openFile_openedArray 1024 (markedAt 512)
  obtain ⟨n, memory', s', hrun, ⟨-, hfaults⟩ | ⟨rfl, hI⟩⟩ := sfsRead_ends sfsFsInodeAllocate
    sfsFsInodeDeallocate (fun _ => 0) Block.zero hopen (by decide) hmapped
    (fun stop memory => memory 0 = 0 ∨
      512 = 0 ∧ stop ≤ (blockRange (512 : ℕ) 512).lastBlock.toNat)
    (fun iblock memory hfirst hlast hI => by
      rw [hfiles]
      exact readInto_of_wrong hcovers hwrong hfirst hlast hI)
    (Or.inl rfl)
  · exact absurd hquiet hfaults
  · refine ⟨memory', s', hrun, ?_, ?_⟩
    · rw [hfiles]
      exact byte_markedAt (by decide)
    · exact hI.resolve_right fun e => absurd e.1 (by decide)

end SimpleFileSystem
