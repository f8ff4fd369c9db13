import SimpleFileSystem.MappedFile

/-!
# Where `sfs_read` stores and `sfs_write` loads

The addresses that the loops compute for a block are right for the first block of the
file only.  `Touches` says which they are, and `inside_iff` for which offsets and sizes
they all lie in the caller's buffer.

What a run of `sfs_read` stores is seen in the memory that it leaves, and what a run of
`sfs_write` loads in what it does with another memory.  So the two properties are about
runs: `ReadStaysInside` says that the bytes around the buffer are left alone, and
`WriteStaysInside` that they make no difference.
-/

open ByteCodec

namespace SimpleFileSystem

variable {F : Type}

/-! ## The addresses -/

/-- An address that the loops use for a block. -/
def BlockRange.Touches (r : BlockRange) (iblock : UInt64) (p : ℤ) : Prop :=
  r.Whole iblock ∧ r.wholeAt iblock ≤ p ∧ p < r.wholeAt iblock + blockSize ∨
    r.Copied iblock ∧ r.sliceAt iblock ≤ p ∧ p < r.sliceAt iblock + r.sliceLen iblock

/-- All addresses that are used for a block that a file can have are in a buffer of `z`
bytes. -/
def BlockRange.Inside (r : BlockRange) (z : ℕ) : Prop :=
  ∀ iblock : UInt64, r.firstBlock ≤ iblock → iblock ≤ r.lastBlock →
    iblock < sfsNdirBlocks + sfsNindBlocks → ∀ p, r.Touches iblock p → 0 ≤ p ∧ p < z

/-- **The offsets and sizes for which they are.**  The range begins with a block, and it
begins with the first, holds no whole block, or begins or goes on past what an inode maps;
or it begins within a block, and it ends in that block, ends with a block and begins in
the first one, or begins or goes on past what an inode maps. -/
def InBounds (o z : ℕ) : Prop :=
  if o % 512 = 0 then o = 0 ∨ z < 512 ∨ 38912 ≤ o ∨ 38912 ≤ z
  else o % 512 + z ≤ 512 ∨ o < 512 ∧ (o + z) % 512 = 0 ∨ 38400 ≤ o ∨ 38912 ≤ o % 512 + z

section Inside

variable {r : BlockRange} {o z : ℕ}

theorem inside_of_inBounds (h : r.Covers o z) (hin : InBounds o z) : r.Inside z := by
  have hpos := h.pos
  intro iblock hfirst hlast h76 p htouches
  rw [UInt64.le_iff_toNat_le, h.firstBlock] at hfirst
  rw [UInt64.le_iff_toNat_le, h.lastBlock] at hlast
  have hmapped : iblock.toNat < 76 := UInt64.lt_iff_toNat_lt.mp h76
  unfold InBounds at hin
  rcases htouches with ⟨hwhole, hp, hp'⟩ | ⟨hcopied, hp, hp'⟩
  · rw [BlockRange.wholeAt_eq h hlast] at hp hp'
    obtain ⟨hbegin, hend⟩ := (BlockRange.whole_iff h hfirst hlast).mp hwhole
    unfold blockSize at hp'
    split at hin <;> omega
  · rw [BlockRange.sliceAt_eq h hcopied] at hp hp'
    rw [BlockRange.sliceLen_eq h hlast hcopied] at hp'
    obtain ⟨hbegin, hend⟩ := (BlockRange.copied_iff h hfirst hlast).mp hcopied
    split at hin <;> omega

/-- The last block that a file can have and that is whole. -/
theorem exists_whole {i : ℕ} (h : r.Covers o z) (hbegin : o ≤ 512 * i)
    (hend : 512 * (i + 1) ≤ o + z) (h76 : i < 76) :
    ∃ iblock : UInt64, iblock.toNat = i ∧ r.firstBlock ≤ iblock ∧ iblock ≤ r.lastBlock ∧
      iblock < sfsNdirBlocks + sfsNindBlocks ∧
      r.Touches iblock (512 * i + 511 - (o % 512 : ℕ)) := by
  have hpos := h.pos
  have hnat : (UInt64.ofNat i).toNat = i :=
    UInt64.toNat_ofNat_of_lt' (show i < 2 ^ 64 by omega)
  have hfirst : o / 512 ≤ (UInt64.ofNat i).toNat := by omega
  have hlast : (UInt64.ofNat i).toNat ≤ (o + z - 1) / 512 := by omega
  refine ⟨UInt64.ofNat i, hnat, ?_, ?_, ?_, Or.inl ⟨?_, ?_⟩⟩
  · rw [UInt64.le_iff_toNat_le, h.firstBlock]
    exact hfirst
  · rw [UInt64.le_iff_toNat_le, h.lastBlock]
    exact hlast
  · rw [UInt64.lt_iff_toNat_lt, hnat]
    exact h76
  · refine (BlockRange.whole_iff h hfirst hlast).mpr ?_
    rw [hnat]
    exact ⟨hbegin, hend⟩
  · rw [BlockRange.wholeAt_eq h hlast, hnat]
    unfold blockSize
    omega

/-- The last block, if it is copied. -/
theorem exists_copied (h : r.Covers o z) (hbegin : o ≤ 512 * ((o + z - 1) / 512))
    (hend : (o + z) % 512 ≠ 0) (h76 : (o + z - 1) / 512 < 76) :
    ∃ iblock : UInt64, r.firstBlock ≤ iblock ∧ iblock ≤ r.lastBlock ∧
      iblock < sfsNdirBlocks + sfsNindBlocks ∧ r.Touches iblock (-(o % 512 : ℕ)) := by
  have hpos := h.pos
  have hlast : r.lastBlock.toNat = (o + z - 1) / 512 := h.lastBlock
  have hfirst : o / 512 ≤ r.lastBlock.toNat := by omega
  have hcopied : r.Copied r.lastBlock := by
    refine (BlockRange.copied_iff h hfirst (Nat.le_of_eq hlast)).mpr ?_
    omega
  refine ⟨r.lastBlock, ?_, UInt64.le_refl _, ?_, Or.inr ⟨hcopied, ?_⟩⟩
  · rw [UInt64.le_iff_toNat_le, h.firstBlock]
    exact hfirst
  · rw [UInt64.lt_iff_toNat_lt, hlast]
    exact h76
  · rw [BlockRange.sliceAt_eq h hcopied, BlockRange.sliceLen_eq h (Nat.le_of_eq hlast) hcopied]
    omega

theorem inBounds_of_inside (h : r.Covers o z) (hin : r.Inside z) : InBounds o z := by
  have hpos := h.pos
  -- a block with an address outside: the last whole one, or the last
  have hwhole : ∀ i : ℕ, o ≤ 512 * i → 512 * (i + 1) ≤ o + z → i < 76 →
      512 * i + 511 - (o % 512 : ℕ) < (z : ℤ) := by
    intro i hbegin hend h76
    obtain ⟨iblock, -, hfirst, hlast, hmapped, htouches⟩ := exists_whole h hbegin hend h76
    exact (hin iblock hfirst hlast hmapped _ htouches).2
  have hcopied : o ≤ 512 * ((o + z - 1) / 512) → (o + z) % 512 ≠ 0 →
      (o + z - 1) / 512 < 76 → o % 512 = 0 := by
    intro hbegin hend h76
    obtain ⟨iblock, hfirst, hlast, hmapped, htouches⟩ := exists_copied h hbegin hend h76
    have h0 := (hin iblock hfirst hlast hmapped _ htouches).1
    omega
  by_contra hout
  unfold InBounds at hout
  by_cases h75 : (o + z) / 512 - 1 ≤ 75
  · have hlast := hwhole ((o + z) / 512 - 1)
    split at hout <;> omega
  · have hlast := hwhole 75
    split at hout <;> omega

/-- **The addresses are in the buffer exactly for these.** -/
theorem inside_iff (h : r.Covers o z) : r.Inside z ↔ InBounds o z :=
  ⟨inBounds_of_inside h, inside_of_inBounds h⟩

end Inside

/-! ## What a request stores and loads -/

/-- **`sfs_read` stores into the buffer only**: a run leaves the bytes around it alone. -/
def ReadStaysInside (o : ℕ) (size : UInt64) : Prop :=
  ∀ (s s' : SfsState Unit) (memory memory' : Memory) (tmpBlock : Block) (fh : UInt64) (n : ℤ),
    (sfsRead fsLayer memory tmpBlock size o fh).run s = .done (n, memory') s' →
    ∀ i : ℤ, i < 0 ∨ size.toNat ≤ i → memory' i = memory i

/-- **`sfs_write` loads from the buffer only**: the bytes around it make no difference. -/
def WriteStaysInside (o : ℕ) (size : UInt64) : Prop :=
  ∀ (s : SfsState Unit) (memory memory' : Memory) (tmpBlock : Block) (fh : UInt64),
    (∀ i : ℤ, 0 ≤ i → i < size.toNat → memory i = memory' i) →
    (sfsWrite fsLayer memory tmpBlock size o fh).run s =
      (sfsWrite fsLayer memory' tmpBlock size o fh).run s

section StaysInside

variable {r : BlockRange} {o z : ℕ} {memory memory' : Memory} {tmpBlock : Block} {v : Inode}
  {iblock : UInt64}

/-- What `sfs_read` does to a byte that is not at an address of the block. -/
theorem readInto_of_not_touches {block : Block} {p : ℤ} (hp : ¬ r.Touches iblock p) :
    readInto r memory iblock block p = memory p := by
  unfold readInto
  by_cases hwhole : r.Whole iblock
  · have hout : ¬ (r.wholeAt iblock ≤ p ∧ p < r.wholeAt iblock + blockSize) :=
      fun h => hp (Or.inl ⟨hwhole, h⟩)
    unfold blockSize at hout
    rw [if_pos hwhole, Memory.setBlock_of_notMem (by omega)]
  · rw [if_neg hwhole]
    by_cases hcopied : r.Copied iblock
    · have hout : ¬ (r.sliceAt iblock ≤ p ∧ p < r.sliceAt iblock + r.sliceLen iblock) :=
        fun h => hp (Or.inr ⟨hcopied, h⟩)
      rw [if_pos hcopied, Memory.copy_of_notMem (by omega)]
    · rw [if_neg hcopied]

theorem block_congr (hwhole : r.Whole iblock)
    (hagree : ∀ p, r.Touches iblock p → memory p = memory' p) :
    memory.block (r.wholeAt iblock) = memory'.block (r.wholeAt iblock) := by
  funext i
  have hi := i.isLt
  refine hagree _ (Or.inl ⟨hwhole, ?_⟩)
  unfold blockSize
  omega

theorem splice_congr (hcopied : r.Copied iblock) (old : Block)
    (hagree : ∀ p, r.Touches iblock p → memory p = memory' p) :
    splice old (r.sliceA iblock).toNat (r.sliceLen iblock)
        (fun i => memory (r.sliceAt iblock + i)) =
      splice old (r.sliceA iblock).toNat (r.sliceLen iblock)
        (fun i => memory' (r.sliceAt iblock + i)) := by
  have hzero : (0 : UInt64).toNat = 0 := rfl
  rw [hcopied.1, hzero]
  funext i
  by_cases hi : (i : ℕ) < r.sliceLen iblock
  · rw [splice_apply_of_mem (Nat.zero_le _) (by omega),
      splice_apply_of_mem (Nat.zero_le _) (by omega)]
    exact hagree _ (Or.inr ⟨hcopied, by omega⟩)
  · rw [splice_apply_of_notMem (by omega), splice_apply_of_notMem (by omega)]

/-- **One iteration of `sfs_write`** is the same for memories that agree in the buffer, if
all addresses are in it. -/
theorem writeStep_congr (hin : r.Inside z) (hagree : ∀ p : ℤ, 0 ≤ p → p < z → memory p = memory' p)
    (hfirst : r.firstBlock ≤ iblock) :
    writeStep fsLayer memory r (iblock, v, tmpBlock) =
      (writeStep fsLayer memory' r (iblock, v, tmpBlock) : Fs Unit _) := by
  rw [writeStep, writeStep]
  by_cases hlast : iblock ≤ r.lastBlock
  · rw [if_neg (not_not.mpr hlast), if_neg (not_not.mpr hlast), overlayTmp, overlayTmp]
    by_cases h76 : iblock < sfsNdirBlocks + sfsNindBlocks
    · have htouches : ∀ p, r.Touches iblock p → memory p = memory' p := fun p hp =>
        hagree p (hin iblock hfirst hlast h76 p hp).1 (hin iblock hfirst hlast h76 p hp).2
      by_cases hcopied : r.Copied iblock
      · have hwhole : ¬ r.Whole iblock := fun hw => hcopied.2 hw.2
        simp only [if_pos hcopied, if_neg hwhole, splice_congr hcopied _ htouches]
      · by_cases hwhole : r.Whole iblock
        · simp only [if_neg hcopied, if_pos hwhole, block_congr hwhole htouches]
        · simp only [if_neg hcopied, if_neg hwhole]
    · simp only [(fsLayer_past h76 _).1, (fsLayer_past h76 _).2, Run.pure_bind']
      by_cases hcopied : r.Copied iblock
      · simp [hcopied]
      · simp [hcopied]
  · rw [if_pos hlast, if_pos hlast]

theorem allows_onFs {α : Type} {x : Fs Unit α} {Q : α → Prop} (h : Run.Allows x Q) :
    Run.Allows (onFs x) Q := by
  intro s a s' hrun
  obtain ⟨fs, hx, -⟩ := onFs_eq_done hrun
  exact h s.fs a fs hx

theorem allows_return {α : Type} {a : α} {Q : α → Prop} (h : Q a) :
    Run.Allows (unlock >>= fun _ => pure a : Sfs Unit α) Q :=
  (Run.allows_true _).bind fun _ _ => Run.allows_pure h

/-- **One iteration of `sfs_read`** leaves the bytes around the buffer alone, if all addresses
are in it. -/
theorem allows_readStep (h : r.Covers o z) (hin : r.Inside z) {b : UInt64 × Memory × Block}
    (hfirst : r.firstBlock ≤ b.1) (hI : ∀ p : ℤ, p < 0 ∨ z ≤ p → b.2.1 p = memory p) :
    Run.Allows (readStep fsLayer v r b : Fs Unit _)
      (Sum.elim (fun b' => r.firstBlock ≤ b'.1 ∧ ∀ p : ℤ, p < 0 ∨ z ≤ p → b'.2.1 p = memory p)
        fun res => ∀ p : ℤ, p < 0 ∨ z ≤ p → res.2 p = memory p) := by
  obtain ⟨iblock, m, tmpBlock⟩ := b
  dsimp only at hfirst hI
  rw [readStep]
  by_cases hlast : iblock ≤ r.lastBlock
  · have hnext : r.firstBlock ≤ iblock + 1 := by
      have hsucc := BlockRange.succ_toNat h hlast
      rw [UInt64.le_iff_toNat_le] at hfirst ⊢
      omega
    rw [if_neg (not_not.mpr hlast)]
    by_cases h76 : iblock < sfsNdirBlocks + sfsNindBlocks
    · have hstored : ∀ block p, p < 0 ∨ (z : ℤ) ≤ p →
          readInto r m iblock block p = memory p := by
        intro block p hp
        rw [readInto_of_not_touches fun ht => ?_]
        · exact hI p hp
        · have hinside := hin iblock hfirst hlast h76 p ht
          omega
      by_cases hwhole : r.Whole iblock
      · have hset : ∀ block, m.setBlock (r.wholeAt iblock) block = readInto r m iblock block :=
          fun block => (if_pos hwhole).symm
        rw [if_pos hwhole]
        refine (Run.allows_true _).bind fun res _ => ?_
        dsimp only
        rw [hset]
        split
        · exact Run.allows_pure (hstored _)
        · exact Run.allows_pure ⟨hnext, hstored _⟩
      · rw [if_neg hwhole]
        refine (Run.allows_true _).bind fun res _ => ?_
        dsimp only
        split
        · exact Run.allows_pure hI
        · by_cases hcopied : r.Copied iblock
          · have hset : m.copy (r.sliceAt iblock) (r.sliceLen iblock)
                (view res.2 (r.sliceA iblock).toNat) = readInto r m iblock res.2 := by
              rw [readInto, if_neg hwhole, if_pos hcopied]
            rw [if_pos hcopied, hset]
            exact Run.allows_pure ⟨hnext, hstored _⟩
          · rw [if_neg hcopied]
            exact Run.allows_pure ⟨hnext, hI⟩
    · rw [(fsLayer_past h76 _).1, (fsLayer_past h76 _).1, Run.pure_bind', Run.pure_bind']
      dsimp only
      rw [Memory.setBlock_block]
      split
      · exact Run.allows_pure hI
      · exact Run.allows_pure hI
  · rw [if_pos hlast]
    exact Run.allows_pure hI

/-- **If all addresses are in the buffer**, `sfs_read` stores into it only. -/
theorem readStaysInside_of_inside {size : UInt64}
    (h : (blockRange o size).Covers o size.toNat) (hin : (blockRange o size).Inside size.toNat) :
    ReadStaysInside o size := by
  have hloop : ∀ (v : Inode) (memory : Memory) (tmpBlock : Block), Run.Allows
      (Run.loop (readStep fsLayer v (blockRange o size)) loopBound
        ((blockRange o size).firstBlock, memory, tmpBlock) : Fs Unit _)
      fun res => ∀ p : ℤ, p < 0 ∨ size.toNat ≤ p → res.2 p = memory p := fun v memory tmpBlock =>
    Run.Allows.loop (fun b hb => allows_readStep h hin hb.1 hb.2)
      ⟨UInt64.le_refl _, fun _ _ => rfl⟩
  intro s s' memory memory' tmpBlock fh n hrun
  have hall : Run.Allows (sfsRead fsLayer memory tmpBlock size o fh : Sfs Unit _)
      fun res => ∀ p : ℤ, p < 0 ∨ size.toNat ≤ p → res.2 p = memory p := by
    refine (Run.allows_true _).bind fun _ _ => ?_
    split
    · exact allows_return fun _ _ => rfl
    refine (Run.allows_true _).bind fun fd _ => ?_
    cases fd with
    | none => exact allows_return fun _ _ => rfl
    | some fd =>
      refine (Run.allows_true _).bind fun t _ => (Run.allows_true _).bind fun inode _ => ?_
      cases inode with
      | none => exact allows_return fun _ _ => rfl
      | some inode =>
        refine (Run.allows_true _).bind fun now _ => (Run.allows_true _).bind fun ret _ => ?_
        split
        · exact allows_return fun _ _ => rfl
        · exact (allows_onFs (hloop _ _ _)).bind fun res hres => allows_return hres
  exact hall s (n, memory') s' hrun

theorem allows_writeStep {L : InodeLayer Unit} (h : r.Covers o z) {b : UInt64 × Inode × Block}
    (hfirst : r.firstBlock ≤ b.1) : Run.Allows (writeStep L memory r b)
      (Sum.elim (fun b' => r.firstBlock ≤ b'.1) fun _ => True) := by
  obtain ⟨iblock, inode, tmpBlock⟩ := b
  dsimp only at hfirst
  rw [writeStep]
  by_cases hlast : iblock ≤ r.lastBlock
  · rw [if_neg (not_not.mpr hlast)]
    refine (Run.allows_true _).bind fun found _ => ?_
    cases found with
    | none => exact Run.allows_pure trivial
    | some tmpBlock =>
      refine (Run.allows_true _).bind fun res _ => ?_
      dsimp only
      split
      · exact Run.allows_pure trivial
      · refine Run.allows_pure ?_
        show r.firstBlock ≤ iblock + 1
        have hsucc := BlockRange.succ_toNat h hlast
        rw [UInt64.le_iff_toNat_le] at hfirst ⊢
        omega
  · rw [if_pos hlast]
    exact Run.allows_pure trivial

/-- **If all addresses are in the buffer**, `sfs_write` loads from it only. -/
theorem writeStaysInside_of_inside {size : UInt64}
    (h : (blockRange o size).Covers o size.toNat) (hin : (blockRange o size).Inside size.toNat) :
    WriteStaysInside o size := by
  intro s memory memory' tmpBlock fh hagree
  have hloop : ∀ v : Inode, (Run.loop (writeStep fsLayer memory (blockRange o size)) loopBound
      ((blockRange o size).firstBlock, v, tmpBlock) : Fs Unit Bool) =
      Run.loop (writeStep fsLayer memory' (blockRange o size)) loopBound
        ((blockRange o size).firstBlock, v, tmpBlock) := fun v =>
    Run.loop_congr (I := fun b => (blockRange o size).firstBlock ≤ b.1)
      (fun b hb => allows_writeStep h hb) (fun b hb => writeStep_congr hin hagree hb) _
      (b := ((blockRange o size).firstBlock, v, tmpBlock)) (UInt64.le_refl _)
  unfold sfsWrite
  simp only [hloop]

theorem quiet_openedFull : openedFull.fs.host.NoFaults := by
  rw [openFile_openedFull.2.2.host]
  exact inodeState_full.reliable.noFaults

/-- Zeros are stored at every address of a block of zeros. -/
theorem readInto_of_touches {p : ℤ} (hp : r.Touches iblock p) :
    readInto r memory iblock Block.zero p = 0 := by
  unfold readInto
  rcases hp with ⟨hwhole, hlo, hhi⟩ | ⟨hcopied, hlo, hhi⟩
  · unfold blockSize at hhi
    have hlt : (p - r.wholeAt iblock).toNat < 512 := by omega
    rw [if_pos hwhole, Memory.setBlock_of_mem (j := (p - r.wholeAt iblock).toNat) hlt (by omega)]
    rfl
  · have hwhole : ¬ r.Whole iblock := fun hw => hcopied.2 hw.2
    rw [if_neg hwhole, if_pos hcopied, Memory.copy_of_mem hlo hhi, view]
    split <;> rfl

/-- **An address outside the buffer is stored to** by a read of a file with all its blocks. -/
theorem not_readStaysInside {size : UInt64} {p : ℤ} (hpos : 0 < size)
    (h : (blockRange o size).Covers o size.toNat)
    (hfirst : (blockRange o size).firstBlock ≤ iblock)
    (hlast : iblock ≤ (blockRange o size).lastBlock)
    (h76 : iblock < sfsNdirBlocks + sfsNindBlocks)
    (htouches : (blockRange o size).Touches iblock p) (hout : p < 0 ∨ size.toNat ≤ p) :
    ¬ ReadStaysInside o size := by
  intro hstays
  have hsize : size ≠ 0 := fun e => by
    rw [e] at hpos
    exact UInt64.lt_irrefl 0 hpos
  obtain ⟨hopen, hinode, -⟩ := openFile_openedFull
  obtain ⟨hfaults, -⟩ | ⟨now, host, hquiet, hrun⟩ :=
    sfsRead_cases fsLayer (fun _ => 1) Block.zero o hopen hsize
  · exact absurd quiet_openedFull hfaults
  · have hv : (accessed (openedFull.fs.logicalInode 2) now).blockPointers =
        fullTwo.blockPointers := by
      rw [hinode]
      rfl
    obtain ⟨hmapped, hdata⟩ := mappedFile_begun hv (hquiet quiet_openedFull)
    obtain ⟨⟨ok, memory'⟩, fs', hloop, -, stop, hI, htrue, hfalse⟩ := readLoop_ensures (fun _ => 1)
      Block.zero (c := fun _ => Block.zero) h hmapped.fileArray
      (fun stop m => iblock.toNat < stop → m p = 0)
      (fun j m _ _ _ hI hlt => by
        by_cases ht : (blockRange o size).Touches j p
        · exact readInto_of_touches ht
        · rw [readInto_of_not_touches ht]
          refine hI (Nat.lt_of_le_of_ne (Nat.le_of_lt_succ hlt) fun e => ht ?_)
          rw [← UInt64.toNat_inj.mp e]
          exact htouches)
      (fun hlt => absurd (UInt64.le_iff_toNat_le.mp hfirst) (Nat.not_le.mpr hlt))
    rw [hdata] at hloop
    have hstop : iblock.toNat < stop := by
      have hle := UInt64.le_iff_toNat_le.mp hlast
      have hlt := mapped_iff.mp h76
      cases ok with
      | true =>
        rw [htrue rfl]
        omega
      | false =>
        have hpast := (hfalse rfl).1
        omega
    have hzero := hstays openedFull _ (fun _ => 1) memory' Block.zero 0
      (if ok then toCInt size else -1) (by
        rw [hrun, readBlocks]
        dsimp only
        rw [Run.run_bind, onFs_run hloop, Run.andThen_done]
        rfl) p hout
    exact absurd ((hI hstop).symm.trans hzero) (by decide)

/-- What is loaded from an address of a block is written to a byte of it. -/
theorem exists_writtenBlock_eq {p : ℤ} (h : r.Covers o z) (hfirst : r.firstBlock ≤ iblock)
    (hlast : iblock ≤ r.lastBlock) (hp : r.Touches iblock p) :
    ∃ i, ∀ (memory : Memory) (tmpBlock old : Block),
      writtenBlock r memory tmpBlock old iblock i = memory p := by
  rw [UInt64.le_iff_toNat_le, h.firstBlock] at hfirst
  rw [UInt64.le_iff_toNat_le, h.lastBlock] at hlast
  rcases hp with ⟨hwhole, hlo, hhi⟩ | ⟨hcopied, hlo, hhi⟩
  · unfold blockSize at hhi
    refine ⟨⟨(p - r.wholeAt iblock).toNat, by omega⟩, fun memory tmpBlock old => ?_⟩
    rw [writtenBlock, if_pos hwhole]
    exact congrArg memory (by dsimp only; omega)
  · have hwhole : ¬ r.Whole iblock := fun hw => hcopied.2 hw.2
    have hrange := (BlockRange.copied_iff h hfirst hlast).mp hcopied
    have hlen := BlockRange.sliceLen_eq h hlast hcopied
    have hzero : (0 : UInt64).toNat = 0 := rfl
    refine ⟨⟨(p - r.sliceAt iblock).toNat, by omega⟩, fun memory tmpBlock old => ?_⟩
    rw [writtenBlock, if_neg hwhole, if_pos hcopied, hcopied.1, hzero,
      splice_apply_of_mem (Nat.zero_le _) (by dsimp only; omega)]
    exact congrArg memory (by dsimp only; omega)

/-- **It is loaded** by a write to such a file. -/
theorem not_writeStaysInside {size : UInt64} {p : ℤ} (hpos : 0 < size)
    (h : (blockRange o size).Covers o size.toNat)
    (hfirst : (blockRange o size).firstBlock ≤ iblock)
    (hlast : iblock ≤ (blockRange o size).lastBlock)
    (h76 : iblock < sfsNdirBlocks + sfsNindBlocks)
    (htouches : (blockRange o size).Touches iblock p) (hout : p < 0 ∨ size.toNat ≤ p) :
    ¬ WriteStaysInside o size := by
  intro hstays
  have hsize : size ≠ 0 := fun e => by
    rw [e] at hpos
    exact UInt64.lt_irrefl 0 hpos
  obtain ⟨hopen, hinode, -⟩ := openFile_openedFull
  obtain ⟨hfaults, -⟩ | ⟨v, now, changed, host, hv, hquiet, hrun⟩ :=
    sfsWrite_cases fsLayer o hopen hsize
  · exact absurd quiet_openedFull hfaults
  · have hpointers : v.blockPointers = fullTwo.blockPointers := by
      rw [hv, hinode, extended]
      split <;> rfl
    obtain ⟨hmapped, hdata⟩ := mappedFile_begun hpointers (hquiet quiet_openedFull)
    have hwritten : ∀ memory : Memory, ∃ ret s', (sfsWrite fsLayer memory Block.zero size o 0).run
          openedFull = .done ret s' ∧ s'.fs.disk.block (iblock.toNat + 3) =
            writtenBlock (blockRange o size) memory Block.zero Block.zero iblock := by
      intro memory
      obtain ⟨ok, fs', hloop, -, hfs'⟩ := writeLoop_ensures (fun _ => Block.zero) memory Block.zero
        h hmapped.fileArray
      rw [hdata] at hloop
      refine ⟨if ok then toCInt size else -1, { openedFull.begun 2 v host with
        mu := .unlock :: .lock :: openedFull.mu, fs := fs' }, ?_, ?_⟩
      · rw [hrun memory Block.zero, writeBlocks]
        dsimp only
        rw [Run.run_bind, onFs_run hloop, Run.andThen_done]
        rfl
      · have hle := UInt64.le_iff_toNat_le.mp hlast
        have hlt := mapped_iff.mp h76
        show fs'.disk.block _ = _
        rw [hfs', block_withData _ _ hlt, UInt64.ofNat_toNat, writtenUpTo,
          if_pos ⟨hfirst, by omega⟩]
    obtain ⟨i, hi⟩ := exists_writtenBlock_eq h hfirst hlast htouches
    obtain ⟨ret, s', hrun₀, hblock₀⟩ := hwritten fun _ => 0
    obtain ⟨ret₁, s₁, hrun₁, hblock₁⟩ := hwritten fun j => if j = p then 1 else 0
    have hsame := hstays openedFull (fun _ => 0) (fun j => if j = p then 1 else 0) Block.zero 0
      fun j hj hj' => (if_neg (by omega)).symm
    rw [hrun₀, hrun₁] at hsame
    cases hsame
    have hbyte := congrFun (hblock₀.symm.trans hblock₁) i
    rw [hi, hi, if_pos rfl] at hbyte
    exact absurd hbyte (by decide)

end StaysInside

/-- **`sfs_read` stores into the caller's buffer only, and `sfs_write` loads from it only**,
exactly for the offsets and sizes of `InBounds`. -/
theorem stays_inside_iff {o : ℕ} {size : UInt64} (hpos : 0 < size)
    (hsmall : o + size.toNat < 2 ^ 63) :
    (ReadStaysInside o size ↔ InBounds o size.toNat) ∧
      (WriteStaysInside o size ↔ InBounds o size.toNat) := by
  have h := BlockRange.covers_blockRange hpos hsmall
  have houtside : ¬ (blockRange o size).Inside size.toNat → ∃ iblock p,
      (blockRange o size).firstBlock ≤ iblock ∧ iblock ≤ (blockRange o size).lastBlock ∧
      iblock < sfsNdirBlocks + sfsNindBlocks ∧ (blockRange o size).Touches iblock p ∧
      (p < 0 ∨ size.toNat ≤ p) := by
    intro hout
    by_contra hnone
    refine hout fun iblock hfirst hlast h76 p htouches => ?_
    by_contra hp
    exact hnone ⟨iblock, p, hfirst, hlast, h76, htouches, by omega⟩
  rw [← inside_iff h]
  refine ⟨⟨fun hstays => ?_, readStaysInside_of_inside h⟩,
    ⟨fun hstays => ?_, writeStaysInside_of_inside h⟩⟩
  · by_contra hout
    obtain ⟨iblock, p, hfirst, hlast, h76, htouches, hp⟩ := houtside hout
    exact not_readStaysInside hpos h hfirst hlast h76 htouches hp hstays
  · by_contra hout
    obtain ⟨iblock, p, hfirst, hlast, h76, htouches, hp⟩ := houtside hout
    exact not_writeStaysInside hpos h hfirst hlast h76 htouches hp hstays

/-- A block at the beginning of a file. -/
theorem stays_inside_iff_firstBlock : ReadStaysInside 0 512 ∧ WriteStaysInside 0 512 := by
  have hin : InBounds 0 (512 : UInt64).toNat := Or.inl rfl
  have hpos : (0 : UInt64) < 512 := by decide
  have hiff := stays_inside_iff (o := 0) hpos (by decide)
  exact ⟨hiff.1.mpr hin, hiff.2.mpr hin⟩

/-- **The second block of a file** is stored past the end of the buffer that it is read
into, and loaded from there when it is written. -/
theorem second_block_is_outside : ¬ ReadStaysInside 512 512 ∧ ¬ WriteStaysInside 512 512 := by
  have h : (blockRange (512 : ℕ) 512).Covers 512 (512 : UInt64).toNat :=
    BlockRange.covers_blockRange (by decide) (by decide)
  have htouches : (blockRange (512 : ℕ) 512).Touches 1 512 := by
    refine Or.inl ⟨?_, ?_⟩
    · exact (BlockRange.whole_iff h (by decide) (by decide)).mpr (by decide)
    · rw [BlockRange.wholeAt_eq h (by decide)]
      decide
  have hout : (512 : ℤ) < 0 ∨ ((512 : UInt64).toNat : ℤ) ≤ 512 := Or.inr (le_refl _)
  exact ⟨not_readStaysInside (by decide) h (by decide) (by decide) (by decide) htouches hout,
    not_writeStaysInside (by decide) h (by decide) (by decide) (by decide) htouches hout⟩

end SimpleFileSystem
