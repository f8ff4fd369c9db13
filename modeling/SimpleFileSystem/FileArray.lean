import SimpleFileSystem.BlockRanges

/-!
# The loops of `sfs_read` and `sfs_write` on an array of blocks

A file is an array of 76 blocks if reading a block answers it and writing one replaces
it, and past the end both fail (`FileArray`).  On such a file the loops can be run:

* one iteration of `sfs_read` changes the memory by `readInto`, so what the iterations
  keep holds of the memory at the end (`readLoop_ensures`);
* one iteration of `sfs_write` replaces a block by `writtenBlock`, so at the end the
  blocks of the range are these (`writeLoop_ensures`).

Both stop at the end of the range or at the end of the file.
-/

open ByteCodec

namespace SimpleFileSystem

variable {F : Type}

/-! ## Copying -/

namespace Memory

variable {memory : Memory} {p i : ℤ} {len : ℕ} {m : ℕ → UInt8} {block : Block}

theorem copy_of_mem (h : p ≤ i) (h' : i < p + len) :
    memory.copy p len m i = m (i - p).toNat :=
  if_pos ⟨h, h'⟩

theorem copy_of_notMem (h : i < p ∨ p + len ≤ i) : memory.copy p len m i = memory i :=
  if_neg (by omega)

theorem setBlock_of_mem {j : ℕ} (hj : j < 512) (h : i = p + j) :
    memory.setBlock p block i = block ⟨j, hj⟩ := by
  have hnat : (i - p).toNat = j := by omega
  rw [setBlock, copy_of_mem (by omega) (by unfold blockSize; omega), hnat, view, Nat.zero_add,
    dif_pos hj]

theorem setBlock_of_notMem (h : i < p ∨ p + 512 ≤ i) : memory.setBlock p block i = memory i :=
  copy_of_notMem (by unfold blockSize; omega)

/-- A block that is stored where it was loaded from. -/
theorem setBlock_block (memory : Memory) (p : ℤ) : memory.setBlock p (memory.block p) = memory := by
  funext i
  by_cases h : p ≤ i ∧ i < p + 512
  · rw [setBlock_of_mem (j := (i - p).toNat) (by omega) (by omega)]
    exact congrArg memory (by show p + ((i - p).toNat : ℕ) = i; omega)
  · exact setBlock_of_notMem (by omega)

end Memory

/-! ## Files that are arrays -/

/-- The blocks of a file, by number. -/
abbrev Blocks := UInt64 → Block

/-- The place of a byte in its block. -/
def placeInBlock (p : ℕ) : Fin 512 :=
  ⟨p % 512, Nat.mod_lt _ (by decide)⟩

@[simp]
theorem val_placeInBlock (p : ℕ) : (placeInBlock p : ℕ) = p % 512 :=
  rfl

/-- The number of blocks that an inode maps. -/
def mappedBlocks : ℕ := 76

theorem mapped_iff {iblock : UInt64} :
    iblock < sfsNdirBlocks + sfsNindBlocks ↔ iblock.toNat < mappedBlocks :=
  UInt64.lt_iff_toNat_lt

/-- **The file with an inode is an array of blocks** in the states `st`: in `st c` its
blocks are `c`. -/
structure FileArray (L : InodeLayer F) (v : Inode) (st : Blocks → Filesystem F) : Prop where
  read : ∀ c iblock block, (L.blockRead v iblock block).run (st c) =
    .done (if iblock < sfsNdirBlocks + sfsNindBlocks then (0, c iblock) else (-1, block)) (st c)
  write : ∀ c iblock block, (L.blockWrite v iblock block).run (st c) =
    if iblock < sfsNdirBlocks + sfsNindBlocks then
      .done (0, v) (st (Function.update c iblock block))
    else .done (-1, v) (st c)

section Loops

variable {L : InodeLayer F} {v : Inode} {st : Blocks → Filesystem F} {c : Blocks}
  {r : BlockRange} {o z : ℕ} {iblock : UInt64} {memory : Memory} {tmpBlock tmpBlock₀ : Block}

/-- A block that is neither whole nor copied is the first one. -/
theorem eq_firstBlock (hwhole : ¬ r.Whole iblock) (hcopied : ¬ r.Copied iblock) :
    iblock = r.firstBlock := by
  by_contra hne
  have ha : r.sliceA iblock = 0 := if_neg fun hcond => hne hcond.1
  exact hcopied ⟨ha, fun hb => hwhole ⟨ha, hb⟩⟩

theorem firstBlock_le (h : r.Covers o z) : r.firstBlock.toNat ≤ r.lastBlock.toNat := by
  have hpos := h.pos
  rw [h.firstBlock, h.lastBlock]
  omega

theorem lastBlock_lt (h : r.Covers o z) : r.lastBlock.toNat + 1 < loopBound := by
  have hsmall := h.small
  rw [h.lastBlock]
  show (o + z - 1) / 512 + 1 < 2 ^ 64
  omega

/-! ### `sfs_read` -/

/-- The memory after `sfs_read` has read a block. -/
def readInto (r : BlockRange) (memory : Memory) (iblock : UInt64) (block : Block) : Memory :=
  if r.Whole iblock then memory.setBlock (r.wholeAt iblock) block
  else if r.Copied iblock then
    memory.copy (r.sliceAt iblock) (r.sliceLen iblock) (view block (r.sliceA iblock).toNat)
  else memory

/-- One iteration of `sfs_read` on a layer that reads a block, or stops past the last one. -/
theorem readStep_of_reads {t : Filesystem F} {data : Block}
    (hread : ∀ block, (L.blockRead v iblock block).run t =
      .done (if iblock < sfsNdirBlocks + sfsNindBlocks then (0, data) else (-1, block)) t)
    (memory : Memory) (tmpBlock : Block) (hlast : iblock ≤ r.lastBlock) :
    if iblock < sfsNdirBlocks + sfsNindBlocks then
      ∃ tmpBlock', (readStep L v r (iblock, memory, tmpBlock)).run t =
        .done (.inl (iblock + 1, readInto r memory iblock data, tmpBlock')) t
    else (readStep L v r (iblock, memory, tmpBlock)).run t = .done (.inr (false, memory)) t := by
  rw [readStep, if_neg (not_not.mpr hlast), readInto]
  by_cases h76 : iblock < sfsNdirBlocks + sfsNindBlocks
  · rw [if_pos h76]
    by_cases hwhole : r.Whole iblock
    · rw [if_pos hwhole, if_pos hwhole, Run.run_bind, hread, if_pos h76, Run.andThen_done]
      dsimp only
      rw [if_neg (by simp), Run.run_pure]
      exact ⟨_, rfl⟩
    · rw [if_neg hwhole, if_neg hwhole, Run.run_bind, hread, if_pos h76, Run.andThen_done]
      dsimp only
      rw [if_neg (by simp)]
      by_cases hcopied : r.Copied iblock
      · rw [if_pos hcopied, if_pos hcopied, Run.run_pure]
        exact ⟨_, rfl⟩
      · rw [if_neg hcopied, if_neg hcopied, Run.run_pure]
        exact ⟨_, rfl⟩
  · rw [if_neg h76]
    by_cases hwhole : r.Whole iblock
    · rw [if_pos hwhole, Run.run_bind, hread, if_neg h76, Run.andThen_done]
      dsimp only
      rw [if_pos (by simp), Run.run_pure, Memory.setBlock_block]
    · rw [if_neg hwhole, Run.run_bind, hread, if_neg h76, Run.andThen_done]
      dsimp only
      rw [if_pos (by simp), Run.run_pure]

variable (c memory tmpBlock) in
/-- **One iteration of `sfs_read`** reads a block, or stops past the end of the file. -/
theorem readStep_run (ha : FileArray L v st) (hlast : iblock ≤ r.lastBlock) :
    if iblock < sfsNdirBlocks + sfsNindBlocks then
      ∃ tmpBlock', (readStep L v r (iblock, memory, tmpBlock)).run (st c) =
        .done (.inl (iblock + 1, readInto r memory iblock (c iblock), tmpBlock')) (st c)
    else (readStep L v r (iblock, memory, tmpBlock)).run (st c) =
      .done (.inr (false, memory)) (st c) :=
  readStep_of_reads (ha.read c iblock) memory tmpBlock hlast

variable (memory tmpBlock) in
/-- **The loop of `sfs_read`**: what every iteration keeps holds of the memory at the end,
after the last block of the range or of the file. -/
theorem readLoop_ensures (h : r.Covers o z) (ha : FileArray L v st) (I : ℕ → Memory → Prop)
    (hstep : ∀ iblock memory, r.firstBlock ≤ iblock → iblock ≤ r.lastBlock →
      iblock < sfsNdirBlocks + sfsNindBlocks → I iblock.toNat memory →
      I (iblock.toNat + 1) (readInto r memory iblock (c iblock)))
    (hinit : I r.firstBlock.toNat memory) :
    Run.Ensures (Run.loop (readStep L v r) loopBound (r.firstBlock, memory, tmpBlock)) (st c)
      fun res fs' => fs' = st c ∧ ∃ stop, I stop res.2 ∧
        (res.1 = true → stop = r.lastBlock.toNat + 1) ∧
        (res.1 = false → mappedBlocks ≤ stop ∧ stop ≤ r.lastBlock.toNat) := by
  have hle := firstBlock_le h
  have hlt := lastBlock_lt h
  refine Run.Ensures.loop (G := ℕ)
    (fun g b t => b.1.toNat + g = r.lastBlock.toNat + 1 ∧ r.firstBlock ≤ b.1 ∧
      I b.1.toNat b.2.1 ∧ t = st c)
    id ?_ (g := r.lastBlock.toNat + 1 - r.firstBlock.toNat)
    ⟨by dsimp only; omega, UInt64.le_refl _, hinit, rfl⟩ (Nat.lt_of_le_of_lt (Nat.sub_le _ _) hlt)
  rintro g ⟨iblock, memory, tmpBlock⟩ t ⟨hg, hfirst, hI, ht⟩
  dsimp only at hg hfirst hI ht ⊢
  subst ht
  by_cases hlast : iblock ≤ r.lastBlock
  · have hsucc := BlockRange.succ_toNat h hlast
    have hnat := UInt64.le_iff_toNat_le.mp hlast
    have hnat' := UInt64.le_iff_toNat_le.mp hfirst
    have hrun := readStep_run c memory tmpBlock ha hlast
    by_cases h76 : iblock < sfsNdirBlocks + sfsNindBlocks
    · rw [if_pos h76] at hrun
      obtain ⟨tmpBlock', hrun⟩ := hrun
      refine ⟨_, _, hrun, g - 1, ⟨?_, ?_, ?_, rfl⟩, ?_⟩
      · show (iblock + 1).toNat + (g - 1) = _
        omega
      · show r.firstBlock ≤ iblock + 1
        rw [UInt64.le_iff_toNat_le]
        omega
      · show I (iblock + 1).toNat _
        rw [hsucc]
        exact hstep iblock memory hfirst hlast h76 hI
      · show g - 1 < g
        omega
    · rw [if_neg h76] at hrun
      rw [mapped_iff] at h76
      exact ⟨_, _, hrun, rfl, iblock.toNat, hI, fun e => absurd e Bool.false_ne_true,
        fun _ => ⟨Nat.le_of_not_lt h76, hnat⟩⟩
  · have hnat : ¬ iblock.toNat ≤ r.lastBlock.toNat :=
      fun hle => hlast (UInt64.le_iff_toNat_le.mpr hle)
    refine ⟨.inr (true, memory), _, by rw [readStep, if_pos hlast, Run.run_pure], rfl,
      iblock.toNat, hI, fun _ => by omega, fun e => absurd e.symm Bool.false_ne_true⟩

/-! ### `sfs_write` -/

/-- What `sfs_write` puts into a block of the range that held `old`. -/
def writtenBlock (r : BlockRange) (memory : Memory) (tmpBlock old : Block) (iblock : UInt64) :
    Block :=
  if r.Whole iblock then memory.block (r.wholeAt iblock)
  else if r.Copied iblock then
    splice old (r.sliceA iblock).toNat (r.sliceLen iblock) fun i => memory (r.sliceAt iblock + i)
  else tmpBlock

/-- The blocks after those from the first of a range up to `stop` have been written. -/
def writtenUpTo (r : BlockRange) (memory : Memory) (tmpBlock : Block) (c : Blocks) (stop : ℕ) :
    Blocks :=
  fun j => if r.firstBlock ≤ j ∧ j.toNat < stop then writtenBlock r memory tmpBlock (c j) j
    else c j

theorem writtenUpTo_first (memory : Memory) (tmpBlock : Block) (c : Blocks) {stop : ℕ}
    (hstop : stop ≤ r.firstBlock.toNat) :
    writtenUpTo r memory tmpBlock c stop = c := by
  funext j
  refine if_neg fun hcond => ?_
  have hle := UInt64.le_iff_toNat_le.mp hcond.1
  omega

theorem writtenUpTo_succ (hfirst : r.firstBlock ≤ iblock) :
    Function.update (writtenUpTo r memory tmpBlock c iblock.toNat) iblock
        (writtenBlock r memory tmpBlock (c iblock) iblock) =
      writtenUpTo r memory tmpBlock c (iblock.toNat + 1) := by
  funext j
  by_cases hj : j = iblock
  · rw [hj, Function.update_self, writtenUpTo, if_pos ⟨hfirst, Nat.lt_succ_self _⟩]
  · have hne : j.toNat ≠ iblock.toNat := fun e => hj (UInt64.toNat_inj.mp e)
    rw [Function.update_of_ne hj]
    refine if_congr (and_congr_right fun _ => ?_) rfl rfl
    omega

/-- One iteration of `sfs_write` on a layer that reads a block: it writes the block. -/
theorem writeStep_of_reads {t : Filesystem F} {data : Block}
    (hread : ∀ block, (L.blockRead v iblock block).run t = .done (0, data) t)
    (memory : Memory) (tmpBlock : Block) (hlast : iblock ≤ r.lastBlock) :
    ∃ tmpBlock', (writeStep L memory r (iblock, v, tmpBlock)).run t =
      Run.andThen ((L.blockWrite v iblock (writtenBlock r memory tmpBlock data iblock)).run t)
        fun answer => if answer.1 ≠ 0 then pure (.inr false)
          else pure (.inl (iblock + 1, answer.2, tmpBlock')) := by
  rw [writeStep, if_neg (not_not.mpr hlast), Run.run_bind, overlayTmp, writtenBlock]
  by_cases hcopied : r.Copied iblock
  · have hwhole : ¬ r.Whole iblock := fun hw => hcopied.2 hw.2
    rw [if_pos hcopied, Run.run_bind, hread, Run.andThen_done]
    dsimp only
    rw [if_neg (by simp), Run.run_pure, Run.andThen_done]
    dsimp only
    rw [if_neg hwhole, Run.run_bind, if_neg hwhole, if_pos hcopied]
    exact ⟨_, rfl⟩
  · rw [if_neg hcopied, if_neg hcopied, Run.run_pure, Run.andThen_done]
    dsimp only
    rw [Run.run_bind]
    exact ⟨_, rfl⟩

/-- Where a layer neither reads nor writes, `sfs_write` stops. -/
theorem writeStep_of_fails {t : Filesystem F}
    (hread : ∀ block, (L.blockRead v iblock block).run t = .done (-1, block) t)
    (hwrite : ∀ block, (L.blockWrite v iblock block).run t = .done (-1, v) t)
    (memory : Memory) (tmpBlock : Block) (hlast : iblock ≤ r.lastBlock) :
    (writeStep L memory r (iblock, v, tmpBlock)).run t = .done (.inr false) t := by
  rw [writeStep, if_neg (not_not.mpr hlast), Run.run_bind, overlayTmp]
  by_cases hcopied : r.Copied iblock
  · rw [if_pos hcopied, Run.run_bind, hread, Run.andThen_done]
    dsimp only
    rw [if_pos (by simp), Run.run_pure, Run.andThen_done]
    rfl
  · rw [if_neg hcopied, Run.run_pure, Run.andThen_done]
    dsimp only
    rw [Run.run_bind, hwrite, Run.andThen_done]
    dsimp only
    rw [if_pos (by simp), Run.run_pure]

variable (c memory tmpBlock) in
/-- **One iteration of `sfs_write`** writes a block, or stops past the end of the file. -/
theorem writeStep_run (ha : FileArray L v st) (hlast : iblock ≤ r.lastBlock) :
    if iblock < sfsNdirBlocks + sfsNindBlocks then
      ∃ tmpBlock', (writeStep L memory r (iblock, v, tmpBlock)).run (st c) =
        .done (.inl (iblock + 1, v, tmpBlock'))
          (st (Function.update c iblock (writtenBlock r memory tmpBlock (c iblock) iblock)))
    else (writeStep L memory r (iblock, v, tmpBlock)).run (st c) = .done (.inr false) (st c) := by
  by_cases h76 : iblock < sfsNdirBlocks + sfsNindBlocks
  · rw [if_pos h76]
    obtain ⟨tmpBlock', hrun⟩ := writeStep_of_reads
      (fun block => (ha.read c iblock block).trans (by rw [if_pos h76])) memory tmpBlock hlast
    rw [ha.write, if_pos h76, Run.andThen_done, if_neg (by simp), Run.run_pure] at hrun
    exact ⟨tmpBlock', hrun⟩
  · rw [if_neg h76]
    exact writeStep_of_fails (fun block => (ha.read c iblock block).trans (by rw [if_neg h76]))
      (fun block => (ha.write c iblock block).trans (if_neg h76)) memory tmpBlock hlast

variable (c memory tmpBlock₀) in
/-- **The loop of `sfs_write`** writes the blocks of the range that the file has. -/
theorem writeLoop_ensures (h : r.Covers o z) (ha : FileArray L v st) :
    Run.Ensures (Run.loop (writeStep L memory r) loopBound (r.firstBlock, v, tmpBlock₀)) (st c)
      fun ok fs' => ok = decide (r.lastBlock.toNat < mappedBlocks) ∧
        fs' = st (writtenUpTo r memory tmpBlock₀ c
          (min (r.lastBlock.toNat + 1) mappedBlocks)) := by
  have hle := firstBlock_le h
  have hlt := lastBlock_lt h
  have hstart : writtenUpTo r memory tmpBlock₀ c _ = c := writtenUpTo_first memory tmpBlock₀ c
    (Nat.min_le_left r.firstBlock.toNat mappedBlocks)
  refine Run.Ensures.loop (G := ℕ)
    (fun g b t => b.1.toNat + g = r.lastBlock.toNat + 1 ∧ r.firstBlock ≤ b.1 ∧ b.2.1 = v ∧
      (b.1 = r.firstBlock → b.2.2 = tmpBlock₀) ∧
      (b.1.toNat = r.firstBlock.toNat ∨ b.1.toNat ≤ mappedBlocks) ∧
      t = st (writtenUpTo r memory tmpBlock₀ c (min b.1.toNat mappedBlocks)))
    id ?_ (g := r.lastBlock.toNat + 1 - r.firstBlock.toNat)
    ⟨by dsimp only; omega, UInt64.le_refl _, rfl, fun _ => rfl, Or.inl rfl, by rw [hstart]⟩
    (Nat.lt_of_le_of_lt (Nat.sub_le _ _) hlt)
  rintro g ⟨iblock, inode, tmpBlock⟩ t ⟨hg, hfirst, hv, htmp, hend, ht⟩
  dsimp only at hg hfirst hv htmp hend ht ⊢
  subst hv ht
  by_cases hlast : iblock ≤ r.lastBlock
  · have hsucc := BlockRange.succ_toNat h hlast
    have hnat := UInt64.le_iff_toNat_le.mp hlast
    have hnat' := UInt64.le_iff_toNat_le.mp hfirst
    have hrun := writeStep_run (writtenUpTo r memory tmpBlock₀ c (min iblock.toNat mappedBlocks))
      memory tmpBlock ha hlast
    by_cases h76 : iblock < sfsNdirBlocks + sfsNindBlocks
    · have h76' := mapped_iff.mp h76
      have hmin : min iblock.toNat mappedBlocks = iblock.toNat := Nat.min_eq_left (by omega)
      have hold : writtenUpTo r memory tmpBlock₀ c iblock.toNat iblock = c iblock :=
        if_neg fun hcond => Nat.lt_irrefl _ hcond.2
      have hblock : writtenBlock r memory tmpBlock (c iblock) iblock =
          writtenBlock r memory tmpBlock₀ (c iblock) iblock := by
        unfold writtenBlock
        split
        · rfl
        · next hwhole =>
          split
          · rfl
          · next hcopied => exact htmp (eq_firstBlock hwhole hcopied)
      rw [if_pos h76, hmin, hold, hblock, writtenUpTo_succ hfirst] at hrun
      obtain ⟨tmpBlock', hrun⟩ := hrun
      rw [hmin]
      refine ⟨_, _, hrun, g - 1, ⟨?_, ?_, rfl, fun e => ?_, Or.inr ?_, ?_⟩, ?_⟩
      · show (iblock + 1).toNat + (g - 1) = _
        omega
      · show r.firstBlock ≤ iblock + 1
        rw [UInt64.le_iff_toNat_le]
        omega
      · have e' := congrArg UInt64.toNat (show iblock + 1 = r.firstBlock from e)
        omega
      · show (iblock + 1).toNat ≤ mappedBlocks
        omega
      · show _ = st (writtenUpTo r memory tmpBlock₀ c (min (iblock + 1).toNat mappedBlocks))
        rw [hsucc, Nat.min_eq_left (Nat.succ_le_of_lt h76')]
      · show g - 1 < g
        omega
    · rw [if_neg h76] at hrun
      rw [mapped_iff, Nat.not_lt] at h76
      refine ⟨_, _, hrun, ?_, ?_⟩
      · exact (decide_eq_false (by omega)).symm
      · rw [Nat.min_eq_right h76, Nat.min_eq_right (by omega)]
  · have hnat : ¬ iblock.toNat ≤ r.lastBlock.toNat :=
      fun hle => hlast (UInt64.le_iff_toNat_le.mpr hle)
    have hstop : iblock.toNat = r.lastBlock.toNat + 1 := by omega
    refine ⟨.inr true, _, by rw [writeStep, if_pos hlast, Run.run_pure], ?_, ?_⟩
    · exact (decide_eq_true (by omega)).symm
    · rw [hstop]

end Loops

end SimpleFileSystem
