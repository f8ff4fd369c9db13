import SimpleFileSystem.BlockRanges
import SimpleFileSystem.Library.Tiling

/-!
# The slices of a range

Of each block `sfs_read` and `sfs_write` use the bytes from `slice_a` to `slice_b`.  For an
offset `o` and a size `z` these are the bytes of the block that lie in the range from `o` to
`o + z` (`slice_eq`), and so the slices tile the range (`tiles_slices`).

`iblocks` are the values that the loop variable takes: an iteration of either loop that goes
on does so with the next block, and only from a block up to the last
(`readStep_visits`, `writeStep_visits`).
-/

namespace SimpleFileSystem

variable {F : Type}

namespace BlockRange

variable {r : BlockRange} {o z n : ℕ} {iblock : UInt64}

/-- The values of `iblock` in the loop from one on, in at most so many iterations. -/
def iblocksFrom (r : BlockRange) : ℕ → UInt64 → List UInt64
  | 0, _ => []
  | n + 1, iblock => if iblock ≤ r.lastBlock then iblock :: r.iblocksFrom n (iblock + 1) else []

/-- The values of `iblock` in the loop. -/
def iblocks (r : BlockRange) : List UInt64 :=
  r.iblocksFrom loopBound r.firstBlock

/-- The bytes of the file in the slice of a block: from `512 * iblock + slice_a` to
`512 * iblock + slice_b`. -/
def slice (r : BlockRange) (iblock : UInt64) : ℕ × ℕ :=
  (512 * iblock.toNat + (r.sliceA iblock).toNat, 512 * iblock.toNat + (r.sliceB iblock).toNat)

/-- **The slice of a block** is what of the block is in the range. -/
theorem slice_eq (h : r.Covers o z) (hfirst : o / 512 ≤ iblock.toNat)
    (hlast : iblock.toNat ≤ (o + z - 1) / 512) :
    r.slice iblock = (max o (512 * iblock.toNat), min (o + z) (512 * (iblock.toNat + 1))) := by
  have hpos := h.pos
  rw [slice, toNat_sliceA h, toNat_sliceB h]
  refine Prod.ext ?_ ?_
  · dsimp only
    split <;> omega
  · dsimp only
    split <;> omega

/-- A slice is not empty, and in its block. -/
theorem slice_bounds (h : r.Covers o z) :
    (r.sliceA iblock).toNat < (r.sliceB iblock).toNat ∧ (r.sliceB iblock).toNat ≤ 512 := by
  have hpos := h.pos
  rw [toNat_sliceA h, toNat_sliceB h]
  split <;> split <;> omega

/-- **The slices from one block on** tile what is left of the range. -/
theorem tiles_from (h : r.Covers o z) (hfirst : o / 512 ≤ iblock.toNat)
    (hlast : iblock.toNat ≤ (o + z - 1) / 512) (hn : (o + z - 1) / 512 < iblock.toNat + n) :
    Tiles ((r.iblocksFrom n iblock).map r.slice) (max o (512 * iblock.toNat)) (o + z) := by
  have hpos := h.pos
  induction n generalizing iblock with
  | zero => omega
  | succ n ih =>
    have hle : iblock ≤ r.lastBlock := by
      rw [UInt64.le_iff_toNat_le, h.lastBlock]
      exact hlast
    have hsucc := succ_toNat h hle
    rw [iblocksFrom, if_pos hle, List.map_cons]
    refine ⟨by rw [slice_eq h hfirst hlast], by rw [slice_eq h hfirst hlast]; dsimp only; omega, ?_⟩
    rw [slice_eq h hfirst hlast]
    dsimp only
    by_cases hmore : iblock.toNat + 1 ≤ (o + z - 1) / 512
    · -- the next block begins at the end of this one
      have hnext := @ih (iblock + 1) (by omega) (by omega) (by omega)
      have hstart : max o (512 * (iblock + 1).toNat) = min (o + z) (512 * (iblock.toNat + 1)) := by
        omega
      rwa [hstart] at hnext
    · -- this was the last block
      have hstop : ¬ iblock + 1 ≤ r.lastBlock := by
        rw [UInt64.le_iff_toNat_le, h.lastBlock]
        omega
      have hnil : r.iblocksFrom n (iblock + 1) = [] := by
        cases n with
        | zero => rfl
        | succ n => rw [iblocksFrom, if_neg hstop]
      rw [hnil]
      show min (o + z) (512 * (iblock.toNat + 1)) = o + z
      omega

theorem mem_iblocksFrom (h : r.Covers o z) {b : UInt64} (hb : b ∈ r.iblocksFrom n iblock) :
    iblock.toNat ≤ b.toNat ∧ b.toNat ≤ (o + z - 1) / 512 := by
  induction n generalizing iblock with
  | zero => exact absurd hb List.not_mem_nil
  | succ n ih =>
    rw [iblocksFrom] at hb
    split at hb
    · next hle =>
      have hsucc := succ_toNat h hle
      rcases List.mem_cons.mp hb with rfl | hb
      · rw [UInt64.le_iff_toNat_le, h.lastBlock] at hle
        exact ⟨Nat.le_refl _, hle⟩
      · have hmem := ih hb
        omega
    · exact absurd hb List.not_mem_nil

/-- The loop is about the blocks from the first to the last. -/
theorem mem_iblocks (h : r.Covers o z) (hb : iblock ∈ r.iblocks) :
    o / 512 ≤ iblock.toNat ∧ iblock.toNat ≤ (o + z - 1) / 512 := by
  have hmem := mem_iblocksFrom h hb
  rwa [h.firstBlock] at hmem

/-- **The slices tile the range.** -/
theorem tiles_slices (h : r.Covers o z) : Tiles (r.iblocks.map r.slice) o (o + z) := by
  have hpos := h.pos
  have hsmall := h.small
  have hfrom : Tiles ((r.iblocksFrom loopBound r.firstBlock).map r.slice)
      (max o (512 * r.firstBlock.toNat)) (o + z) :=
    tiles_from h (by rw [h.firstBlock]) (by rw [h.firstBlock]; omega)
      (by rw [h.firstBlock]; unfold loopBound; omega)
  have hstart : max o (512 * r.firstBlock.toNat) = o := by
    rw [h.firstBlock]
    omega
  rwa [hstart] at hfrom

/-! ## The loops -/

/-- An iteration of `sfs_read` that goes on does so with the next block, and the loop ends
without an error only past the last block. -/
theorem readStep_visits {L : InodeLayer F} {inode : Inode} {b : UInt64 × Memory × Block} :
    Run.Allows (readStep L inode r b)
      (Sum.elim (fun b' => b.1 ≤ r.lastBlock ∧ b'.1 = b.1 + 1)
        fun res => res.1 = true → ¬ b.1 ≤ r.lastBlock) := by
  obtain ⟨iblock, memory, tmpBlock⟩ := b
  rw [readStep]
  by_cases hlast : iblock ≤ r.lastBlock
  · rw [if_neg (not_not.mpr hlast)]
    split
    · refine (Run.allows_true _).bind fun res _ => ?_
      dsimp only
      split
      · exact Run.allows_pure fun h => absurd h Bool.false_ne_true
      · exact Run.allows_pure ⟨hlast, rfl⟩
    · refine (Run.allows_true _).bind fun res _ => ?_
      dsimp only
      split
      · exact Run.allows_pure fun h => absurd h Bool.false_ne_true
      · split
        · exact Run.allows_pure ⟨hlast, rfl⟩
        · exact Run.allows_pure ⟨hlast, rfl⟩
  · rw [if_pos hlast]
    exact Run.allows_pure fun _ => hlast

/-- The same of `sfs_write`. -/
theorem writeStep_visits {L : InodeLayer F} {memory : Memory} {b : UInt64 × Inode × Block} :
    Run.Allows (writeStep L memory r b)
      (Sum.elim (fun b' => b.1 ≤ r.lastBlock ∧ b'.1 = b.1 + 1)
        fun res => res = true → ¬ b.1 ≤ r.lastBlock) := by
  obtain ⟨iblock, inode, tmpBlock⟩ := b
  rw [writeStep]
  by_cases hlast : iblock ≤ r.lastBlock
  · rw [if_neg (not_not.mpr hlast)]
    refine (Run.allows_true _).bind fun found _ => ?_
    cases found with
    | none => exact Run.allows_pure fun h => absurd h Bool.false_ne_true
    | some tmpBlock =>
      refine (Run.allows_true _).bind fun res _ => ?_
      dsimp only
      split
      · exact Run.allows_pure fun h => absurd h Bool.false_ne_true
      · exact Run.allows_pure ⟨hlast, rfl⟩
  · rw [if_pos hlast]
    exact Run.allows_pure fun _ => hlast

end BlockRange

/-- **The numbers that both functions compute from the offset and the size** are those of
the natural numbers: no sum wraps, and `last_block` is decremented only if it is not 0. -/
structure ExactRange (o : ℕ) (size : UInt64) : Prop where
  stop : (UInt64.ofInt o + size).toNat = o + size.toNat
  firstBlock : (blockRange o size).firstBlock.toNat = o / 512
  firstBlockOffset : (blockRange o size).firstBlockOffset.toNat = o % 512
  lastBlockLen : (blockRange o size).lastBlockLen.toNat = (o + size.toNat - 1) % 512 + 1
  one_le : (blockRange o size).lastBlockLen = 512 → 1 ≤ (UInt64.ofInt o + size) / 512
  lastBlock : (blockRange o size).lastBlock.toNat = (o + size.toNat - 1) / 512

theorem exactRange {o : ℕ} {size : UInt64} (hpos : 0 < size) (hsmall : o + size.toNat < 2 ^ 63) :
    ExactRange o size := by
  have h := BlockRange.covers_blockRange hpos hsmall
  have hstop : (UInt64.ofInt (o : ℤ) + size).toNat = o + size.toNat := by
    rw [UInt64.toNat_add, BlockRange.toNat_ofInt_natCast (by omega)]
    omega
  refine ⟨hstop, h.firstBlock, h.firstBlockOffset, h.lastBlockLen, fun hfull => ?_, h.lastBlock⟩
  -- the end of the range is the end of a block, so it is not in the first
  have hlen := h.lastBlockLen
  have hz := h.pos
  rw [hfull] at hlen
  have hlen' : 512 = (o + size.toNat - 1) % 512 + 1 := hlen
  rw [UInt64.le_iff_toNat_le, UInt64.toNat_div, hstop]
  show 1 ≤ (o + size.toNat) / 512
  omega

/-- **The slices of a read or write tile its range.**  For an offset and a size the
arithmetic is that of the numbers, with no underflow and no wrap; the slices of the blocks of
the loop are nonempty, each begins where the one before it ends, they are disjoint and their
union is the range; a block is whole if and only if all of it is in the range; and an
iteration of either function goes on to the next of these blocks, or ends the loop, without an
error only past the last. -/
theorem slices_tile_the_range {o : ℕ} {size : UInt64} (hpos : 0 < size)
    (hsmall : o + size.toNat < 2 ^ 63) :
    ExactRange o size ∧
    (∀ iblock ∈ (blockRange o size).iblocks, (iblock + 1).toNat = iblock.toNat + 1 ∧
      (iblock * 512).toNat = 512 * iblock.toNat ∧
      ((blockRange o size).sliceA iblock).toNat < ((blockRange o size).sliceB iblock).toNat ∧
      ((blockRange o size).sliceB iblock).toNat ≤ 512 ∧
      (blockRange o size).sliceLen iblock =
        ((blockRange o size).sliceB iblock).toNat - ((blockRange o size).sliceA iblock).toNat ∧
      ((blockRange o size).Whole iblock ↔
        Set.Ico (512 * iblock.toNat) (512 * (iblock.toNat + 1)) ⊆ Set.Ico o (o + size.toNat))) ∧
    ((blockRange o size).iblocks.map (blockRange o size).slice).IsChain (fun i j => i.2 = j.1) ∧
    ((blockRange o size).iblocks.map (blockRange o size).slice).Pairwise
      (fun i j => ∀ p ∈ Set.Ico i.1 i.2, p ∉ Set.Ico j.1 j.2) ∧
    (∀ p, (∃ iblock ∈ (blockRange o size).iblocks,
      p ∈ Set.Ico ((blockRange o size).slice iblock).1 ((blockRange o size).slice iblock).2) ↔
      p ∈ Set.Ico o (o + size.toNat)) ∧
    (∀ (L : InodeLayer F) (inode : Inode) (b : UInt64 × Memory × Block),
      Run.Allows (readStep L inode (blockRange o size) b)
        (Sum.elim (fun b' => b.1 ≤ (blockRange o size).lastBlock ∧ b'.1 = b.1 + 1)
          fun res => res.1 = true → ¬ b.1 ≤ (blockRange o size).lastBlock)) ∧
    ∀ (L : InodeLayer F) (memory : Memory) (b : UInt64 × Inode × Block),
      Run.Allows (writeStep L memory (blockRange o size) b)
        (Sum.elim (fun b' => b.1 ≤ (blockRange o size).lastBlock ∧ b'.1 = b.1 + 1)
          fun res => res = true → ¬ b.1 ≤ (blockRange o size).lastBlock) := by
  have h := BlockRange.covers_blockRange hpos hsmall
  have htiles := BlockRange.tiles_slices h
  refine ⟨exactRange hpos hsmall, fun iblock hiblock => ?_, htiles.isChain,
    htiles.pairwise_disjoint, fun p => ?_, fun L inode b => BlockRange.readStep_visits,
    fun L memory b => BlockRange.writeStep_visits⟩
  · obtain ⟨hfirst, hlast⟩ := BlockRange.mem_iblocks h hiblock
    have hle : iblock ≤ (blockRange o size).lastBlock := by
      rw [UInt64.le_iff_toNat_le, h.lastBlock]
      exact hlast
    obtain ⟨hlt, hb⟩ : ((blockRange o size).sliceA iblock).toNat <
        ((blockRange o size).sliceB iblock).toNat ∧
        ((blockRange o size).sliceB iblock).toNat ≤ 512 := BlockRange.slice_bounds h
    refine ⟨BlockRange.succ_toNat h hle, BlockRange.start_toNat h hlast, hlt, hb, ?_, ?_⟩
    · rw [BlockRange.sliceLen, UInt64.toNat_sub_of_le _ _ (UInt64.le_iff_toNat_le.mpr hlt.le)]
    · rw [BlockRange.whole_iff h hfirst hlast, Set.Ico_subset_Ico_iff (by omega)]
  · rw [← htiles.exists_mem_iff]
    simp only [List.mem_map, exists_exists_and_eq_and]

/-- The last byte of the first block and the first of the next. -/
theorem slices_tile_the_range_two :
    (blockRange (511 : ℕ) 2).iblocks = [0, 1] ∧
    ∀ p, (∃ iblock ∈ (blockRange (511 : ℕ) 2).iblocks,
      p ∈ Set.Ico ((blockRange (511 : ℕ) 2).slice iblock).1
        ((blockRange (511 : ℕ) 2).slice iblock).2) ↔ p ∈ Set.Ico 511 (511 + 2) := by
  have hpos : (0 : UInt64) < 2 := by decide
  have hiblocks : (blockRange (511 : ℕ) 2).iblocks = [0, 1] := by
    rw [BlockRange.iblocks, loopBound]
    rfl
  obtain ⟨-, -, -, -, hunion, -⟩ := slices_tile_the_range (F := Unit) (o := 511) hpos (by decide)
  exact ⟨hiblocks, hunion⟩

end SimpleFileSystem
