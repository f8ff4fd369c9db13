import SimpleFileSystem.ReadWrite

/-!
# The blocks of a range, and the addresses that are used for them

For an offset `o` and a size `z` the loops of `sfs_read` and `sfs_write` go from block
`o / 512` to block `(o + z - 1) / 512`.  A block in between is whole if all of it is in
the range, and copied if its beginning is but not its end; the block with the start of
the range in its middle is neither.

A whole block `i` is put at the address `512 * i - o % 512`, and a copied one at
`- (o % 512)`.  It should be `512 * i - o` for both.
-/

open ByteCodec

namespace SimpleFileSystem

namespace BlockRange

/-- The variables of the loops for the offset `o` and the size `z`. -/
structure Covers (r : BlockRange) (o z : ℕ) : Prop where
  pos : 0 < z
  small : o + z < 2 ^ 63
  firstBlock : r.firstBlock.toNat = o / 512
  firstBlockOffset : r.firstBlockOffset.toNat = o % 512
  lastBlock : r.lastBlock.toNat = (o + z - 1) / 512
  lastBlockLen : r.lastBlockLen.toNat = (o + z - 1) % 512 + 1

theorem ofInt_natCast (n : ℕ) : UInt64.ofInt (n : ℤ) = UInt64.ofNat n := by
  rw [UInt64.ofInt]
  refine UInt64.toNat_inj.mp ?_
  simp only [UInt64.toNat_ofNat']
  omega

theorem toNat_ofInt_natCast {n : ℕ} (h : n < 2 ^ 64) : (UInt64.ofInt (n : ℤ)).toNat = n := by
  rw [ofInt_natCast]
  exact UInt64.toNat_ofNat_of_lt' h

theorem covers_blockRange {o : ℕ} {size : UInt64} (hpos : 0 < size)
    (hsmall : o + size.toNat < 2 ^ 63) : (blockRange o size).Covers o size.toNat := by
  have hz : 0 < size.toNat := UInt64.lt_iff_toNat_lt.mp hpos
  have hstop : (UInt64.ofInt (o : ℤ) + size).toNat = o + size.toNat := by
    rw [UInt64.toNat_add, toNat_ofInt_natCast (by omega)]
    omega
  have hmod : ((UInt64.ofInt (o : ℤ) + size) % 512).toNat = (o + size.toNat) % 512 := by
    rw [UInt64.toNat_mod, hstop]
    rfl
  have hzero : (UInt64.ofInt (o : ℤ) + size) % 512 = 0 ↔ (o + size.toNat) % 512 = 0 := by
    rw [← hmod, ← UInt64.toNat_inj]
    rfl
  have hlen : (blockRange o size).lastBlockLen.toNat = (o + size.toNat - 1) % 512 + 1 := by
    rw [blockRange]
    dsimp only
    split
    · next h0 =>
      have hdvd := hzero.mp h0
      show 512 = _
      omega
    · next h0 =>
      have hdvd : ¬ (o + size.toNat) % 512 = 0 := fun h => h0 (hzero.mpr h)
      rw [hmod]
      omega
  have hfull : (blockRange o size).lastBlockLen = 512 ↔ (o + size.toNat) % 512 = 0 := by
    rw [← UInt64.toNat_inj, hlen]
    show (o + size.toNat - 1) % 512 + 1 = 512 ↔ _
    omega
  refine ⟨hz, hsmall, ?_, ?_, ?_, hlen⟩
  · rw [blockRange]
    dsimp only
    rw [show (o : ℤ).tdiv 512 = ((o / 512 : ℕ) : ℤ) from rfl]
    exact toNat_ofInt_natCast (by omega)
  · rw [blockRange]
    dsimp only
    rw [show (o : ℤ).tmod 512 = ((o % 512 : ℕ) : ℤ) from rfl]
    exact toNat_ofInt_natCast (by omega)
  · have hdiv : ((UInt64.ofInt (o : ℤ) + size) / 512).toNat = (o + size.toNat) / 512 := by
      rw [UInt64.toNat_div, hstop]
      rfl
    have hlast : (blockRange o size).lastBlock = (UInt64.ofInt (o : ℤ) + size) / 512 -
        if (blockRange o size).lastBlockLen = 512 then 1 else 0 := rfl
    rw [hlast]
    by_cases h512 : (blockRange o size).lastBlockLen = 512
    · have hdvd := hfull.mp h512
      have hone : (1 : UInt64) ≤ (UInt64.ofInt (o : ℤ) + size) / 512 := by
        rw [UInt64.le_iff_toNat_le, hdiv]
        show 1 ≤ _
        omega
      rw [if_pos h512, UInt64.toNat_sub_of_le _ _ hone, hdiv]
      show _ - 1 = _
      omega
    · have hdvd : ¬ (o + size.toNat) % 512 = 0 := fun h => h512 (hfull.mpr h)
      rw [if_neg h512, UInt64.sub_zero, hdiv]
      omega

section Slices

variable {r : BlockRange} {o z : ℕ} {iblock : UInt64}

/-- The next block. -/
theorem succ_toNat (h : r.Covers o z) (hlast : iblock ≤ r.lastBlock) :
    (iblock + 1).toNat = iblock.toNat + 1 := by
  have hsmall := h.small
  rw [UInt64.le_iff_toNat_le, h.lastBlock] at hlast
  rw [UInt64.toNat_add]
  show (iblock.toNat + 1) % 2 ^ 64 = _
  omega

/-- The position in the file at which a block starts. -/
theorem start_toNat (h : r.Covers o z) (hlast : iblock.toNat ≤ (o + z - 1) / 512) :
    (iblock * 512).toNat = 512 * iblock.toNat := by
  have hsmall := h.small
  rw [UInt64.toNat_mul]
  show iblock.toNat * 512 % 2 ^ 64 = 512 * iblock.toNat
  omega

theorem toNat_sliceA (h : r.Covers o z) :
    (r.sliceA iblock).toNat = if iblock.toNat = o / 512 then o % 512 else 0 := by
  have hfirst : iblock = r.firstBlock ↔ iblock.toNat = o / 512 := by
    rw [← UInt64.toNat_inj, h.firstBlock]
  have hoffset : r.firstBlockOffset ≠ 0 ↔ o % 512 ≠ 0 := by
    rw [Ne, ← UInt64.toNat_inj, h.firstBlockOffset]
    rfl
  rw [sliceA]
  split
  · next hcond => rw [if_pos (hfirst.mp hcond.1), h.firstBlockOffset]
  · next hcond =>
    split
    · next hi =>
      have h0 : ¬ o % 512 ≠ 0 := fun hne => hcond ⟨hfirst.mpr hi, hoffset.mpr hne⟩
      exact (not_not.mp h0).symm
    · rfl

theorem toNat_sliceB (h : r.Covers o z) : (r.sliceB iblock).toNat =
    if iblock.toNat = (o + z - 1) / 512 then (o + z - 1) % 512 + 1 else 512 := by
  have hlast : iblock = r.lastBlock ↔ iblock.toNat = (o + z - 1) / 512 := by
    rw [← UInt64.toNat_inj, h.lastBlock]
  rw [sliceB]
  split
  · next hcond => rw [if_pos (hlast.mp hcond.1), h.lastBlockLen]
  · next hcond =>
    split
    · next hi =>
      have hlen : r.lastBlockLen = 512 := not_not.mp fun hne => hcond ⟨hlast.mpr hi, hne⟩
      rw [← h.lastBlockLen, hlen]
    · rfl

theorem sliceA_eq_zero_iff (h : r.Covers o z) (hfirst : o / 512 ≤ iblock.toNat) :
    r.sliceA iblock = 0 ↔ o ≤ 512 * iblock.toNat := by
  rw [← UInt64.toNat_inj, toNat_sliceA h]
  show _ = 0 ↔ _
  split <;> omega

theorem sliceB_eq_iff (h : r.Covers o z) (hlast : iblock.toNat ≤ (o + z - 1) / 512) :
    r.sliceB iblock = 512 ↔ 512 * (iblock.toNat + 1) ≤ o + z := by
  have hpos := h.pos
  rw [← UInt64.toNat_inj, toNat_sliceB h]
  show _ = 512 ↔ _
  split <;> omega

/-- **A whole block** is one that is in the range. -/
theorem whole_iff (h : r.Covers o z) (hfirst : o / 512 ≤ iblock.toNat)
    (hlast : iblock.toNat ≤ (o + z - 1) / 512) :
    r.Whole iblock ↔ o ≤ 512 * iblock.toNat ∧ 512 * (iblock.toNat + 1) ≤ o + z :=
  and_congr (sliceA_eq_zero_iff h hfirst) (sliceB_eq_iff h hlast)

/-- **A copied block** is one whose beginning is in the range, and whose end is not. -/
theorem copied_iff (h : r.Covers o z) (hfirst : o / 512 ≤ iblock.toNat)
    (hlast : iblock.toNat ≤ (o + z - 1) / 512) :
    r.Copied iblock ↔ o ≤ 512 * iblock.toNat ∧ o + z < 512 * (iblock.toNat + 1) := by
  rw [Copied, sliceA_eq_zero_iff h hfirst, Ne, sliceB_eq_iff h hlast, Nat.not_le]

theorem wholeAt_eq (h : r.Covers o z) (hlast : iblock.toNat ≤ (o + z - 1) / 512) :
    r.wholeAt iblock = 512 * iblock.toNat - (o % 512 : ℕ) := by
  rw [wholeAt, buf, start_toNat h hlast, h.firstBlockOffset]
  push_cast
  ring

theorem sliceAt_eq (h : r.Covers o z) (hcopied : r.Copied iblock) :
    r.sliceAt iblock = -(o % 512 : ℕ) := by
  rw [sliceAt, buf, hcopied.1, h.firstBlockOffset]
  exact Int.add_zero _

theorem sliceLen_eq (h : r.Covers o z) (hlast : iblock.toNat ≤ (o + z - 1) / 512)
    (hcopied : r.Copied iblock) : r.sliceLen iblock = o + z - 512 * iblock.toNat := by
  have hpos := h.pos
  have hb : (r.sliceB iblock).toNat = _ := toNat_sliceB h
  have hne : ¬ 512 * (iblock.toNat + 1) ≤ o + z :=
    fun hle => hcopied.2 ((sliceB_eq_iff h hlast).mpr hle)
  rw [sliceLen, hcopied.1, UInt64.sub_zero, hb]
  split <;> omega

end Slices

end BlockRange

end SimpleFileSystem
