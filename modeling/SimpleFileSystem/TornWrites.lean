import SimpleFileSystem.CacheFaults

/-!
# Reads and writes that stop short

A call of the host either transfers the whole block or is one that fails, and
`Fault.full` says which.  A write that fails may still have stored the first bytes of
the block.  Where these are what was there before, nothing has happened; otherwise the
block is torn (`Fault.Tears`).

An index node is written back with one word changed, and a torn one has another value
in that word, neither the old one nor always the new one, and its other words are what
they were (`Block.word_mix_of_ne`, `Block.word_mix_ne`).
-/

open ByteCodec

namespace SimpleFileSystem

variable {F : Type}

/-! ## Whole calls and torn blocks -/

namespace Fault

/-- The call transfers the whole block. -/
def full : Fault → Bool
  | .none => true
  | .error => false
  | .short count => decide (512 ≤ count)

/-- A write of `new` over `old` that stops short, after a byte that it changes. -/
def Tears (f : Fault) (old new : Block) : Prop :=
  ∃ count < 512, f = .short count ∧ ∃ i : Fin 512, (i : ℕ) < count ∧ new i ≠ old i

theorem Tears.not_full {f : Fault} {old new : Block} (h : f.Tears old new) : f.full = false := by
  obtain ⟨count, hcount, rfl, -⟩ := h
  exact decide_eq_false (Nat.not_le.mpr hcount)

end Fault

namespace Disk

variable {d : Disk} {n : UInt64} {f : Fault} {b : Block}

theorem pread_of_full' (h : d.Holds n) (hf : f.full = true) (b : Block) :
    d.pread f (n * 512) b = (512, d.block n.toNat) := by
  cases f with
  | none => exact pread_none h b
  | error => exact absurd hf Bool.false_ne_true
  | short count =>
    have hcount : 512 ≤ count := of_decide_eq_true hf
    have hnone := pread_none h b
    have h1 := h.le_size
    have h2 := h.addressable
    have havail : min blockSize (d.size - 512 * n.toNat) = 512 := by
      unfold blockSize
      omega
    rw [pread, h.toNat_mul, if_neg (by omega), havail] at hnone ⊢
    dsimp only at hnone ⊢
    rw [Nat.min_eq_right hcount, min_eq_right (by omega)]
    exact hnone

/-- A read that fails does not return the length of a block. -/
theorem pread_of_cut (hf : f.full = false) (off : UInt64) (b : Block) :
    (d.pread f off b).1 ≠ 512 := by
  unfold pread
  split
  · exact show (-1 : ℤ) ≠ 512 by decide
  cases f with
  | none => exact absurd hf.symm Bool.false_ne_true
  | error => exact show (-1 : ℤ) ≠ 512 by decide
  | short count =>
    have hcount : ¬ 512 ≤ count := of_decide_eq_false hf
    show min (count : ℤ) (min blockSize (d.size - off.toNat) : ℕ) ≠ 512
    omega

theorem pwrite_of_full' (h : d.Holds n) (hf : f.full = true) (b : Block) :
    d.pwrite f (n * 512) b = (512, d.setBlock n.toNat b) := by
  cases f with
  | none => exact pwrite_none h b
  | error => exact absurd hf Bool.false_ne_true
  | short count =>
    have hcount : 512 ≤ count := of_decide_eq_true hf
    have h1 := h.le_size
    have h2 := h.addressable
    have hmin : min count blockSize = blockSize := Nat.min_eq_right hcount
    have hret : min (count : ℤ) blockSize = 512 := by
      unfold blockSize
      omega
    rw [pwrite, h.toNat_mul, if_neg (by omega), if_neg (by omega), hmin, hret]
    rfl

theorem pwrite_of_cut (hf : f.full = false) (off : UInt64) (b : Block) :
    (d.pwrite f off b).1 ≠ 512 := by
  unfold pwrite
  split
  · exact show (-1 : ℤ) ≠ 512 by decide
  cases f with
  | none => exact absurd hf.symm Bool.false_ne_true
  | error => exact show (-1 : ℤ) ≠ 512 by decide
  | short count =>
    have hcount : ¬ 512 ≤ count := of_decide_eq_false hf
    show min (count : ℤ) (blockSize : ℕ) ≠ 512
    unfold blockSize
    omega

/-- What the first bytes of a block leave in it. -/
theorem block_store_apply (d : Disk) (m count : ℕ) (b : Block) (i : Fin 512) :
    (d.store (512 * m) count b).block m i = if (i : ℕ) < count then b i else d.block m i := by
  have hi := i.isLt
  show (if _ then _ else if _ then _ else _) = _
  by_cases hc : (i : ℕ) < count
  · rw [if_pos ⟨Nat.le_add_right _ _, Nat.add_lt_add_left hc _⟩, if_pos hc, Nat.add_sub_cancel_left,
      view, dif_pos (by omega)]
    exact congrArg b (Fin.ext (Nat.zero_add _))
  · rw [if_neg (by omega), if_neg (by omega), if_neg hc]
    rfl

/-- **A write that fails and does not tear the block** leaves it what it was. -/
theorem block_pwrite_of_cut (h : d.Holds n) (hf : f.full = false)
    (htears : ¬ f.Tears (d.block n.toNat) b) :
    (d.pwrite f (n * 512) b).2.block n.toNat = d.block n.toNat := by
  have h1 := h.le_size
  have h2 := h.addressable
  unfold pwrite
  rw [h.toNat_mul, if_neg (by omega)]
  cases f with
  | none => exact absurd hf.symm Bool.false_ne_true
  | error => rfl
  | short count =>
    have hcount : ¬ 512 ≤ count := of_decide_eq_false hf
    dsimp only
    split
    · rfl
    funext i
    rw [block_store_apply]
    split
    · next hi =>
      have hlt : (i : ℕ) < count := Nat.lt_of_lt_of_le hi (Nat.min_le_left _ _)
      by_contra hne
      exact htears ⟨count, Nat.not_le.mp hcount, rfl, i, hlt, hne⟩
    · rfl

/-- **A torn block** is not what it was. -/
theorem block_pwrite_of_tears (h : d.Holds n) (htears : f.Tears (d.block n.toNat) b) :
    (d.pwrite f (n * 512) b).2.block n.toNat ≠ d.block n.toNat := by
  obtain ⟨count, hcount, rfl, i, hi, hne⟩ := htears
  have h1 := h.le_size
  have h2 := h.addressable
  unfold pwrite
  rw [h.toNat_mul, if_neg (by omega)]
  dsimp only
  rw [if_neg (by omega)]
  intro hsame
  have hbyte := congrFun hsame i
  have hmin : (i : ℕ) < min count blockSize := Nat.lt_min.mpr ⟨hi, i.isLt⟩
  rw [block_store_apply, if_pos hmin] at hbyte
  exact hne hbyte

end Disk

/-! ## The two calls -/

/-- The filesystem after a write of a block, however it ends. -/
def Filesystem.wrote (fs : Filesystem F) (n : UInt64) (b : Block) : Filesystem F :=
  { fs.called with disk := (fs.disk.pwrite (fs.host.faults 0) (n * 512) b).2 }

section Calls

variable {fs : Filesystem F} {n : UInt64}

theorem blockRead_of_full (hn : fs.disk.Holds n) (hf : (fs.host.faults 0).full = true)
    (b : Block) : (blockRead n b).run fs = .done (512, fs.disk.block n.toNat) fs.called := by
  rw [blockRead_run, Disk.pread_of_full' hn hf]
  rfl

theorem blockRead_of_cut (hf : (fs.host.faults 0).full = false) (n : UInt64) (b : Block) :
    ∃ r, (blockRead n b).run fs = .done r fs.called ∧ r.1 ≠ 512 :=
  ⟨_, blockRead_run fs n b, Disk.pread_of_cut hf _ b⟩

theorem blockWrite_of_full (hn : fs.disk.Holds n) (hf : (fs.host.faults 0).full = true)
    (b : Block) : (blockWrite n b).run fs = .done 512 (fs.called.writeBlock n b) := by
  rw [blockWrite_run, Disk.pwrite_of_full' hn hf]
  rfl

theorem blockWrite_of_cut (hf : (fs.host.faults 0).full = false) (n : UInt64) (b : Block) :
    ∃ ret, (blockWrite n b).run fs = .done ret (fs.wrote n b) ∧ ret ≠ 512 :=
  ⟨_, blockWrite_run fs n b, Disk.pwrite_of_cut hf _ b⟩

/-- Writing the superblock. -/
theorem syncSuperblock_of_full (h0 : fs.disk.Holds 0) (hf : (fs.host.faults 0).full = true) :
    (syncSuperblock : Fs F ℤ).run fs = .done 0 fs.called.synced := by
  rw [syncSuperblock, Run.run_bind, Run.run_get, Run.andThen_done, writeSuperblock, Run.run_bind,
    blockWrite_of_full h0 hf]
  rfl

theorem syncSuperblock_of_cut (hf : (fs.host.faults 0).full = false) :
    (syncSuperblock : Fs F ℤ).run fs =
      .done (-1) (fs.wrote 0 (Block.zero.setSuperblock fs.superblock)) := by
  obtain ⟨ret, hrun, hret⟩ := blockWrite_of_cut hf 0 (Block.zero.setSuperblock fs.superblock)
  rw [syncSuperblock, Run.run_bind, Run.run_get, Run.andThen_done, writeSuperblock, Run.run_bind,
    hrun, Run.andThen_done, if_pos hret, Run.run_pure]

end Calls

/-! ## An index node of which one word was being written -/

namespace Block

variable {t old : Block} {i j : ℕ} {x : UInt64}

theorem setWord_apply_of_outside (old : Block) (x : UInt64) {p : Fin 512}
    (hp : (p : ℕ) < 8 * i ∨ 8 * i + 8 ≤ p) : old.setWord i x p = old p :=
  splice_apply_of_notMem hp

/-- The other words of the node. -/
theorem word_mix_of_ne (h : ∀ p, t p = old.setWord i x p ∨ t p = old p) (hj : j ≠ i) :
    t.word j = old.word j := by
  refine Codec.uint64.decode_congr _ _ fun q hq => ?_
  have hq8 : q < 8 := hq
  unfold view
  split
  · next hlt =>
    rcases h ⟨8 * j + q, hlt⟩ with hnew | hold
    · rw [hnew, setWord_apply_of_outside]
      show 8 * j + q < 8 * i ∨ 8 * i + 8 ≤ 8 * j + q
      omega
    · exact hold
  · rfl

/-- **The word itself**, if the node is not what it was. -/
theorem word_mix_ne (h : ∀ p, t p = old.setWord i x p ∨ t p = old p) (hne : t ≠ old) :
    t.word i ≠ old.word i := by
  intro hword
  refine hne (funext fun p => ?_)
  rcases h p with hnew | hold
  · by_cases hout : (p : ℕ) < 8 * i ∨ 8 * i + 8 ≤ p
    · rw [hnew, setWord_apply_of_outside old x hout]
    · have hbyte := Codec.uint64_decode_inj hword (p - 8 * i) (by omega)
      have hp : 8 * i + ((p : ℕ) - 8 * i) = p := by omega
      rw [view, view, dif_pos (by omega), dif_pos (by omega)] at hbyte
      simp only [hp] at hbyte
      exact hbyte
  · exact hold

/-- The slots of a block are those of another one, but for one slot. -/
theorem slots_mix (hi : 0 < i) (hlt : i < 64) (hwords : ∀ j, j ≠ i → t.word j = old.word j) :
    ∃ R, t.slots.Perm ([t.word i].filter (· ≠ 0) ++ R) ∧
      old.slots.Perm ([old.word i].filter (· ≠ 0) ++ R) := by
  have hmem : i ∈ List.range' 1 63 := List.mem_range'_1.mpr ⟨hi, by omega⟩
  obtain ⟨as, bs, hsplit⟩ := List.append_of_mem hmem
  have hnodup : (as ++ i :: bs).Nodup := hsplit ▸ List.nodup_range'
  rw [List.nodup_middle, List.nodup_cons] at hnodup
  have hmap : ∀ l : List ℕ, i ∉ l → l.map t.word = l.map old.word := fun l hl =>
    List.map_congr_left fun j hj => hwords j fun e => hl (e ▸ hj)
  have hrest : (as ++ bs).map t.word = (as ++ bs).map old.word := hmap _ hnodup.1
  have hslots : ∀ b : Block, b.slots.Perm
      ([b.word i].filter (· ≠ 0) ++ ((as ++ bs).map b.word).filter (· ≠ 0)) := by
    intro b
    rw [slots, hsplit, ← List.filter_append, ← List.map_singleton, ← List.map_append]
    exact (List.perm_middle.map b.word).filter _
  exact ⟨_, hrest ▸ hslots t, hslots old⟩

end Block

end SimpleFileSystem
