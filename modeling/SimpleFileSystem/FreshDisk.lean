import SimpleFileSystem.FormatSpec
import SimpleFileSystem.InodeTable

/-!
# A freshly formatted disk

Two lists start on a formatted disk, and both have a flaw.

* The index nodes start at block `inode_table_blocks + 2`, so block
  `inode_table_blocks + 1` is on no list; and the loop writes an index node to the disk
  only when it is full, so the last one, unless it is, keeps what the disk held there
  before.  Every spare block is listed exactly when what was there happens to be a chain
  of the missing blocks (`format_lists_spares_iff`).
* The free inodes are chained by `size`, each to the next number, and so is the last,
  whose next number is outside the table (`fresh_inode_table`, `fresh_inode_list_ends`).
-/

open ByteCodec

namespace SimpleFileSystem

variable {F : Type}

/-! ## Block numbers in a row -/

/-- `n` block numbers from `s` on. -/
def numbers (s n : ℕ) : List UInt64 :=
  (List.range' s n).map UInt64.ofNat

theorem numbers_append (s m n : ℕ) : numbers s m ++ numbers (s + m) n = numbers s (m + n) := by
  rw [numbers, numbers, ← List.map_append, List.range'_append_1, numbers]

theorem numbers_one (s : ℕ) : numbers s 1 = [UInt64.ofNat s] := rfl

theorem numbers_eq_map_range (s n : ℕ) :
    numbers s n = (List.range n).map fun q => UInt64.ofNat (s + q) := by
  rw [numbers, List.range'_eq_map_range, List.map_map]
  rfl

theorem mem_numbers {s n : ℕ} {x : UInt64} (h : s + n ≤ 2 ^ 64) :
    x ∈ numbers s n ↔ s ≤ x.toNat ∧ x.toNat < s + n := by
  rw [numbers, List.mem_map]
  constructor
  · rintro ⟨m, hm, rfl⟩
    rw [List.mem_range'_1] at hm
    rw [toNat_ofNat_of_lt' (by omega)]
    exact hm
  · intro hx
    exact ⟨x.toNat, List.mem_range'_1.mpr hx, UInt64.ofNat_toNat⟩

theorem toNat_ofNat_ne_zero {n : ℕ} (hn : 0 < n) (hlt : n < 2 ^ 64) : UInt64.ofNat n ≠ 0 := by
  intro e
  have := congrArg UInt64.toNat e
  rw [toNat_ofNat_of_lt' hlt] at this
  exact absurd this (Nat.ne_of_gt hn)

/-! ## The spare blocks -/

/-- **Every spare block is listed once**: following the chain from the superblock on the
disk, the nodes and the slots are the blocks after the inode table, each once. -/
def Filesystem.SparesListed (fs : Filesystem F) : Prop :=
  let s := (fs.disk.block 0).superblock
  ∃ nodes, Linked 0 fs.disk.nextNode s.freeBlocksHead nodes ∧
    (poolOf fs.disk nodes).Perm
      (numbers (s.inodeTableBlocks.toNat + 1) (s.blocks.toNat - 1 - s.inodeTableBlocks.toNat))

/-- The blocks that the filled index nodes do not list: the one before the first node,
the last node, and the rest. -/
def missingBlocks (B : ℕ) : List UInt64 :=
  UInt64.ofNat (tableBlocks B + 1) :: UInt64.ofNat (spareHead B + filledBlocks B) ::
    numbers (firstFree B + 63 * filledBlocks B) (dataBlocks B % 63)

/-- What the disk holds in the last index node is the first node of a chain of the
missing blocks. -/
def Disk.StaleTail (d : Disk) (B : ℕ) : Prop :=
  ∃ tail, Linked 0 d.nextNode (UInt64.ofNat (spareHead B + filledBlocks B)) tail ∧
    (poolOf d tail).Perm (missingBlocks B)

section Spares

variable {fs fs' : Filesystem F} {B : ℕ}

/-- The slots of a filled index node. -/
theorem slots_of_indexPrefix (hB : 3 ≤ B) (hlt : B < 2 ^ 55) {q : ℕ} {b : Block}
    (h : IndexPrefix B q 64 b) (hq : q < filledBlocks B) :
    b.slots = numbers (firstFree B + 63 * q) 63 := by
  have hsum := firstFree_add_dataBlocks hB
  have hfirst : 0 < firstFree B := by
    unfold firstFree spareHead
    omega
  have hfill : 63 * filledBlocks B ≤ dataBlocks B := Nat.mul_div_le _ _
  have hmap : (List.range' 1 63).map b.word = numbers (firstFree B + 63 * q) 63 := by
    rw [numbers_eq_map_range, List.range'_eq_map_range, List.map_map]
    refine List.map_congr_left fun s hs => ?_
    rw [List.mem_range] at hs
    have hword := h.slots (1 + s) (Nat.le_add_right 1 s) (by omega)
    rw [Nat.add_sub_cancel_left] at hword
    exact eq_ofNat_of_toNat hword
  rw [Block.slots, hmap, List.filter_eq_self]
  intro x hx
  rw [mem_numbers (by omega)] at hx
  refine decide_eq_true fun e => ?_
  rw [e] at hx
  exact absurd hx.1 (by show ¬ _ ≤ 0; omega)

/-- The pool of the first index nodes. -/
theorem poolOf_filled {d : Disk} (hB : 3 ≤ B) (hlt : B < 2 ^ 55)
    (hindex : ∀ q < filledBlocks B, IndexPrefix B q 64 (d.block (spareHead B + q))) {n : ℕ}
    (hn : n ≤ filledBlocks B) :
    (poolOf d (numbers (spareHead B) n)).Perm
      (numbers (spareHead B) n ++ numbers (firstFree B) (63 * n)) := by
  induction n with
  | zero => exact List.Perm.refl _
  | succ n ih =>
    have hle := spareHead_le hB
    have hsum := firstFree_add_dataBlocks hB
    have hfill : filledBlocks B ≤ dataBlocks B := Nat.div_le_self _ _
    have hnode : (UInt64.ofNat (spareHead B + n)).toNat = spareHead B + n :=
      toNat_ofNat_of_lt' (by unfold firstFree at hsum; omega)
    have hslots := slots_of_indexPrefix hB hlt (hindex n hn) hn
    have hpool : poolOf d [UInt64.ofNat (spareHead B + n)] =
        UInt64.ofNat (spareHead B + n) :: numbers (firstFree B + 63 * n) 63 := by
      rw [poolOf_cons, hnode, hslots, poolOf_nil, List.append_nil]
    rw [← numbers_append, numbers_one, poolOf_append, hpool, Nat.mul_succ, ← numbers_append]
    refine ((ih (Nat.le_of_succ_le hn)).append_right _).trans ?_
    rw [List.append_assoc, List.append_assoc]
    refine List.Perm.append_left _ ?_
    rw [List.singleton_append]
    exact List.perm_middle

/-- The blocks after the inode table, as the filled nodes list them and as they do not. -/
theorem perm_missingBlocks (hB : 3 ≤ B) (hrest : spareBlocks B % 64 ≠ 0) :
    (numbers (tableBlocks B + 1) (B - 1 - tableBlocks B)).Perm
      ((numbers (spareHead B) (filledBlocks B) ++ numbers (firstFree B) (63 * filledBlocks B)) ++
        missingBlocks B) := by
  have hsum := firstFree_add_dataBlocks hB
  have hindex := indexBlocks_eq B
  rw [if_neg hrest] at hindex
  have hhead : spareHead B = tableBlocks B + 1 + 1 := rfl
  have hfirst : firstFree B = spareHead B + filledBlocks B + 1 := by
    unfold firstFree
    omega
  have hdiv := Nat.div_add_mod (dataBlocks B) 63
  -- the numbers in order
  have hsplit : numbers (tableBlocks B + 1) (B - 1 - tableBlocks B) =
      UInt64.ofNat (tableBlocks B + 1) :: (numbers (spareHead B) (filledBlocks B) ++
        UInt64.ofNat (spareHead B + filledBlocks B) ::
          (numbers (firstFree B) (63 * filledBlocks B) ++
            numbers (firstFree B + 63 * filledBlocks B) (dataBlocks B % 63))) := by
    rw [numbers_append, hfirst, ← List.singleton_append (x := UInt64.ofNat (spareHead B + _)),
      ← numbers_one, numbers_append, numbers_append, hhead,
      ← List.singleton_append (x := UInt64.ofNat (tableBlocks B + 1)), ← numbers_one,
      numbers_append]
    congr 1
    unfold filledBlocks at hfirst ⊢
    omega
  rw [hsplit, missingBlocks]
  refine List.Perm.trans ?_ List.perm_middle.symm
  refine List.Perm.cons _ ?_
  rw [List.append_assoc]
  exact List.Perm.append_left _ List.perm_middle.symm

/-- The blocks of the missing ones are those of the disk before it was formatted. -/
theorem block_missing (h : Formatted B fs fs') (hB : 3 ≤ B) (hlt : B < 2 ^ 55)
    (hrest : spareBlocks B % 64 ≠ 0) {x : UInt64} (hx : x ∈ missingBlocks B) :
    fs'.disk.block x.toNat = fs.disk.block x.toNat := by
  have hsum := firstFree_add_dataBlocks hB
  have hindex := indexBlocks_eq B
  rw [if_neg hrest] at hindex
  have hfirst : firstFree B = spareHead B + indexBlocks B := rfl
  have hhead : spareHead B = tableBlocks B + 2 := rfl
  have hdiv := Nat.div_add_mod (dataBlocks B) 63
  unfold filledBlocks at hindex
  have hbounds : x.toNat = tableBlocks B + 1 ∨ spareHead B + filledBlocks B ≤ x.toNat := by
    rw [missingBlocks, List.mem_cons, List.mem_cons] at hx
    unfold filledBlocks at hx ⊢
    rcases hx with rfl | rfl | hx
    · exact Or.inl (toNat_ofNat_of_lt' (by omega))
    · exact Or.inr (toNat_ofNat_of_lt' (by omega)).ge
    · rw [mem_numbers (by omega)] at hx
      exact Or.inr (by omega)
  refine h.others _ ?_ fun q hq => ?_
  · unfold filledBlocks at hbounds
    omega
  · omega

/-- A chain of the missing blocks is the same before and after. -/
theorem staleTail_iff (h : Formatted B fs fs') (hB : 3 ≤ B) (hlt : B < 2 ^ 55)
    (hrest : spareBlocks B % 64 ≠ 0) : fs'.disk.StaleTail B ↔ fs.disk.StaleTail B := by
  constructor
  · rintro ⟨tail, hlinked, hperm⟩
    have hsame : ∀ x ∈ tail, fs.disk.block x.toNat = fs'.disk.block x.toNat := fun x hx =>
      (block_missing h hB hlt hrest (hperm.mem_iff.mp (mem_poolOf_of_mem hx))).symm
    refine ⟨tail, hlinked.congr fun x hx => ?_, by rwa [poolOf_congr hsame]⟩
    rw [Disk.nextNode, hsame x hx, Disk.nextNode]
  · rintro ⟨tail, hlinked, hperm⟩
    have hsame : ∀ x ∈ tail, fs'.disk.block x.toNat = fs.disk.block x.toNat := fun x hx =>
      block_missing h hB hlt hrest (hperm.mem_iff.mp (mem_poolOf_of_mem hx))
    refine ⟨tail, hlinked.congr fun x hx => ?_, by rwa [poolOf_congr hsame]⟩
    rw [Disk.nextNode, hsame x hx, Disk.nextNode]

/-- Where the nodes from the first one on lead. -/
theorem nextNode_filled (h : Formatted B fs fs') (hB : 3 ≤ B) (hlt : B < 2 ^ 55) {q : ℕ}
    (hq : q < filledBlocks B) : fs'.disk.nextNode (UInt64.ofNat (spareHead B + q)) =
      if q + 1 < indexBlocks B then UInt64.ofNat (spareHead B + (q + 1)) else 0 := by
  have hsum := firstFree_add_dataBlocks hB
  have hfill : filledBlocks B ≤ dataBlocks B := Nat.div_le_self _ _
  have hnode : (UInt64.ofNat (spareHead B + q)).toNat = spareHead B + q :=
    toNat_ofNat_of_lt' (by unfold firstFree at hsum; omega)
  rw [Disk.nextNode, hnode]
  have hnext := (h.index q hq).next
  split at hnext
  · rw [if_pos ‹_›, ← Nat.add_assoc]
    exact eq_ofNat_of_toNat hnext
  · rw [if_neg ‹_›]
    exact UInt64.toNat_inj.mp hnext

/-- The blocks named on a disk whose index nodes are all filled are not before the first
node. -/
theorem notMem_poolOf_of_full (h : Formatted B fs fs') (hB : 3 ≤ B) (hlt : B < 2 ^ 55)
    (hfull : spareBlocks B % 64 = 0) {nodes : List UInt64}
    (hlinked : Linked 0 fs'.disk.nextNode (UInt64.ofNat (spareHead B)) nodes)
    (hpos : 0 < filledBlocks B) {x : UInt64} (hx : x ∈ poolOf fs'.disk nodes) :
    spareHead B ≤ x.toNat := by
  have hsum := firstFree_add_dataBlocks hB
  have hindex := indexBlocks_eq B
  rw [if_pos hfull, Nat.add_zero] at hindex
  have hfirst : firstFree B = spareHead B + indexBlocks B := rfl
  have hfill : 63 * filledBlocks B ≤ dataBlocks B := Nat.mul_div_le _ _
  have hnodes : ∀ n ∈ nodes, ∃ q < filledBlocks B, n = UInt64.ofNat (spareHead B + q) := by
    refine hlinked.forall_mem (fun _ => ⟨0, hpos, rfl⟩) ?_
    rintro _ ⟨q, hq, rfl⟩ hne
    rw [nextNode_filled h hB hlt hq] at hne ⊢
    split at hne
    · rw [if_pos ‹_›]
      exact ⟨q + 1, by omega, rfl⟩
    · exact absurd rfl hne
  obtain ⟨n, hn, hx⟩ := List.mem_flatMap.mp hx
  obtain ⟨q, hq, rfl⟩ := hnodes n hn
  have hnode : (UInt64.ofNat (spareHead B + q)).toNat = spareHead B + q :=
    toNat_ofNat_of_lt' (by omega)
  rw [hnode, slots_of_indexPrefix hB hlt (h.index q hq) hq] at hx
  rcases List.mem_cons.mp hx with rfl | hx
  · omega
  · rw [mem_numbers (by omega)] at hx
    omega

/-- **Which formatted disks list every spare block.** -/
theorem sparesListed_iff (h : Formatted B fs fs') (hB : 3 ≤ B) (hlt : B < 2 ^ 55)
    (hfits : Fits B) :
    fs'.SparesListed ↔ spareBlocks B % 64 ≠ 0 ∧ fs.disk.StaleTail B := by
  have hsum := firstFree_add_dataBlocks hB
  have hindex := indexBlocks_eq B
  have hfirst : firstFree B = spareHead B + indexBlocks B := rfl
  have hhead2 : spareHead B = tableBlocks B + 2 := rfl
  have hblocks : (UInt64.ofNat B).toNat = B := toNat_ofNat_of_lt' (by omega)
  obtain ⟨now, hsuper⟩ := h.superblock
  have hsynced : (fs'.disk.block 0).superblock = superblockFor (UInt64.ofNat B) now :=
    h.synced.trans hsuper
  have hhead : (superblockFor (UInt64.ofNat B) now).freeBlocksHead = UInt64.ofNat (spareHead B) :=
    eq_ofNat_of_toNat (toNat_freeBlocksHead now hblocks hB)
  have htable : (superblockFor (UInt64.ofNat B) now).inodeTableBlocks.toNat = tableBlocks B :=
    toNat_inodeTableBlocksFor hblocks hB
  have hrange : (superblockFor (UInt64.ofNat B) now).blocks.toNat = B := hblocks
  unfold Filesystem.SparesListed
  simp only [hsynced, hhead, htable, hrange]
  by_cases hfull : spareBlocks B % 64 = 0
  · -- every index node is filled, and the block before the first one is missing
    rw [if_pos hfull, Nat.add_zero] at hindex
    have hpos : 0 < filledBlocks B := by
      have hne := hfits.1
      have hdata := dataBlocks_eq B
      unfold filledBlocks
      omega
    refine ⟨?_, fun hstale => absurd hfull hstale.1⟩
    rintro ⟨nodes, hlinked, hperm⟩
    have hmem : UInt64.ofNat (tableBlocks B + 1) ∈ poolOf fs'.disk nodes := by
      rw [hperm.mem_iff, mem_numbers (by omega), toNat_ofNat_of_lt' (by omega)]
      omega
    have hge := notMem_poolOf_of_full h hB hlt hfull hlinked hpos hmem
    rw [toNat_ofNat_of_lt' (by omega)] at hge
    omega
  · rw [if_neg hfull] at hindex
    have hsmall : spareHead B + filledBlocks B < 2 ^ 64 := by omega
    -- the filled nodes come first, then the chain that the disk held
    have hstretch : ∀ nodes, Linked 0 fs'.disk.nextNode (UInt64.ofNat (spareHead B)) nodes ↔
        ∃ tail, nodes = numbers (spareHead B) (filledBlocks B) ++ tail ∧
          Linked 0 fs'.disk.nextNode (UInt64.ofNat (spareHead B + filledBlocks B)) tail := by
      intro nodes
      rw [numbers_eq_map_range]
      refine Linked.stretch_iff (f := fun q => UInt64.ofNat (spareHead B + q))
        (fun q hq => toNat_ofNat_ne_zero (by omega) (by omega)) fun q hq => ?_
      rw [nextNode_filled h hB hlt hq, if_pos (by omega)]
    have hpool := poolOf_filled hB hlt h.index (Nat.le_refl _)
    have hall := perm_missingBlocks hB hfull
    have hperm : ∀ tail, (poolOf fs'.disk (numbers (spareHead B) (filledBlocks B) ++ tail)).Perm
        (numbers (tableBlocks B + 1) (B - 1 - tableBlocks B)) ↔
        (poolOf fs'.disk tail).Perm (missingBlocks B) := by
      intro tail
      rw [poolOf_append]
      constructor
      · intro hp
        exact (List.perm_append_left_iff _).mp
          (((hpool.symm.append_right _).trans hp).trans hall)
      · intro hp
        exact ((hpool.append_right _).trans (hp.append_left _)).trans hall.symm
    rw [← staleTail_iff h hB hlt hfull]
    constructor
    · rintro ⟨nodes, hlinked, hp⟩
      obtain ⟨tail, rfl, htail⟩ := (hstretch nodes).mp hlinked
      exact ⟨hfull, tail, htail, (hperm tail).mp hp⟩
    · rintro ⟨-, tail, htail, hp⟩
      exact ⟨_, (hstretch _).mpr ⟨tail, rfl, htail⟩, (hperm tail).mpr hp⟩

end Spares

/-- **When formatting lists every spare block.**  On a disk of `B` blocks this is so if
`format_fs` does not return --- the disk does not fit --- or if the last index node is
not filled and what the disk held in it is the first node of a chain of just the
missing blocks. -/
theorem format_lists_spares_iff {fs : Filesystem F} {B : ℕ} (hlt : fs.disk.size < 2 ^ 63)
    (hB : fs.disk.size / 512 = B) (hB3 : 3 ≤ B) :
    (∀ host fs', formatFs.run { fs with host := host } = .done 0 fs' → fs'.SparesListed) ↔
      ¬ Fits B ∨ (spareBlocks B % 64 ≠ 0 ∧ fs.disk.StaleTail B) := by
  constructor
  · intro hall
    by_cases hfits : Fits B
    · obtain ⟨fs', hrun, hformatted⟩ := (formatFs_run { fs with host := Host.quiet }
        (fun _ => rfl) hlt hB hB3).1 hfits
      exact Or.inr ((sparesListed_iff hformatted hB3 (by omega) hfits).mp (hall _ fs' hrun))
    · exact Or.inl hfits
  · intro hcond host fs' hrun
    obtain ⟨hfits, hformatted⟩ := formatted_of_run { fs with host := host } hlt hB hB3 hrun
    rcases hcond with hbad | hstale
    · exact absurd hfits hbad
    · exact (sparesListed_iff hformatted hB3 (by omega) hfits).mpr hstale

/-- A disk file of so many zero blocks, and a filesystem that has just been allocated. -/
def Filesystem.unformatted (B : ℕ) : Filesystem Unit where
  disk := { size := 512 * B, byte := fun _ => 0 }
  superblock := superblockFor 0 0
  inodeCache := { dirty := false, blockNumber := 0, data := Block.zero }
  host := Host.quiet
  files := ()

theorem format_lists_spares_iff_unformatted :
    (∀ host fs', formatFs.run { Filesystem.unformatted 4 with host := host } = .done 0 fs' →
      fs'.SparesListed) ↔
      ¬ Fits 4 ∨ (spareBlocks 4 % 64 ≠ 0 ∧ (Filesystem.unformatted 4).disk.StaleTail 4) :=
  format_lists_spares_iff (by decide) (by decide) (by decide)

/-- Formatting four zero blocks loses block 2. -/
theorem format_leaks_block : ∃ fs', formatFs.run (Filesystem.unformatted 4) = .done 0 fs' ∧
    ¬ fs'.SparesListed := by
  obtain ⟨fs', hrun, hformatted⟩ := (formatFs_run (Filesystem.unformatted 4) (B := 4)
    (fun _ => rfl) (by decide) (by decide) (by decide)).1 (by decide)
  refine ⟨fs', hrun, fun hspares => ?_⟩
  obtain ⟨-, tail, hlinked, hperm⟩ := (sparesListed_iff hformatted (by decide) (by decide)
    (by decide)).mp hspares
  have hblock : ∀ m, (Filesystem.unformatted 4).disk.block m = Block.zero := fun _ => rfl
  have hzero : ∀ x, (Filesystem.unformatted 4).disk.nextNode x = 0 := fun x => by
    rw [Disk.nextNode, hblock, Block.word_zero]
  have hlength := hperm.length_eq
  have hmissing : (missingBlocks 4).length = 2 := by decide
  have hhead : UInt64.ofNat (spareHead 4 + filledBlocks 4) ≠ 0 := by decide
  rw [hmissing] at hlength
  -- the chain is one block, and two are missing
  cases tail with
  | nil => exact absurd hlinked hhead
  | cons x tail =>
    have htail := hlinked.2.2
    rw [hzero x] at htail
    obtain rfl := htail.eq_nil_iff.mpr rfl
    rw [poolOf_cons, hblock, Block.slots_zero] at hlength
    exact absurd (show 1 = 2 from hlength) (by decide)

/-! ## Sizes that fit -/

/-- **`format_fs` returns 0 exactly on the disks that fit**; on the others the assertion
after the loop over the free blocks fails. -/
theorem format_succeeds_iff {fs : Filesystem F} {B : ℕ} (hnf : fs.host.NoFaults)
    (hlt : fs.disk.size < 2 ^ 63) (hB : fs.disk.size / 512 = B) (hB3 : 3 ≤ B) :
    (Run.Ensures (formatFs : Fs F ℤ) fs fun ret _ => ret = 0) ↔
      B ≠ 3 ∧ (spareBlocks B % 64 = 1 → spareBlocks B = 1) := by
  have hfits : Fits B ↔ B ≠ 3 ∧ (spareBlocks B % 64 = 1 → spareBlocks B = 1) :=
    and_congr_left fun _ => not_congr (spareBlocks_eq_zero_iff hB3)
  rw [← hfits]
  obtain ⟨hgood, hbad⟩ := formatFs_run fs hnf hlt hB hB3
  constructor
  · rintro ⟨ret, fs', hrun, -⟩
    by_contra hnot
    rw [hbad hnot] at hrun
    cases hrun
  · intro h
    obtain ⟨fs', hrun, -⟩ := hgood h
    exact ⟨0, fs', hrun, rfl⟩

theorem format_succeeds_iff_unformatted :
    (Run.Ensures formatFs (Filesystem.unformatted 4) fun ret _ => ret = 0) ↔
      4 ≠ 3 ∧ (spareBlocks 4 % 64 = 1 → spareBlocks 4 = 1) :=
  format_succeeds_iff (fun _ => rfl) (by decide) (by decide) (by decide)

/-- **On a disk of three blocks an assertion fails**, though the size is admitted. -/
theorem format_aborts : (Filesystem.unformatted 3).host.NoFaults ∧
    (Filesystem.unformatted 3).disk.size / 512 = 3 ∧
    formatFs.run (Filesystem.unformatted 3) = .halt .assertion :=
  ⟨fun _ => rfl, by decide, (formatFs_run (Filesystem.unformatted 3) (B := 3) (fun _ => rfl)
    (by decide)
    (by decide) (by decide)).2 (by decide)⟩

/-! ## The inode table -/

/-- The filesystem that has just been opened on the disk, on a host that does not
fail. -/
def Filesystem.reopened (fs : Filesystem F) : Filesystem F :=
  { fs.faultless with inodeCache := { dirty := false, blockNumber := 0, data := Block.zero } }

/-- `sfs_fs_read_inode` finds an inode on the disk. -/
def Filesystem.Finds (fs : Filesystem F) (k : UInt64) (v : Inode) : Prop :=
  Run.Ensures (sfsFsReadInode k) fs.reopened fun answer _ => answer = some v

/-- **A sound inode table**: every inode has its number, the root is an empty directory,
and the free list visits the other inodes in turn and ends. -/
structure Filesystem.SoundInodeTable (fs : Filesystem F) : Prop where
  inumbers : ∀ k, fs.superblock.ValidInumber k → ∃ v, fs.Finds k v ∧ v.inumber = k
  root : ∃ v, fs.Finds 1 v ∧ v.mode &&& sIfdir = sIfdir ∧ v.size = 0 ∧ v.links = 1 ∧
    ∀ i, v.pointer i = 0
  freeList : ∃ next : UInt64 → UInt64,
    (∀ k, fs.superblock.ValidInumber k → ∃ v, fs.Finds k v ∧ next k = v.size) ∧
    Linked 0 next fs.superblock.freeInodeHead (numbers 2 (fs.superblock.inodes.toNat - 1))

section Table

variable {fs fs' : Filesystem F} {B : ℕ}

/-- **What `sfs_fs_read_inode` finds**, through an empty cache: the inode on the disk. -/
theorem finds_of_holds (hlt : fs.disk.size < 2 ^ 63) {k : UInt64} (hk : 0 < k)
    (hsize : 512 * ((inodeBlock k).toNat + 1) ≤ fs.disk.size) :
    fs.Finds k (Block.inode (fs.disk.block (inodeBlock k).toNat) (inodeSlot k)) := by
  have hholds : fs.reopened.disk.Holds (inodeBlock k) := ⟨hsize, hlt⟩
  have hmiss : ¬ ofCInt fs.reopened.inodeCache.blockNumber = inodeBlock k := fun e =>
    inodeBlock_ne_zero hk e.symm
  have hclean : (writeBack : Fs F ℤ).run fs.reopened = .done 0 fs.reopened := rfl
  have hcache : (cacheInodeBlock true (inodeBlock k)).run fs.reopened = .done 0
      { fs.reopened with inodeCache :=
        { dirty := false, blockNumber := toCInt (inodeBlock k)
          data := fs.disk.block (inodeBlock k).toNat } } := by
    rw [cacheInodeBlock, Run.run_bind, Run.run_get, Run.andThen_done, if_neg hmiss, Run.run_bind,
      hclean, Run.andThen_done, if_neg (by simp), Run.run_bind, Run.run_modify, Run.andThen_done,
      Run.run_bind, Run.run_get, Run.andThen_done, Run.run_bind,
      blockRead_of_holds (by exact fun _ => rfl) (by exact hholds), Run.andThen_done]
    rfl
  have hrun : (sfsFsReadInode k).run fs.reopened = .done
      (some (Block.inode (fs.disk.block (inodeBlock k).toNat) (inodeSlot k)))
      { fs.reopened with inodeCache :=
        { dirty := false, blockNumber := toCInt (inodeBlock k)
          data := fs.disk.block (inodeBlock k).toNat } } := by
    rw [sfsFsReadInode, decide_eq_true hk, Run.assert_true, Run.pure_bind', Run.run_bind, hcache,
      Run.andThen_done, if_neg (by simp), Run.run_bind, Run.run_get, Run.andThen_done,
      Run.run_pure]
  exact Run.Ensures.of_eq hrun rfl

theorem Filesystem.Finds.unique {k : UInt64} {v w : Inode} (hv : fs.Finds k v)
    (hw : fs.Finds k w) : v = w := by
  obtain ⟨_, _, hrun, rfl⟩ := hv
  exact Option.some.inj (hw.post hrun)

theorem Formatted.inodes_eq (h : Formatted B fs fs') (hB : 3 ≤ B) (hlt : B < 2 ^ 55) :
    fs'.superblock.inodes.toNat = 3 * tableBlocks B := by
  obtain ⟨now, hsuper⟩ := h.superblock
  rw [hsuper]
  exact toNat_inodes (toNat_ofNat_of_lt' (by omega)) hB

/-- **The inode on the disk under a number** is the one that was made for it. -/
theorem Formatted.inode (h : Formatted B fs fs') (hB : 3 ≤ B) (hlt : B < 2 ^ 55) {k : UInt64}
    (hk : fs'.superblock.ValidInumber k) : (inodeBlock k).toNat ≤ tableBlocks B ∧
      FormattedInode k.toNat (Block.inode (fs'.disk.block (inodeBlock k).toNat) (inodeSlot k)) := by
  have hpos : 0 < k.toNat := UInt64.lt_iff_toNat_lt.mp hk.1
  have hN := UInt64.le_iff_toNat_le.mp hk.2
  rw [h.inodes_eq hB hlt] at hN
  have hblock := toNat_inodeBlock hk.1
  have hinode := h.table ((k.toNat - 1) / 3) (by omega) (inodeSlot k) (inodeSlot_lt hk.1)
  have hnumber : 3 * ((k.toNat - 1) / 3) + inodeSlot k + 1 = k.toNat := by
    rw [inodeSlot_eq hk.1]
    omega
  rw [hnumber, ← hblock] at hinode
  exact ⟨by omega, hinode⟩

/-- It is found there. -/
theorem Formatted.finds (h : Formatted B fs fs') (hlt : fs.disk.size < 2 ^ 63)
    (hB : fs.disk.size / 512 = B) (hB3 : 3 ≤ B) {k : UInt64}
    (hk : fs'.superblock.ValidInumber k) :
    ∃ v, fs'.Finds k v ∧ FormattedInode k.toNat v := by
  have hle := spareHead_le hB3
  have hhead : spareHead B = tableBlocks B + 2 := rfl
  obtain ⟨hblock, hinode⟩ := h.inode hB3 (by omega) hk
  exact ⟨_, finds_of_holds (by rw [h.size]; exact hlt) hk.1 (by rw [h.size]; omega), hinode⟩

/-- Every inode has its number. -/
theorem FormattedInode.inumber {k : UInt64} {v : Inode} (h : FormattedInode k.toNat v) :
    v.inumber = k := by
  rw [FormattedInode] at h
  split at h
  · rw [h.1]
    exact UInt64.toNat_inj.mp (Eq.symm ‹_›)
  · rw [h]
    exact UInt64.ofNat_toNat

/-- An inode other than the root names the next number as the one free after it. -/
theorem FormattedInode.free {k : UInt64} {v : Inode} (h : FormattedInode k.toNat v)
    (hne : k ≠ 1) : v.size = k + 1 ∧ v.links = 0 := by
  have hk1 : k.toNat ≠ 1 := fun e => hne (UInt64.toNat_inj.mp e)
  rw [FormattedInode, if_neg hk1] at h
  rw [h]
  refine ⟨UInt64.toNat_inj.mp ?_, rfl⟩
  rw [UInt64.toNat_ofNat', UInt64.toNat_add]
  rfl

theorem Formatted.valid (h : Formatted B fs fs') (hB : 3 ≤ B) (hlt : B < 2 ^ 55) {n : ℕ}
    (h1 : 1 ≤ n) (hn : n ≤ 3 * tableBlocks B) :
    fs'.superblock.ValidInumber (UInt64.ofNat n) := by
  have hle := spareHead_le hB
  unfold spareHead at hle
  constructor
  · rw [UInt64.lt_iff_toNat_lt, toNat_ofNat_of_lt' (by omega)]
    exact h1
  · rw [UInt64.le_iff_toNat_le, h.inodes_eq hB hlt, toNat_ofNat_of_lt' (by omega)]
    exact hn

theorem Formatted.finds_free (h : Formatted B fs fs') (hlt : fs.disk.size < 2 ^ 63)
    (hB : fs.disk.size / 512 = B) (hB3 : 3 ≤ B) {k : UInt64}
    (hk : fs'.superblock.ValidInumber k) (hne : k ≠ 1) : ∃ v, fs'.Finds k v ∧ v.size = k + 1 := by
  obtain ⟨v, hv, hform⟩ := h.finds hlt hB hB3 hk
  exact ⟨v, hv, (hform.free hne).1⟩

/-- **What a fresh inode table is**: every inode has its number, the root is an empty
directory, and each other inode names the next number as the one free after it. -/
theorem fresh_inode_table (hlt : fs.disk.size < 2 ^ 63) (hB : fs.disk.size / 512 = B)
    (hB3 : 3 ≤ B) (hrun : formatFs.run fs = .done 0 fs') :
    (∀ k, fs'.superblock.ValidInumber k → ∃ v, fs'.Finds k v ∧ v.inumber = k) ∧
    (∃ v, fs'.Finds 1 v ∧ v.mode &&& sIfdir = sIfdir ∧ v.size = 0 ∧ v.links = 1 ∧
      ∀ i, v.pointer i = 0) ∧
    fs'.superblock.freeInodeHead = 2 ∧
    ∀ k, fs'.superblock.ValidInumber k → k ≠ 1 → ∃ v, fs'.Finds k v ∧ v.size = k + 1 := by
  obtain ⟨-, h⟩ := formatted_of_run _ hlt hB hB3 hrun
  refine ⟨fun k hk => ?_, ?_, ?_, fun k hk hne => h.finds_free hlt hB hB3 hk hne⟩
  · obtain ⟨v, hv, hform⟩ := h.finds hlt hB hB3 hk
    exact ⟨v, hv, hform.inumber⟩
  · have h1 : fs'.superblock.ValidInumber 1 :=
      h.valid hB3 (by omega) (n := 1) (Nat.le_refl 1) (by have := tableBlocks_pos B; omega)
    obtain ⟨v, hv, hform⟩ := h.finds hlt hB hB3 h1
    rw [FormattedInode, if_pos (show (1 : UInt64).toNat = 1 from rfl)] at hform
    obtain ⟨-, hmode, hlinks, hsize, hpointers⟩ := hform
    refine ⟨v, hv, ?_, hsize, hlinks, hpointers⟩
    rw [hmode]
    decide
  · obtain ⟨now, hsuper⟩ := h.superblock
    rw [hsuper]
    rfl

/-- A disk that can be formatted has three blocks. -/
theorem three_le_of_run (hlt : fs.disk.size < 2 ^ 63)
    (hrun : formatFs.run fs = .done 0 fs') :
    3 ≤ fs.disk.size / 512 := by
  have hrun' := formatFs_follows fs 0 fs' hrun rfl
  rw [formatFs, Run.run_bind, diskBlocks_run fs.faultless (fun _ => rfl) rfl,
    Run.andThen_done] at hrun'
  by_contra hB
  have h3 : UInt64.ofNat (fs.faultless.disk.size / 512) < 3 := by
    have hsmall : fs.faultless.disk.size / 512 < 2 ^ 64 :=
      Nat.lt_of_le_of_lt (Nat.div_le_self _ _) (hlt.trans (by decide))
    rw [UInt64.lt_iff_toNat_lt, toNat_ofNat_of_lt' hsmall]
    exact Nat.not_le.mp hB
  simp only [if_pos h3, Run.run_pure] at hrun'
  cases hrun'

/-- The last inode of a formatted disk names a number outside the table. -/
theorem Formatted.not_soundInodeTable (h : Formatted B fs fs') (hlt : fs.disk.size < 2 ^ 63)
    (hB : fs.disk.size / 512 = B) (hB3 : 3 ≤ B) : ¬ fs'.SoundInodeTable := by
  rintro ⟨-, -, next, hsize, hlinked⟩
  have hN := h.inodes_eq hB3 (by omega)
  have hpos := tableBlocks_pos B
  have hle := spareHead_le hB3
  unfold spareHead at hle
  generalize hM : 3 * tableBlocks B = N at hN
  -- the last inode of the list
  have hvalid : fs'.superblock.ValidInumber (UInt64.ofNat N) :=
    h.valid hB3 (by omega) (by omega) (by omega)
  have hlast : numbers 2 (N - 1) = numbers 2 (N - 2) ++ [UInt64.ofNat N] := by
    rw [show N - 1 = N - 2 + 1 by omega, ← numbers_append, numbers_one,
      show 2 + (N - 2) = N by omega]
  rw [hN, hlast] at hlinked
  have hend : next (UInt64.ofNat N) = 0 := hlinked.suffix.2.2
  have hne : UInt64.ofNat N ≠ 1 := fun e => by
    have := congrArg UInt64.toNat e
    rw [toNat_ofNat_of_lt' (by omega)] at this
    exact absurd this (by show N ≠ 1; omega)
  obtain ⟨v, hv, hvsize⟩ := hsize _ hvalid
  obtain ⟨w, hw, hwsize⟩ := h.finds_free hlt hB hB3 hvalid hne
  rw [hv.unique hw, hwsize] at hvsize
  rw [hvsize] at hend
  have := congrArg UInt64.toNat hend
  rw [toNat_succ (toNat_ofNat_of_lt' (n := N) (by omega)) (by omega)] at this
  exact absurd this (Nat.succ_ne_zero N)

end Table

/-- **The free inode list of a fresh disk does not end**: its last inode names a number
outside the table, so no disk that `format_fs` formats has a sound inode table. -/
theorem fresh_inode_list_ends {fs fs' : Filesystem F} (hlt : fs.disk.size < 2 ^ 63)
    (hrun : formatFs.run fs = .done 0 fs') : ¬ fs'.SoundInodeTable := by
  have hB3 := three_le_of_run hlt hrun
  obtain ⟨-, h⟩ := formatted_of_run _ hlt rfl hB3 hrun
  exact h.not_soundInodeTable hlt rfl hB3

/-- Four zero blocks can be formatted. -/
theorem format_unformatted : ∃ fs', formatFs.run (Filesystem.unformatted 4) = .done 0 fs' ∧
    Formatted 4 (Filesystem.unformatted 4) fs' :=
  (formatFs_run (Filesystem.unformatted 4) (fun _ => rfl) (by decide) (by decide)
    (by decide)).1 (by decide)

theorem fresh_inode_list_ends_unformatted :
    ∃ fs', formatFs.run (Filesystem.unformatted 4) = .done 0 fs' ∧ ¬ fs'.SoundInodeTable := by
  obtain ⟨fs', hrun, -⟩ := format_unformatted
  exact ⟨fs', hrun, fresh_inode_list_ends (by decide) hrun⟩

/-- Formatting four zero blocks chains inodes 2, 3 and 4 of a table of three. -/
theorem format_chains_inode_four :
    ∃ fs', formatFs.run (Filesystem.unformatted 4) = .done 0 fs' ∧ ¬ fs'.SoundInodeTable := by
  obtain ⟨fs', hrun, h⟩ := format_unformatted
  exact ⟨fs', hrun, h.not_soundInodeTable (by decide) (by decide) (by decide)⟩

end SimpleFileSystem
