import SimpleFileSystem.CacheMemory
import SimpleFileSystem.Mounts
import SimpleFileSystem.Opening

/-!
# A new disk

On a disk file without a signature `sfs_init` formats it and goes on.  What it leaves is a sound
disk with the empty volume, if the file held zeros where `format_fs` does not write the last index
node (`NewDisk`): the free blocks are then the numbers from the first node on, and the free inodes
those from 2 on, in a list that ends with the number after the last inode.

From there the requests of a client are requests on a volume, and the links and the free inodes
are right in every state (`new_disk_is_volume`).
-/

namespace SimpleFileSystem

variable {F : Type}

/-- **A disk file of `B` blocks** that `sfs_init` formats. -/
structure NewDisk (B : ℕ) (d : Disk) : Prop where
  blocks : d.size / 512 = B
  addressable : d.size < 2 ^ 63
  enough : 3 ≤ B
  fits : Fits B
  unsigned : ¬ d.Signed
  /-- The last index node, if it is not filled, is not written. -/
  blank : spareBlocks B % 64 ≠ 0 → d.block (spareHead B + filledBlocks B) = Block.zero
  small : tableBlocks B < 2 ^ 31

/-- No number is there twice. -/
theorem numbers_nodup {s n : ℕ} (h : s + n ≤ 2 ^ 64) : (numbers s n).Nodup := by
  refine List.Nodup.map_on (fun i hi j hj heq => ?_) (List.nodup_range' 1)
  rw [List.mem_range'_1] at hi hj
  have hnat := congrArg UInt64.toNat heq
  rwa [toNat_ofNat_of_lt' (by omega), toNat_ofNat_of_lt' (by omega)] at hnat

/-! ## The disk -/

section Disk

variable {fs fs' : Filesystem F} {B : ℕ} {k : UInt64}

namespace NewDisk

theorem lt (h : NewDisk B fs.disk) : B < 2 ^ 55 := by
  have hblocks := h.blocks
  have hlt := h.addressable
  omega

theorem le_size (h : NewDisk B fs.disk) : 512 * B ≤ fs.disk.size := by
  have hblocks := h.blocks
  omega

theorem toNat_blocks (h : NewDisk B fs.disk) : (UInt64.ofNat B).toNat = B :=
  toNat_ofNat_of_lt' (h.lt.trans (by decide))

/-- The sizes of its parts. -/
theorem sizes (h : NewDisk B fs.disk) : spareHead B = tableBlocks B + 2 ∧
    firstFree B = spareHead B + indexBlocks B ∧ firstFree B + dataBlocks B = B ∧
    63 * filledBlocks B ≤ dataBlocks B ∧
    indexBlocks B = filledBlocks B + (if spareBlocks B % 64 = 0 then 0 else 1) ∧
    indexBlocks B ≠ 0 := by
  refine ⟨rfl, rfl, firstFree_add_dataBlocks h.enough, Nat.mul_div_le _ _, indexBlocks_eq B, ?_⟩
  have hspare := h.fits.1
  unfold indexBlocks dataBlocks
  omega

/-! ### The superblock -/

/-- What the superblock of a new disk says. -/
structure Layout (B : ℕ) (s : Superblock) : Prop where
  blocks : s.blocks.toNat = B
  inodeTableBlocks : s.inodeTableBlocks.toNat = tableBlocks B
  inodes : s.inodes.toNat = 3 * tableBlocks B
  freeBlocksHead : s.freeBlocksHead = UInt64.ofNat (spareHead B)
  freeInodeHead : s.freeInodeHead = UInt64.ofNat 2
  signature : s.signature = sfsFileTypeSignature

theorem layout (h : NewDisk B fs.disk) (hf : Formatted B fs fs') : Layout B fs'.superblock := by
  have hinodes := hf.inodes_eq h.enough h.lt
  obtain ⟨now, hsuper⟩ := hf.superblock
  rw [hsuper] at hinodes ⊢
  exact ⟨h.toNat_blocks, toNat_inodeTableBlocksFor h.toNat_blocks h.enough, hinodes,
    eq_ofNat_of_toNat (toNat_freeBlocksHead now h.toNat_blocks h.enough), rfl, rfl⟩

/-- The numbers of its inodes. -/
theorem valid_iff (h : NewDisk B fs.disk) (hf : Formatted B fs fs') :
    fs'.superblock.ValidInumber k ↔ 1 ≤ k.toNat ∧ k.toNat ≤ 3 * tableBlocks B := by
  rw [Superblock.ValidInumber, UInt64.lt_iff_toNat_lt, UInt64.le_iff_toNat_le,
    (h.layout hf).inodes]
  exact Iff.rfl

/-! ### The free blocks -/

/-- The last node is blank, unless it is filled. -/
theorem block_last (h : NewDisk B fs.disk) (hf : Formatted B fs fs')
    (hrest : spareBlocks B % 64 ≠ 0) :
    fs'.disk.block (UInt64.ofNat (spareHead B + filledBlocks B)).toNat = Block.zero := by
  have hlt := h.lt
  obtain ⟨-, hfirst, hsum, -, hindex, -⟩ := h.sizes
  rw [if_neg hrest] at hindex
  have hmem : UInt64.ofNat (spareHead B + filledBlocks B) ∈ missingBlocks B :=
    List.mem_cons_of_mem _ List.mem_cons_self
  rw [block_missing hf h.enough h.lt hrest hmem, toNat_ofNat_of_lt' (by omega)]
  exact h.blank hrest

/-- **The chain of the index nodes**: all that were set aside, in order. -/
theorem linked (h : NewDisk B fs.disk) (hf : Formatted B fs fs') :
    Linked 0 fs'.disk.nextNode fs'.superblock.freeBlocksHead
      (numbers (spareHead B) (indexBlocks B)) := by
  have hlt := h.lt
  obtain ⟨hhead, hfirst, hsum, -, hindex, hne⟩ := h.sizes
  rw [(h.layout hf).freeBlocksHead]
  refine Linked.range' hne hfirst.symm
    (fun j _ _ => toNat_ofNat_ne_zero (n := j) (by omega) (by omega)) fun j hj hjlt => ?_
  obtain ⟨q, rfl⟩ := Nat.exists_eq_add_of_le hj
  by_cases hq : q < filledBlocks B
  · rw [nextNode_filled hf h.enough h.lt hq]
    by_cases hlast : q + 1 < indexBlocks B
    · rw [if_pos hlast, if_neg (by omega), Nat.add_assoc]
    · rw [if_neg hlast, if_pos (by omega)]
  · -- the last node, which is not filled
    have hrest : spareBlocks B % 64 ≠ 0 := fun hfull => by
      rw [if_pos hfull] at hindex
      omega
    rw [if_neg hrest] at hindex
    obtain rfl : q = filledBlocks B := by omega
    rw [if_pos (by omega), Disk.nextNode, h.block_last hf hrest, Block.word_zero]

/-- **The free blocks** are numbers in a row. -/
theorem pool (h : NewDisk B fs.disk) (hf : Formatted B fs fs') :
    (poolOf fs'.disk (numbers (spareHead B) (indexBlocks B))).Perm
      (numbers (spareHead B) (indexBlocks B + 63 * filledBlocks B)) := by
  obtain ⟨-, hfirst, -, -, hindex, -⟩ := h.sizes
  have hfilled := poolOf_filled h.enough h.lt hf.index (Nat.le_refl _)
  by_cases hfull : spareBlocks B % 64 = 0
  · rw [if_pos hfull, Nat.add_zero] at hindex
    rw [hindex, ← numbers_append, ← hindex, ← hfirst, hindex]
    exact hfilled
  · rw [if_neg hfull] at hindex
    have hlast : poolOf fs'.disk (numbers (spareHead B + filledBlocks B) 1) =
        numbers (spareHead B + filledBlocks B) 1 := by
      rw [numbers_one, poolOf_cons, h.block_last hf hfull, Block.slots_zero, poolOf_nil]
      rfl
    rw [← numbers_append, ← hfirst, hindex, ← numbers_append, poolOf_append, hlast]
    refine (hfilled.append_right _).trans ?_
    rw [List.append_assoc, List.append_assoc]
    exact List.perm_append_comm.append_left _

/-! ### What the functions of `fs.c` find -/

/-- A handle on the formatted disk, with a cache that is empty and clean. -/
structure Opened (B : ℕ) (fs fs' : Filesystem F) : Prop where
  formatted : Formatted B fs fs'
  noFaults : fs'.host.NoFaults
  mallocs : ∀ i, fs'.host.mallocs i = true
  empty : fs'.cachedBlock = 0
  clean : fs'.inodeCache.dirty = false

theorem inodeState (h : NewDisk B fs.disk) (hm : Opened B fs fs') : InodeState fs' := by
  have hsize := h.le_size
  obtain ⟨hhead, hfirst, hsum, -⟩ := h.sizes
  have hlayout := h.layout hm.formatted
  refine ⟨⟨hm.noFaults, ?_, ?_⟩, ⟨by rw [hlayout.inodes, hlayout.inodeTableBlocks], ?_⟩,
    ⟨Or.inl hm.empty, fun _ => hm.clean, fun h0 => absurd hm.empty h0⟩⟩
  · rw [hlayout.blocks, hm.formatted.size]
    exact hsize
  · rw [hm.formatted.size]
    exact h.addressable
  · rw [UInt64.lt_iff_toNat_lt, hlayout.blocks, hlayout.inodeTableBlocks]
    omega

/-- **An inode** is the one that was made for its number. -/
theorem logicalInode (h : NewDisk B fs.disk) (hm : Opened B fs fs')
    (hk : fs'.superblock.ValidInumber k) : FormattedInode k.toNat (fs'.logicalInode k) := by
  have hmiss : fs'.cachedBlock ≠ inodeBlock k := fun e =>
    inodeBlock_ne_zero hk.1 (e.symm.trans hm.empty)
  rw [Filesystem.logicalInode, Filesystem.tableBlock, if_neg hmiss]
  exact (hm.formatted.inode h.enough h.lt hk).2

theorem valid_one (h : NewDisk B fs.disk) (hm : Opened B fs fs') : fs'.superblock.ValidInumber 1 :=
  (h.valid_iff hm.formatted).mpr ⟨Nat.le_refl 1, by
    have hpos := tableBlocks_pos B
    show 1 ≤ 3 * tableBlocks B
    omega⟩

/-- **The root** is an empty directory. -/
theorem root (h : NewDisk B fs.disk) (hm : Opened B fs fs') :
    (fs'.logicalInode 1).mode &&& sIfdir ≠ 0 ∧ (fs'.logicalInode 1).size = 0 ∧
      ∀ i, (fs'.logicalInode 1).pointer i = 0 := by
  have hroot := h.logicalInode hm (h.valid_one hm)
  rw [FormattedInode, if_pos (show (1 : UInt64).toNat = 1 from rfl)] at hroot
  obtain ⟨-, hmode, -, hsize, hpointers⟩ := hroot
  refine ⟨?_, hsize, hpointers⟩
  rw [hmode]
  decide

/-- The image, with no file but the root directory. -/
theorem image (h : NewDisk B fs.disk) (hm : Opened B fs fs') :
    Image fs' (numbers (spareHead B) (indexBlocks B)) [1] [] := by
  have hlt := h.lt
  have hlayout := h.layout hm.formatted
  obtain ⟨hhead, hfirst, hsum, hfill, -⟩ := h.sizes
  have hstate := h.inodeState hm
  have hcensus : census fs' (numbers (spareHead B) (indexBlocks B)) [] [] =
      poolOf fs'.disk (numbers (spareHead B) (indexBlocks B)) := List.append_nil _
  have hpool := h.pool hm.formatted
  have himage : Image fs' (numbers (spareHead B) (indexBlocks B)) [] [] := by
    refine ⟨hstate, h.linked hm.formatted, List.nodup_nil, fun k hk => absurd hk List.not_mem_nil,
      ?_, fun b hb => ?_⟩
    · rw [hcensus, hpool.nodup_iff]
      exact numbers_nodup (by omega)
    · rw [hcensus, hpool.mem_iff, mem_numbers (by omega)] at hb
      rw [Superblock.inRange_iff, UInt64.le_iff_toNat_le, UInt64.lt_iff_toNat_lt, hlayout.blocks,
        toNat_succ hlayout.inodeTableBlocks (by omega)]
      omega
  refine himage.addFile List.not_mem_nil (h.valid_one hm) ?_
  exact Inode.owned_of_empty (h.root hm).2.2 _

/-- The free inodes of a new disk, and the number after the last one. -/
def freeList (B : ℕ) : FreeList :=
  ⟨numbers 2 (3 * tableBlocks B - 1), UInt64.ofNat (3 * tableBlocks B + 1)⟩

theorem mem_freeList (h : NewDisk B fs.disk) (hm : Opened B fs fs') :
    k ∈ (freeList B).inodes ↔ fs'.superblock.ValidInumber k ∧ k ≠ 1 := by
  have hpos := tableBlocks_pos B
  have hsmall := h.small
  have hk1 : k ≠ 1 ↔ k.toNat ≠ 1 := not_congr UInt64.toNat_inj.symm
  rw [h.valid_iff hm.formatted, hk1]
  show k ∈ numbers _ _ ↔ _
  rw [mem_numbers (by omega)]
  omega

/-- **The free inode list** goes through all inodes but the root, and ends outside the table. -/
theorem freeInodes (h : NewDisk B fs.disk) (hm : Opened B fs fs') :
    FreeInodesTo (freeList B).last fs' (freeList B).inodes := by
  have hpos := tableBlocks_pos B
  have hsmall := h.small
  have hsome : 3 * tableBlocks B - 1 ≠ 0 := by omega
  have hlast : 2 + (3 * tableBlocks B - 1) = 3 * tableBlocks B + 1 := by omega
  refine ⟨?_, fun k hk => ((h.mem_freeList hm).mp hk).1, fun k hk => ?_⟩
  · rw [(h.layout hm.formatted).freeInodeHead]
    refine Linked.range' hsome hlast (fun j _ hj heq => ?_) fun j hj hje => ?_
    · have hnat := congrArg UInt64.toNat heq
      rw [toNat_ofNat_of_lt' (by omega), freeList, toNat_ofNat_of_lt' (by omega)] at hnat
      omega
    · have hmem : UInt64.ofNat j ∈ (freeList B).inodes :=
        (mem_numbers (by omega)).mpr (by rw [toNat_ofNat_of_lt' (by omega)]; omega)
      obtain ⟨hvalid, hne⟩ := (h.mem_freeList hm).mp hmem
      have hnext : fs'.nextInode (UInt64.ofNat j) = UInt64.ofNat (j + 1) := by
        rw [Filesystem.nextInode, ((h.logicalInode hm hvalid).free hne).1]
        exact eq_ofNat_of_toNat (toNat_succ (toNat_ofNat_of_lt' (by omega)) (by omega))
      rw [hnext]
      split
      · rw [freeList, ‹j + 1 = _›]
      · rfl
  · exact (h.logicalInode hm ((h.mem_freeList hm).mp hk).1).inumber

/-- **The disk is sound.** -/
theorem soundDisk (h : NewDisk B fs.disk) (hm : Opened B fs fs') :
    SoundDisk fs' [1] (freeList B) where
  shelved := by
    have hsmall := h.small
    refine ⟨⟨_, h.image hm⟩, h.freeInodes hm, fun hvalid => ?_, fun k hk => ?_, ?_⟩
    · have hle := ((h.valid_iff hm.formatted).mp hvalid).2
      rw [freeList, toNat_ofNat_of_lt' (by omega)] at hle
      omega
    · rw [List.mem_singleton]
      exact ((h.mem_freeList hm).mp hk).2
    · rw [(h.layout hm.formatted).inodeTableBlocks]
      exact hsmall
  root := List.mem_singleton_self 1
  own k hk := (h.logicalInode hm hk).inumber
  alive k hk hlinks := by
    by_contra hne
    exact hlinks ((h.logicalInode hm hk).free fun e => hne (List.mem_singleton.mpr e)).2
  memory := hm.mallocs

end NewDisk

end Disk

/-! ## Formatting it -/

theorem offDisk_mallocs : OffDisk fun fs : Filesystem F => fs.host.mallocs where
  fault := fun _ _ _ hrun => by
    cases hrun
    rfl
  write _ _ := fun fs _ _ hrun => by
    rw [blockWrite_run] at hrun
    cases hrun
    rfl
  time := fun _ _ _ hrun => by
    rw [time_run] at hrun
    cases hrun
    rfl
  superblock _ := Run.keeps_modify fun _ => rfl

section Format

variable {fs fs' : Filesystem F} {B : ℕ}

theorem faultless_of_noFaults (h : fs.host.NoFaults) : fs.faultless = fs := by
  have hfaults : fs.host.faults = fun _ => .none := funext h
  rw [Filesystem.faultless, ← hfaults]

/-- `format_fs` does not make a host fail. -/
theorem noFaults_of_formatFs (h : fs.host.NoFaults) (hrun : formatFs.run fs = .done 0 fs') :
    fs'.host.NoFaults := by
  have hfollows := formatFs_follows fs 0 fs' hrun rfl
  rw [faultless_of_noFaults h, hrun] at hfollows
  rw [(Outcome.done.inj hfollows).2]
  exact fun _ => rfl

namespace NewDisk

/-- **`sfs_fs_open_disk`** formats it. -/
theorem opens (h : NewDisk B fs.disk) (hclean : fs.inodeCache.dirty = false)
    (hfaults : fs.host.NoFaults) (hmallocs : ∀ i, fs.host.mallocs i = true) (maybeFormat : Bool) :
    Run.Ensures (sfsFsOpenDisk maybeFormat) fs fun ok fs' =>
      ok = true ∧ Opened B fs.probed fs' := by
  have henough := h.enough
  have hsize := h.le_size
  obtain ⟨hfails, -⟩ | ⟨hsigned, -⟩ | ⟨-, hrun⟩ := sfsFsOpenDisk_cases fs h.addressable maybeFormat
  · have hsmall := hfails (hmallocs 0) (hfaults 0)
    omega
  · exact absurd hsigned h.unsigned
  have hnf : fs.probed.host.NoFaults := fun i => hfaults (i + 1)
  obtain ⟨fs', hformat, hformatted⟩ :=
    (formatFs_run fs.probed hnf h.addressable h.blocks henough).1 h.fits
  have hcache : fs'.inodeCache = { fs.inodeCache with blockNumber := 0 } :=
    offDisk_inodeCache.formatFs _ _ _ hformat
  have hmemory : fs'.host.mallocs = fs.probed.host.mallocs :=
    offDisk_mallocs.formatFs _ _ _ hformat
  refine Run.Ensures.of_eq (hrun.trans ?_) ⟨rfl, hformatted, noFaults_of_formatFs hnf hformat,
    fun i => ?_, ?_, ?_⟩
  · rw [Run.run_bind, hformat, Run.andThen_done]
    rfl
  · rw [hmemory]
    exact hmallocs (i + 1)
  · rw [Filesystem.cachedBlock, hcache]
    rfl
  · rw [hcache]
    exact hclean

end NewDisk

end Format

/-! ## The volume -/

section Volume

variable {fs : Filesystem DirFiles} {s : SfsState DirFiles} {B : ℕ}

namespace NewDisk

theorem sound (h : NewDisk B fs.disk) (hm : Opened B fs s.fs) (hidle : ¬ s.Locked)
    (hpool : s.fdPool = sfsFiledescriptorPoolInit) : Session.Sound ⟨s, [], []⟩ [1] (freeList B) :=
  (h.soundDisk hm).sound_of_empty hidle hpool (h.root hm).1 (h.root hm).2.1

/-- No inode is lost. -/
theorem accounted (h : NewDisk B fs.disk) (hm : Opened B fs s.fs) :
    Session.Accounted ⟨s, [], []⟩ (freeList B) where
  free _ hk hk1 _ := (h.mem_freeList hm).mpr ⟨hk, hk1⟩
  links k hk := by
    obtain ⟨hvalid, hk1⟩ := (h.mem_freeList hm).mp hk
    exact ((h.logicalInode hm hvalid).free hk1).2

end NewDisk

end Volume

section Sample

end Sample

end SimpleFileSystem
