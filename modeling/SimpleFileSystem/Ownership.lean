import SimpleFileSystem.InodeTable
import Mathlib.Data.List.Pairwise
import Mathlib.Data.List.Perm.Subperm

/-!
# Who holds which block

Every data block is in one place: it is free, or it is a block of one file --- one that
a pointer of its inode names, or an entry of its index block --- or it has just been
taken from the one and not yet given to the other.  `census` lists them all, and an
image is well formed (`Image`) when no block is listed twice.

The primitive steps of the code on an image then conserve the census: taking a block
from the pool, setting a pointer, setting an entry of an index block, freeing a block
each permute it.  What the census says is thereby an invariant of every composition of
such steps, and the one step that does not conserve it stands out: making a block with
arbitrary contents an index block adds its old words (`Image.adopt`).
-/

open ByteCodec

namespace SimpleFileSystem

variable {F : Type}

/-! ## Nonzero numbers -/

/-- The nonzero values of a table at some places. -/
def nonzero (f : ℕ → UInt64) (l : List ℕ) : List UInt64 :=
  (l.map f).filter (· ≠ 0)

section Nonzero

variable {f g : ℕ → UInt64} {l : List ℕ} {i : ℕ} {x : UInt64}

theorem mem_nonzero : x ∈ nonzero f l ↔ x ≠ 0 ∧ ∃ i ∈ l, f i = x := by
  rw [nonzero, List.mem_filter, List.mem_map, decide_eq_true_iff]
  exact and_comm

/-- Where the nonzero values are distinct, so are their places. -/
theorem eq_of_nonzero_nodup {j : ℕ} (h : (nonzero f l).Nodup) (hi : i ∈ l) (hj : j ∈ l)
    (hij : f i = f j) (h0 : f i ≠ 0) : i = j := by
  rw [nonzero, List.filter_map] at h
  refine List.inj_on_of_nodup_map h ?_ ?_ hij
  · exact List.mem_filter.mpr ⟨hi, decide_eq_true h0⟩
  · exact List.mem_filter.mpr ⟨hj, decide_eq_true (hij ▸ h0)⟩

/-- **A new value**: at a place that held zero. -/
theorem nonzero_fill (hl : l.Nodup) (hi : i ∈ l) (hf : f i = 0) (hx : x ≠ 0) (hg : g i = x)
    (hsame : ∀ j ∈ l, j ≠ i → g j = f j) : (nonzero g l).Perm (x :: nonzero f l) := by
  obtain ⟨p, q, rfl⟩ := List.append_of_mem hi
  have hnot := (List.nodup_cons.mp (List.nodup_middle.mp hl)).1
  rw [List.mem_append, not_or] at hnot
  have hp : p.map g = p.map f := List.map_congr_left fun j hj =>
    hsame j (List.mem_append_left _ hj) fun e => hnot.1 (e ▸ hj)
  have hq : q.map g = q.map f := List.map_congr_left fun j hj =>
    hsame j (List.mem_append_right _ (List.mem_cons_of_mem _ hj)) fun e => hnot.2 (e ▸ hj)
  simp only [nonzero, List.map_append, List.map_cons, List.filter_append, List.filter_cons, hp, hq,
    hg, hf]
  simp [hx]

end Nonzero

/-! ## The blocks of a file -/

/-- The entries of an index block. -/
def Disk.indexEntries (d : Disk) (p : UInt64) : List UInt64 :=
  if p = 0 then [] else nonzero (Block.word (d.block p.toNat)) (List.range 64)

/-- The direct pointers and the indirect one. -/
def Inode.pointers (v : Inode) : List UInt64 :=
  nonzero v.pointer (List.range 13)

/-- The blocks that hold the data of the file of an inode. -/
def Inode.leaves (v : Inode) (d : Disk) : List UInt64 :=
  nonzero v.pointer (List.range 12) ++ d.indexEntries (v.pointer 12)

/-- The blocks of the file of an inode. -/
def Inode.owned (v : Inode) (d : Disk) : List UInt64 :=
  v.pointers ++ d.indexEntries (v.pointer 12)

/-- The blocks of the file with an inode number. -/
def Filesystem.ownedBy (fs : Filesystem F) (k : UInt64) : List UInt64 :=
  (fs.logicalInode k).owned fs.disk

/-- All blocks that are held: the free ones, loose ones `X`, and those of the files
`A`. -/
def census (fs : Filesystem F) (nodes A X : List UInt64) : List UInt64 :=
  poolOf fs.disk nodes ++ (X ++ A.flatMap fs.ownedBy)

/-- **A well-formed image** with the index nodes `nodes` of the free chain, the
allocated inodes `A` and the blocks `X` that are neither free nor in a file: no data
block is held twice, and what is held are data blocks. -/
structure Image (fs : Filesystem F) (nodes A X : List UInt64) : Prop where
  state : InodeState fs
  linked : Linked 0 fs.disk.nextNode fs.superblock.freeBlocksHead nodes
  files : A.Nodup
  valid : ∀ k ∈ A, fs.superblock.ValidInumber k
  distinct : (census fs nodes A X).Nodup
  inRange : ∀ b ∈ census fs nodes A X, fs.superblock.inRange b = true

section Range

variable {s : Superblock} {b : UInt64}

theorem Superblock.inRange_iff :
    s.inRange b = true ↔ s.inodeTableBlocks + 1 ≤ b ∧ b < s.blocks := by
  rw [Superblock.inRange, Bool.and_eq_true, decide_eq_true_iff, decide_eq_true_iff]

theorem Superblock.inRange_congr {s' : Superblock}
    (htable : s'.inodeTableBlocks = s.inodeTableBlocks) (hblocks : s'.blocks = s.blocks) :
    s'.inRange = s.inRange := by
  funext b
  rw [Superblock.inRange, htable, hblocks, Superblock.inRange]

theorem Superblock.lt_of_inRange (h : s.inRange b = true) : b < s.blocks :=
  (Superblock.inRange_iff.mp h).2

/-- The number of a data block is past the inode table. -/
theorem toNat_lt_of_inRange (hs : s.inodeTableBlocks < s.blocks) (h : s.inRange b = true) :
    s.inodeTableBlocks.toNat < b.toNat := by
  have hle := UInt64.le_iff_toNat_le.mp (Superblock.inRange_iff.mp h).1
  have hlt := UInt64.lt_iff_toNat_lt.mp hs
  have hblocks := s.blocks.toNat_lt
  rw [UInt64.toNat_add, Nat.mod_eq_of_lt] at hle
  · exact hle
  · show s.inodeTableBlocks.toNat + 1 < 2 ^ 64
    omega

theorem Superblock.ne_zero_of_inRange (hs : s.inodeTableBlocks < s.blocks)
    (h : s.inRange b = true) : b ≠ 0 := by
  rintro rfl
  exact absurd (toNat_lt_of_inRange hs h) (Nat.not_lt_zero _)

theorem Superblock.notInTable_of_inRange (hs : s.inodeTableBlocks < s.blocks)
    (h : s.inRange b = true) : ¬ s.InTable b := fun hin =>
  absurd (UInt64.le_iff_toNat_le.mp hin.2) (Nat.not_le.mpr (toNat_lt_of_inRange hs h))

end Range

namespace Inode

variable {v : Inode} {d d' : Disk}

/-- The blocks of a file are its index block and its data blocks. -/
theorem owned_perm : (v.owned d).Perm (nonzero v.pointer [12] ++ v.leaves d) := by
  have hsplit : v.pointers = nonzero v.pointer (List.range 12) ++ nonzero v.pointer [12] := by
    rw [pointers, nonzero, List.range_succ, List.map_append, List.filter_append, ← nonzero,
      ← nonzero]
  rw [owned, hsplit, leaves, ← List.append_assoc]
  exact List.perm_append_comm.append_right _

theorem mem_owned_of_mem_leaves {x : UInt64} (hx : x ∈ v.leaves d) : x ∈ v.owned d :=
  owned_perm.mem_iff.mpr (List.mem_append_right _ hx)

theorem ne_zero_of_mem_leaves {x : UInt64} (hx : x ∈ v.leaves d) : x ≠ 0 := by
  rcases List.mem_append.mp hx with hx | hx
  · exact (mem_nonzero.mp hx).1
  · rw [Disk.indexEntries] at hx
    split at hx
    · exact absurd hx List.not_mem_nil
    · exact (mem_nonzero.mp hx).1

theorem pointer_mem_leaves {i : ℕ} (hi : i < 12) (h0 : v.pointer i ≠ 0) :
    v.pointer i ∈ v.leaves d :=
  List.mem_append_left _ (mem_nonzero.mpr ⟨h0, i, List.mem_range.mpr hi, rfl⟩)

theorem word_mem_leaves {i : ℕ} (hp : v.pointer 12 ≠ 0) (hi : i < 64)
    (h0 : Block.word (d.block (v.pointer 12).toNat) i ≠ 0) :
    Block.word (d.block (v.pointer 12).toNat) i ∈ v.leaves d := by
  refine List.mem_append_right _ ?_
  rw [Disk.indexEntries, if_neg hp]
  exact mem_nonzero.mpr ⟨h0, i, List.mem_range.mpr hi, rfl⟩

theorem pointer_mem_pointers {i : ℕ} (hi : i < 13) (h0 : v.pointer i ≠ 0) :
    v.pointer i ∈ v.pointers :=
  mem_nonzero.mpr ⟨h0, i, List.mem_range.mpr hi, rfl⟩

theorem pointer_mem_owned {i : ℕ} (hi : i < 13) (h0 : v.pointer i ≠ 0) : v.pointer i ∈ v.owned d :=
  List.mem_append_left _ (pointer_mem_pointers hi h0)

/-- The blocks of a file change only with its pointers and its index block. -/
theorem owned_congr {w : Inode} (hpointers : w.blockPointers = v.blockPointers)
    (hblock : v.pointer 12 ≠ 0 → d'.block (v.pointer 12).toNat = d.block (v.pointer 12).toNat) :
    w.owned d' = v.owned d := by
  have hp : w.pointer = v.pointer := by
    funext i
    rw [pointer, hpointers, pointer]
  rw [owned, owned, pointers, hp, ← pointers, Disk.indexEntries, Disk.indexEntries]
  by_cases h0 : v.pointer 12 = 0
  · rw [if_pos h0, if_pos h0]
  · rw [if_neg h0, if_neg h0, hblock h0]

/-- **A new direct pointer** adds its block to the file. -/
theorem owned_setPointer {i : ℕ} {n : UInt64} (hi : i < 12) (h0 : v.pointer i = 0) (hn : n ≠ 0) :
    ((v.setPointer i n).owned d).Perm (n :: v.owned d) := by
  have hfill : ((v.setPointer i n).pointers).Perm (n :: v.pointers) :=
    nonzero_fill List.nodup_range (List.mem_range.mpr (by omega)) h0 hn
      (pointer_setPointer v n (by omega)) fun j _ hj => pointer_setPointer_of_ne v n (Ne.symm hj)
  rw [owned, owned, pointer_setPointer_of_ne v n (by omega : i ≠ 12)]
  exact hfill.append_right _

/-- **A new index block** adds itself and its words to the file. -/
theorem owned_setIndex {n : UInt64} (h0 : v.pointer 12 = 0) (hn : n ≠ 0) :
    ((v.setPointer 12 n).owned d).Perm (n :: (d.indexEntries n ++ v.owned d)) := by
  have hnone : d.indexEntries (v.pointer 12) = [] := if_pos h0
  have hfill : ((v.setPointer 12 n).pointers).Perm (n :: v.pointers) :=
    nonzero_fill List.nodup_range (List.mem_range.mpr (by decide)) h0 hn
      (pointer_setPointer v n (by decide)) fun j _ hj => pointer_setPointer_of_ne v n (Ne.symm hj)
  rw [owned, owned, pointer_setPointer v n (by decide), hnone, List.append_nil]
  exact (hfill.append_right _).trans (List.perm_append_comm.cons n)

/-- **A new entry** adds its block to the file. -/
theorem indexEntries_setWord {p n : UInt64} {i : ℕ} (hp : p ≠ 0) (hi : i < 64)
    (h0 : Block.word (d.block p.toNat) i = 0) (hn : n ≠ 0)
    (hblock : d'.block p.toNat = Block.setWord (d.block p.toNat) i n) :
    (d'.indexEntries p).Perm (n :: d.indexEntries p) := by
  rw [Disk.indexEntries, if_neg hp, Disk.indexEntries, if_neg hp, hblock]
  exact nonzero_fill List.nodup_range (List.mem_range.mpr hi) h0 hn (Block.word_setWord _ _ hi)
    fun j _ hj => Block.word_setWord_of_ne _ _ (Ne.symm hj)

end Inode

/-! ## What an image says -/

namespace Image

variable {fs fs' : Filesystem F} {nodes A X : List UInt64}

theorem pool_sublist (fs : Filesystem F) (nodes A X : List UInt64) :
    (poolOf fs.disk nodes).Sublist (census fs nodes A X) :=
  List.sublist_append_left _ _

theorem mem_census {b : UInt64} : b ∈ census fs nodes A X ↔
    b ∈ poolOf fs.disk nodes ∨ b ∈ X ∨ ∃ k ∈ A, b ∈ fs.ownedBy k := by
  rw [census, List.mem_append, List.mem_append, List.mem_flatMap]

/-- The free chain of a well-formed image is well formed. -/
theorem chain (h : Image fs nodes A X) : FreeChain fs nodes where
  linked := h.linked
  nodup := h.distinct.sublist (pool_sublist fs nodes A X)
  inDisk b hb := Superblock.lt_of_inRange (h.inRange b (mem_census.mpr (Or.inl hb)))

theorem holds (h : Image fs nodes A X) {b : UInt64} (hb : fs.superblock.inRange b = true) :
    fs.disk.Holds b :=
  h.state.reliable.holds (Superblock.lt_of_inRange hb)

theorem ne_zero_of_inRange (h : Image fs nodes A X) {b : UInt64}
    (hb : fs.superblock.inRange b = true) : b ≠ 0 :=
  Superblock.ne_zero_of_inRange h.state.table.inDisk hb

/-- A data block is not a block of the inode table. -/
theorem notInTable (h : Image fs nodes A X) {b : UInt64} (hb : fs.superblock.inRange b = true) :
    ¬ fs.superblock.InTable b :=
  Superblock.notInTable_of_inRange h.state.table.inDisk hb

theorem node_mem {b : UInt64} (hn : b ∈ nodes) : b ∈ census fs nodes A X :=
  mem_census.mpr (Or.inl (mem_poolOf_of_mem hn))

theorem owned_mem {k b : UInt64} (hk : k ∈ A) (hb : b ∈ fs.ownedBy k) :
    b ∈ census fs nodes A X :=
  mem_census.mpr (Or.inr (Or.inr ⟨k, hk, hb⟩))

theorem loose_mem {b : UInt64} (hb : b ∈ X) : b ∈ census fs nodes A X :=
  mem_census.mpr (Or.inr (Or.inl hb))

/-- A block of a file is not free. -/
theorem owned_notMem_pool (h : Image fs nodes A X) {k b : UInt64} (hk : k ∈ A)
    (hb : b ∈ fs.ownedBy k) : b ∉ poolOf fs.disk nodes := by
  intro hp
  have hdisj := (List.nodup_append.mp h.distinct).2.2
  exact hdisj b hp b (List.mem_append_right _ (List.mem_flatMap.mpr ⟨k, hk, hb⟩)) rfl

theorem loose_notMem_owned (h : Image fs nodes A X) {k b : UInt64} (hk : k ∈ A) (hb : b ∈ X) :
    b ∉ fs.ownedBy k := by
  intro ho
  have hdisj := (List.nodup_append.mp (List.nodup_append.mp h.distinct).2.1).2.2
  exact hdisj b hb b (List.mem_flatMap.mpr ⟨k, hk, ho⟩) rfl

/-- Two files do not share a block. -/
theorem owned_disjoint (h : Image fs nodes A X) {j k b : UInt64} (hj : j ∈ A) (hk : k ∈ A)
    (hjk : j ≠ k) (hb : b ∈ fs.ownedBy j) : b ∉ fs.ownedBy k := by
  intro hb'
  have hfiles := (List.nodup_append.mp (List.nodup_append.mp h.distinct).2.1).2.1
  have hpair := (List.nodup_flatMap.mp hfiles).2
  have hsymm : Std.Symm (Function.onFun List.Disjoint fs.ownedBy) := ⟨fun _ _ h => h.symm⟩
  exact hpair.forall hj hk hjk hb hb'

theorem owned_nodup (h : Image fs nodes A X) {k : UInt64} (hk : k ∈ A) : (fs.ownedBy k).Nodup := by
  have hfiles := (List.nodup_append.mp (List.nodup_append.mp h.distinct).2.1).2.1
  exact (List.nodup_flatMap.mp hfiles).1 k hk

/-- A data block of a file is not an index block. -/
theorem leaf_ne_index (h : Image fs nodes A X) {j k b : UInt64} (hj : j ∈ A) (hk : k ∈ A)
    (hb : b ∈ (fs.logicalInode k).leaves fs.disk) : (fs.logicalInode j).pointer 12 ≠ b := by
  rintro rfl
  have h0 := Inode.ne_zero_of_mem_leaves hb
  by_cases hjk : j = k
  · subst hjk
    have hnodup := Inode.owned_perm.nodup_iff.mp (h.owned_nodup hk)
    refine (List.nodup_append.mp hnodup).2.2 _ ?_ _ hb rfl
    exact mem_nonzero.mpr ⟨h0, 12, List.mem_singleton_self 12, rfl⟩
  · exact h.owned_disjoint hj hk hjk (Inode.pointer_mem_owned (by decide) h0)
      (Inode.mem_owned_of_mem_leaves hb)

/-- The index block of a file, if it has one, is one of its blocks. -/
theorem index_mem {k : UInt64} (h0 : (fs.logicalInode k).pointer 12 ≠ 0) :
    (fs.logicalInode k).pointer 12 ∈ fs.ownedBy k :=
  Inode.pointer_mem_owned (by decide) h0

/-! ## Steps -/

/-- **Conservation**: a well-formed image stays one when its census is permuted. -/
theorem of_perm {nodes' A' X' : List UInt64} (h : Image fs nodes A X) (hstate : InodeState fs')
    (hlinked : Linked 0 fs'.disk.nextNode fs'.superblock.freeBlocksHead nodes')
    (hfiles : A'.Nodup) (hsub : ∀ k ∈ A', k ∈ A)
    (hinodes : fs'.superblock.inodes = fs.superblock.inodes)
    (hrange : fs'.superblock.inRange = fs.superblock.inRange)
    (hperm : (census fs' nodes' A' X').Perm (census fs nodes A X)) : Image fs' nodes' A' X' where
  state := hstate
  linked := hlinked
  files := hfiles
  valid k hk := by
    rw [Superblock.ValidInumber, hinodes]
    exact h.valid k (hsub k hk)
  distinct := hperm.nodup_iff.mpr h.distinct
  inRange b hb := by
    rw [hrange]
    exact h.inRange b (hperm.mem_iff.mp hb)

/-- The files and the loose blocks may be listed in another order. -/
theorem reorder {A' X' : List UInt64} (h : Image fs nodes A X) (hA : A'.Perm A) (hX : X'.Perm X) :
    Image fs nodes A' X' := by
  refine h.of_perm h.state h.linked (hA.nodup_iff.mpr h.files) (fun k hk => hA.mem_iff.mp hk) rfl
    rfl ?_
  exact (hX.append (hA.flatMap_right _)).append_left _

/-- **A file is given up**: its blocks become loose. -/
theorem release {k : UInt64} (h : Image fs nodes (k :: A) X) :
    Image fs nodes A (X ++ fs.ownedBy k) := by
  refine h.of_perm h.state h.linked (List.nodup_cons.mp h.files).2
    (fun j hj => List.mem_cons_of_mem k hj) rfl rfl ?_
  rw [census, census, List.flatMap_cons, List.append_assoc]

/-- Loose blocks may be forgotten. -/
theorem forget {X' : List UInt64} (h : Image fs nodes A X) (hX : X'.Sublist X) :
    Image fs nodes A X' := by
  have hsub : (census fs nodes A X').Sublist (census fs nodes A X) :=
    (hX.append_right _).append_left _
  exact ⟨h.state, h.linked, h.files, h.valid, h.distinct.sublist hsub,
    fun b hb => h.inRange b (hsub.subset hb)⟩

/-- **Blocks that nothing holds** may be picked up. -/
theorem adopt {W : List UInt64} (h : Image fs nodes A X) (hW : W.Nodup)
    (hrange : ∀ b ∈ W, fs.superblock.inRange b = true) (hout : ∀ b ∈ W, b ∉ census fs nodes A X) :
    Image fs nodes A (W ++ X) := by
  have hperm : (census fs nodes A (W ++ X)).Perm (W ++ census fs nodes A X) := by
    rw [census, census, List.append_assoc, ← List.append_assoc]
    refine (List.perm_append_comm.append_right _).trans ?_
    rw [List.append_assoc]
  refine ⟨h.state, h.linked, h.files, h.valid, ?_, fun b hb => ?_⟩
  · rw [hperm.nodup_iff, List.nodup_append]
    refine ⟨hW, h.distinct, fun a ha b hb e => hout a ha (e ▸ hb)⟩
  · rcases List.mem_append.mp (hperm.mem_iff.mp hb) with hb | hb
    · exact hrange b hb
    · exact h.inRange b hb

end Image

/-! ### Steps of the allocator and writes of data blocks -/

/-- A step of the allocator, or a write of a block, that keeps off the inode table. -/
structure DataStep (S : UInt64 → Prop) (fs fs' : Filesystem F) : Prop where
  frame : AllocatorFrame S fs fs'
  off : ∀ b, S b → ¬ fs.superblock.InTable b

namespace DataStep

variable {S : UInt64 → Prop} {fs fs' : Filesystem F}

theorem block (h : DataStep S fs fs') {m : UInt64} (hm : ¬ S m) :
    fs'.disk.block m.toNat = fs.disk.block m.toNat :=
  h.frame.block _ fun _ hb e => hm (UInt64.toNat_inj.mp e ▸ hb)

theorem inRange (h : DataStep S fs fs') : fs'.superblock.inRange = fs.superblock.inRange :=
  Superblock.inRange_congr h.frame.inodeTableBlocks h.frame.blocks

theorem inTable (h : DataStep S fs fs') {n : UInt64} :
    fs'.superblock.InTable n ↔ fs.superblock.InTable n := by
  rw [Superblock.InTable, h.frame.inodeTableBlocks, Superblock.InTable]

theorem cachedBlock (h : DataStep S fs fs') : fs'.cachedBlock = fs.cachedBlock := by
  rw [Filesystem.cachedBlock, h.frame.inodeCache, Filesystem.cachedBlock]

theorem inodeTable (h : DataStep S fs fs') (ht : fs.InodeTable) : fs'.InodeTable where
  inodes_le := by
    rw [h.frame.inodes, h.frame.inodeTableBlocks]
    exact ht.inodes_le
  inDisk := by
    rw [h.frame.inodeTableBlocks, h.frame.blocks]
    exact ht.inDisk

theorem inodeState (h : DataStep S fs fs') (hs : InodeState fs) : InodeState fs' where
  reliable := h.frame.reliable hs.reliable
  table := h.inodeTable hs.table
  cache := by
    refine ⟨?_, fun h0 => ?_, fun h0 hclean => ?_⟩
    · rw [h.cachedBlock, h.inTable]
      exact hs.cache.inTable
    · rw [h.frame.inodeCache]
      exact hs.cache.clean (h.cachedBlock ▸ h0)
    · rw [h.cachedBlock] at h0 ⊢
      rw [h.frame.inodeCache] at hclean ⊢
      have hin := hs.cache.inTable.resolve_left h0
      rw [h.block fun hS => h.off _ hS hin]
      exact hs.cache.agrees h0 hclean

/-- **The logical inodes stay what they are.** -/
theorem logicalInode (h : DataStep S fs fs') (ht : fs.InodeTable) {k : UInt64}
    (hk : fs.superblock.ValidInumber k) : fs'.logicalInode k = fs.logicalInode k := by
  have hin := ht.inTable hk
  have hblock : fs'.tableBlock (inodeBlock k) = fs.tableBlock (inodeBlock k) := by
    rw [Filesystem.tableBlock, h.cachedBlock, h.frame.inodeCache,
      h.block fun hS => h.off _ hS hin, Filesystem.tableBlock]
  rw [Filesystem.logicalInode, hblock, Filesystem.logicalInode]

/-- A file whose index block is not written keeps its blocks. -/
theorem ownedBy (h : DataStep S fs fs') (ht : fs.InodeTable) {k : UInt64}
    (hk : fs.superblock.ValidInumber k)
    (hindex : (fs.logicalInode k).pointer 12 ≠ 0 → ¬ S ((fs.logicalInode k).pointer 12)) :
    fs'.ownedBy k = fs.ownedBy k := by
  rw [Filesystem.ownedBy, h.logicalInode ht hk]
  exact Inode.owned_congr rfl fun h0 => h.block (hindex h0)

end DataStep

namespace Image

variable {fs fs' : Filesystem F} {nodes A X : List UInt64} {k n p : UInt64}

/-- An index block is not an index node of the free chain. -/
theorem index_notMem_nodes (h : Image fs nodes A X) (hk : k ∈ A)
    (h0 : (fs.logicalInode k).pointer 12 ≠ 0) : (fs.logicalInode k).pointer 12 ∉ nodes :=
  fun hn => h.owned_notMem_pool hk (index_mem h0) (mem_poolOf_of_mem hn)

theorem index_inRange (h : Image fs nodes A X) (hk : k ∈ A)
    (h0 : (fs.logicalInode k).pointer 12 ≠ 0) :
    fs.superblock.inRange ((fs.logicalInode k).pointer 12) = true :=
  h.inRange _ (owned_mem hk (index_mem h0))

theorem files_congr {S : UInt64 → Prop} (h : Image fs nodes A X) (hstep : DataStep S fs fs')
    (hindex : ∀ k ∈ A, (fs.logicalInode k).pointer 12 ≠ 0 →
      ¬ S ((fs.logicalInode k).pointer 12)) :
    A.flatMap fs'.ownedBy = A.flatMap fs.ownedBy :=
  List.flatMap_congr fun k hk => hstep.ownedBy h.state.table (h.valid k hk) (hindex k hk)

/-- A step of the allocator does not write the index blocks of files. -/
theorem files_of_allocator {S : UInt64 → Prop} (h : Image fs nodes A X)
    (hstep : DataStep (fun x => x = 0 ∨ x ∈ nodes ∧ S x) fs fs') :
    A.flatMap fs'.ownedBy = A.flatMap fs.ownedBy := by
  refine h.files_congr hstep fun k hk h0 hS => ?_
  rcases hS with hS | ⟨hS, -⟩
  · exact h0 hS
  · exact h.index_notMem_nodes hk h0 hS

/-- **Taking a block from the pool** makes it loose. -/
theorem allocate (h : Image fs nodes A X) :
    (fs.nextFree = none ∧ fs.afterAllocate = fs) ∨
      ∃ n nodes', fs.nextFree = some n ∧
        (poolOf fs.disk nodes).Perm (n :: poolOf fs.afterAllocate.disk nodes') ∧
        Image fs.afterAllocate nodes' A (n :: X) ∧
        DataStep (fun x => x = 0 ∨ x ∈ nodes ∧ x ≠ n) fs fs.afterAllocate := by
  rcases allocate_spec h.state.reliable h.chain with ⟨hnone, -, hsame⟩ | ⟨n, nodes', hsome, htakes⟩
  · exact Or.inl ⟨hnone, hsame⟩
  have hstep : DataStep (fun x => x = 0 ∨ x ∈ nodes ∧ x ≠ n) fs fs.afterAllocate := by
    refine ⟨htakes.frame, fun b hb hin => ?_⟩
    rcases hb with rfl | ⟨hb, -⟩
    · exact UInt64.lt_irrefl 0 hin.1
    · exact h.notInTable (h.inRange b (node_mem hb)) hin
  have hfiles := h.files_of_allocator hstep
  refine Or.inr ⟨n, nodes', hsome, htakes.perm, ?_, hstep⟩
  refine h.of_perm (hstep.inodeState h.state) htakes.chain.linked h.files (fun _ hk => hk)
    hstep.frame.inodes hstep.inRange ?_
  rw [census, hfiles, census]
  refine List.Perm.trans ?_ (htakes.perm.symm.append_right _)
  exact List.perm_middle

/-- Taking the block that the allocator has next. -/
theorem allocate_some (h : Image fs nodes A X) (hn : fs.nextFree = some n) :
    ∃ nodes', (poolOf fs.disk nodes).Perm (n :: poolOf fs.afterAllocate.disk nodes') ∧
      Image fs.afterAllocate nodes' A (n :: X) ∧
      DataStep (fun x => x = 0 ∨ x ∈ nodes ∧ x ≠ n) fs fs.afterAllocate := by
  rcases h.allocate with ⟨hnone, -⟩ | ⟨m, nodes', hsome, hspec⟩
  · exact absurd (hn.symm.trans hnone) (Option.some_ne_none n)
  · cases hn.symm.trans hsome
    exact ⟨nodes', hspec⟩

/-- Taking a block when there is none. -/
theorem allocate_none (h : Image fs nodes A X) (hn : fs.nextFree = none) :
    fs.afterAllocate = fs := by
  rcases h.allocate with ⟨-, hsame⟩ | ⟨m, nodes', hsome, -⟩
  · exact hsame
  · exact absurd (hsome.symm.trans hn) (Option.some_ne_none m)

theorem nextFree_mem (h : Image fs nodes A X) (hn : fs.nextFree = some n) :
    n ∈ poolOf fs.disk nodes := by
  obtain ⟨nodes', hperm, -⟩ := h.allocate_some hn
  exact hperm.mem_iff.mpr List.mem_cons_self

theorem nextFree_inRange (h : Image fs nodes A X) (hn : fs.nextFree = some n) :
    fs.superblock.inRange n = true :=
  h.inRange n (mem_census.mpr (Or.inl (h.nextFree_mem hn)))

/-- Taking a block leaves the blocks that are not free alone. -/
theorem block_afterAllocate {x : UInt64} (h : Image fs nodes A X)
    (hx : fs.superblock.inRange x = true) (hfree : x ∉ poolOf fs.disk nodes) :
    fs.afterAllocate.disk.block x.toNat = fs.disk.block x.toNat := by
  rcases h.allocate with ⟨-, hsame⟩ | ⟨m, nodes', -, -, -, hstep⟩
  · rw [hsame]
  · refine hstep.block fun hS => ?_
    rcases hS with hS | ⟨hS, -⟩
    · exact h.ne_zero_of_inRange hx hS
    · exact hfree (mem_poolOf_of_mem hS)

/-- **Writing a data block** that is neither an index node nor the index block of a file
conserves everything. -/
theorem writeData (h : Image fs nodes A X) (ht : fs.superblock.inRange n = true)
    (hnode : n ∉ nodes) (hindex : ∀ k ∈ A, (fs.logicalInode k).pointer 12 ≠ n) (b : Block) :
    Image (fs.writeBlock n b) nodes A X ∧ DataStep (· = n) fs (fs.writeBlock n b) := by
  have hholds := h.holds ht
  have hstep : DataStep (· = n) fs (fs.writeBlock n b) :=
    ⟨AllocatorFrame.of_writeBlock b hholds rfl, fun x hx => hx ▸ h.notInTable ht⟩
  have hsame : ∀ m ∈ nodes, (fs.writeBlock n b).disk.block m.toNat = fs.disk.block m.toNat :=
    fun m hm => hstep.block fun e => hnode (e ▸ hm)
  refine ⟨?_, hstep⟩
  refine h.of_perm (hstep.inodeState h.state) (h.linked.congr fun m hm => ?_) h.files
    (fun _ hk => hk) rfl rfl ?_
  · rw [Disk.nextNode, hsame m hm, Disk.nextNode]
  · rw [census, h.files_congr hstep fun k hk _ => hindex k hk, poolOf_congr hsame, census]

/-- An entry of the index block of the first file is set. -/
theorem writeIndex_head {i : ℕ} (h : Image fs nodes (k :: A) (n :: X))
    (hp : (fs.logicalInode k).pointer 12 = p) (hp0 : p ≠ 0) (hi : i < 64)
    (h0 : Block.word (fs.disk.block p.toNat) i = 0) :
    Image (fs.writeBlock p (Block.setWord (fs.disk.block p.toNat) i n)) nodes (k :: A) X ∧
      DataStep (· = p) fs (fs.writeBlock p (Block.setWord (fs.disk.block p.toNat) i n)) := by
  have hk : k ∈ k :: A := List.mem_cons_self
  have hpk : p ∈ fs.ownedBy k := hp ▸ index_mem (hp.symm ▸ hp0)
  have ht := h.inRange p (owned_mem hk hpk)
  have hn0 := h.ne_zero_of_inRange (h.inRange n (loose_mem List.mem_cons_self))
  have hnode : p ∉ nodes := fun hm => h.owned_notMem_pool hk hpk (mem_poolOf_of_mem hm)
  have hstep : DataStep (· = p) fs
      (fs.writeBlock p (Block.setWord (fs.disk.block p.toNat) i n)) :=
    ⟨AllocatorFrame.of_writeBlock _ (h.holds ht) rfl, fun x hx => hx ▸ h.notInTable ht⟩
  have hsame : ∀ m ∈ nodes, (fs.writeBlock p (Block.setWord (fs.disk.block p.toNat) i n)).disk.block
      m.toNat = fs.disk.block m.toNat := fun m hm => hstep.block fun e => hnode (e ▸ hm)
  have hother : A.flatMap
      (fs.writeBlock p (Block.setWord (fs.disk.block p.toNat) i n)).ownedBy =
        A.flatMap fs.ownedBy := by
    refine List.flatMap_congr fun j hj => ?_
    refine hstep.ownedBy h.state.table (h.valid j (List.mem_cons_of_mem _ hj)) fun hj0 e => ?_
    have hjk : j ≠ k := fun e => (List.nodup_cons.mp h.files).1 (e ▸ hj)
    have hje : p ∈ fs.ownedBy j := by
      rw [← e]
      exact index_mem hj0
    exact h.owned_disjoint (List.mem_cons_of_mem _ hj) hk hjk hje hpk
  have hself : ((fs.writeBlock p (Block.setWord (fs.disk.block p.toNat) i n)).ownedBy k).Perm
      (n :: fs.ownedBy k) := by
    rw [Filesystem.ownedBy, hstep.logicalInode h.state.table (h.valid k hk), Inode.owned,
      Filesystem.ownedBy, Inode.owned, hp]
    exact ((Inode.indexEntries_setWord hp0 hi h0 hn0
      (Filesystem.block_writeBlock _ _ _)).append_left _).trans List.perm_middle
  refine ⟨?_, hstep⟩
  refine h.of_perm (hstep.inodeState h.state) (h.linked.congr fun m hm => ?_) h.files
    (fun _ hk => hk) rfl rfl ?_
  · rw [Disk.nextNode, hsame m hm, Disk.nextNode]
  · rw [census, census, List.flatMap_cons, List.flatMap_cons, hother, poolOf_congr hsame]
    refine List.Perm.append_left _ ?_
    refine ((hself.append_right _).append_left X).trans ?_
    exact List.perm_middle

/-- **Setting an entry of an index block** gives a loose block to the file. -/
theorem writeIndex {i : ℕ} (h : Image fs nodes A (n :: X)) (hk : k ∈ A)
    (hp : (fs.logicalInode k).pointer 12 = p) (hp0 : p ≠ 0) (hi : i < 64)
    (h0 : Block.word (fs.disk.block p.toNat) i = 0) :
    Image (fs.writeBlock p (Block.setWord (fs.disk.block p.toNat) i n)) nodes A X ∧
      DataStep (· = p) fs (fs.writeBlock p (Block.setWord (fs.disk.block p.toNat) i n)) := by
  have hA := List.perm_cons_erase hk
  obtain ⟨himage, hstep⟩ := (h.reorder hA.symm (List.Perm.refl _)).writeIndex_head hp hp0 hi h0
  exact ⟨himage.reorder hA (List.Perm.refl _), hstep⟩

end Image

/-! ### Steps on the inode table -/

namespace Image

variable {fs fs' : Filesystem F} {nodes A X : List UInt64} {k : UInt64}

/-- A step on the inode table leaves the data blocks alone. -/
theorem block_of_tableFrame (h : Image fs nodes A X) (hframe : TableFrame fs fs') {b : UInt64}
    (hb : fs.superblock.inRange b = true) : fs'.disk.block b.toNat = fs.disk.block b.toNat :=
  hframe.block _ fun _ hn e => h.notInTable hb (UInt64.toNat_inj.mp e ▸ hn)

/-- **A step on the inode table** that conserves the blocks of the files. -/
theorem of_tableFrame {X' : List UInt64} (h : Image fs nodes A X) (hstate : InodeState fs')
    (hframe : TableFrame fs fs')
    (hfiles : (X' ++ A.flatMap fs'.ownedBy).Perm (X ++ A.flatMap fs.ownedBy)) :
    Image fs' nodes A X' := by
  have hsame : ∀ m ∈ nodes, fs'.disk.block m.toNat = fs.disk.block m.toNat := fun m hm =>
    h.block_of_tableFrame hframe (h.inRange m (node_mem hm))
  refine h.of_perm hstate ?_ h.files (fun _ hk => hk) ?_ ?_ ?_
  · rw [hframe.superblock]
    refine h.linked.congr fun m hm => ?_
    rw [Disk.nextNode, hsame m hm, Disk.nextNode]
  · rw [hframe.superblock]
  · rw [hframe.superblock]
  · rw [census, census, poolOf_congr hsame]
    exact hfiles.append_left _

/-- The blocks of a file whose inode is not written. -/
theorem ownedBy_of_tableFrame (h : Image fs nodes A X) (hframe : TableFrame fs fs') (hk : k ∈ A)
    (hsame : fs'.logicalInode k = fs.logicalInode k) : fs'.ownedBy k = fs.ownedBy k := by
  rw [Filesystem.ownedBy, hsame]
  exact Inode.owned_congr rfl fun h0 => h.block_of_tableFrame hframe (h.index_inRange hk h0)

/-- The inode of the first file is written. -/
theorem writeInode_head {X' : List UInt64} (h : Image fs nodes (k :: A) X) {v : Inode}
    (hv : v.inumber = k) (hint : (inodeBlock k).toNat < 2 ^ 31)
    (hperm : (X' ++ v.owned fs.disk).Perm (X ++ fs.ownedBy k))
    (hindex : v.pointer 12 ≠ 0 → fs.superblock.inRange (v.pointer 12) = true) :
    Run.Ensures (sfsFsWriteInode v) fs fun ret fs' => ret = 0 ∧ Image fs' nodes (k :: A) X' ∧
      TableFrame fs fs' ∧ fs'.logicalInode k = v ∧
      ∀ j, 0 < j → j ≠ k → fs'.logicalInode j = fs.logicalInode j := by
  subst hv
  have hvalid := h.valid _ List.mem_cons_self
  refine (sfsFsWriteInode_ensures h.state hvalid hint).mono ?_
  rintro ret fs' ⟨rfl, hstate, hframe, hset, hsame⟩
  refine ⟨rfl, h.of_tableFrame hstate hframe ?_, hframe, hset, hsame⟩
  have hother : A.flatMap fs'.ownedBy = A.flatMap fs.ownedBy := by
    refine List.flatMap_congr fun j hj => ?_
    have hj' := List.mem_cons_of_mem v.inumber hj
    have hne : j ≠ v.inumber := fun e => (List.nodup_cons.mp h.files).1 (e ▸ hj)
    exact h.ownedBy_of_tableFrame hframe hj' (hsame j (h.valid j hj').1 hne)
  have hself : fs'.ownedBy v.inumber = v.owned fs.disk := by
    rw [Filesystem.ownedBy, hset]
    exact Inode.owned_congr rfl fun h0 => h.block_of_tableFrame hframe (hindex h0)
  rw [List.flatMap_cons, List.flatMap_cons, hother, hself, ← List.append_assoc,
    ← List.append_assoc]
  exact hperm.append_right _

/-- **Writing the inode of a file** whose blocks are those that it had and loose ones. -/
theorem writeInode (h : Image fs nodes A X) (X' : List UInt64) {v : Inode} (hk : v.inumber ∈ A)
    (hint : (inodeBlock v.inumber).toNat < 2 ^ 31)
    (hperm : (X' ++ v.owned fs.disk).Perm (X ++ fs.ownedBy v.inumber))
    (hindex : v.pointer 12 ≠ 0 → fs.superblock.inRange (v.pointer 12) = true) :
    Run.Ensures (sfsFsWriteInode v) fs fun ret fs' => ret = 0 ∧ Image fs' nodes A X' ∧
      TableFrame fs fs' ∧ fs'.logicalInode v.inumber = v ∧
      ∀ j, 0 < j → j ≠ v.inumber → fs'.logicalInode j = fs.logicalInode j := by
  have hA := List.perm_cons_erase hk
  refine ((h.reorder hA.symm (List.Perm.refl _)).writeInode_head rfl hint hperm hindex).mono ?_
  rintro ret fs' ⟨hret, himage, hrest⟩
  exact ⟨hret, himage.reorder hA (List.Perm.refl _), hrest⟩

/-- Reading an inode conserves everything. -/
theorem readInode (h : Image fs nodes A X) (hvalid : fs.superblock.ValidInumber k)
    (hint : (inodeBlock k).toNat < 2 ^ 31) :
    Run.Ensures (sfsFsReadInode k) fs fun answer fs' => answer = some (fs.logicalInode k) ∧
      Image fs' nodes A X ∧ TableFrame fs fs' ∧
      ∀ j, 0 < j → fs'.logicalInode j = fs.logicalInode j := by
  refine (sfsFsReadInode_ensures h.state hvalid hint).mono ?_
  rintro answer fs' ⟨hanswer, hstate, hframe, hsame⟩
  refine ⟨hanswer, h.of_tableFrame hstate hframe ?_, hframe, hsame⟩
  rw [List.flatMap_congr fun j hj => h.ownedBy_of_tableFrame hframe hj
    (hsame j (h.valid j hj).1)]

/-- **Writing an inode of no file.** -/
theorem writeFreed (h : Image fs nodes A X) {v : Inode} (hv : v.inumber ∉ A)
    (hvalid : fs.superblock.ValidInumber v.inumber)
    (hint : (inodeBlock v.inumber).toNat < 2 ^ 31) :
    Run.Ensures (sfsFsWriteInode v) fs fun ret fs' => ret = 0 ∧ Image fs' nodes A X ∧
      TableFrame fs fs' ∧ fs'.logicalInode v.inumber = v ∧
      ∀ j, 0 < j → j ≠ v.inumber → fs'.logicalInode j = fs.logicalInode j := by
  refine (sfsFsWriteInode_ensures h.state hvalid hint).mono ?_
  rintro ret fs' ⟨rfl, hstate, hframe, hset, hsame⟩
  refine ⟨rfl, h.of_tableFrame hstate hframe ?_, hframe, hset, hsame⟩
  rw [List.flatMap_congr fun j hj => h.ownedBy_of_tableFrame hframe hj
    (hsame j (h.valid j hj).1 fun e => hv (e ▸ hj))]

end Image

/-! ### Steps on the superblock and the host -/

/-- The filesystem with another head of the free inode list, in memory and on the disk. -/
def Filesystem.withInodeHead (fs : Filesystem F) (x : UInt64) : Filesystem F :=
  Filesystem.synced { fs with superblock := { fs.superblock with freeInodeHead := x } }

theorem setInodeHead_run {fs : Filesystem F} (hr : fs.Reliable) (h0 : 0 < fs.superblock.blocks)
    (x : UInt64) {α : Type} (f : ℤ → Fs F α) :
    ((setFreeInodeHead x >>= fun _ => syncSuperblock >>= f) : Fs F α).run fs =
      (f 0).run (fs.withInodeHead x) := by
  have hr' : Filesystem.Reliable
      { fs with superblock := { fs.superblock with freeInodeHead := x } } :=
    ⟨hr.noFaults, hr.covers, hr.addressable⟩
  rw [Run.run_bind, setFreeInodeHead, Run.run_modify, Run.andThen_done, Run.run_bind,
    syncSuperblock_of_reliable hr' h0, Run.andThen_done]
  rfl

section WithInodeHead

variable {fs : Filesystem F}

theorem block_withInodeHead (x : UInt64) {m : ℕ} (hm : m ≠ 0) :
    (fs.withInodeHead x).disk.block m = fs.disk.block m :=
  Disk.block_setBlock_of_ne _ _ (Ne.symm hm) (Nat.zero_le _)

theorem size_withInodeHead (h : InodeState fs) (x : UInt64) :
    (fs.withInodeHead x).disk.size = fs.disk.size :=
  Disk.setBlock_size _ _ (h.reliable.holds (blocks_pos h.table.inDisk)).le_size

theorem inodeState_withInodeHead (h : InodeState fs) (x : UInt64) :
    InodeState (fs.withInodeHead x) := by
  refine ⟨⟨h.reliable.noFaults, ?_, ?_⟩, ⟨h.table.inodes_le, h.table.inDisk⟩,
    ⟨h.cache.inTable, h.cache.clean, fun h0 hclean => ?_⟩⟩
  · rw [size_withInodeHead h]
    exact h.reliable.covers
  · rw [size_withInodeHead h]
    exact h.reliable.addressable
  · rw [block_withInodeHead x fun e => h0 (UInt64.toNat_inj.mp e)]
    exact h.cache.agrees h0 hclean

/-- **Setting the head of the free inode list** changes no logical inode. -/
theorem logicalInode_withInodeHead (x : UInt64) {k : UInt64} (hk : 0 < k) :
    (fs.withInodeHead x).logicalInode k = fs.logicalInode k := by
  have hne : (inodeBlock k).toNat ≠ 0 := fun e => inodeBlock_ne_zero hk (UInt64.toNat_inj.mp e)
  rw [Filesystem.logicalInode, Filesystem.tableBlock, block_withInodeHead x hne]
  rfl

end WithInodeHead

namespace Image

variable {fs : Filesystem F} {nodes A X : List UInt64}

theorem blocks_pos' (h : Image fs nodes A X) : 0 < fs.superblock.blocks :=
  blocks_pos h.state.table.inDisk

theorem withInodeHead (h : Image fs nodes A X) (x : UInt64) :
    Image (fs.withInodeHead x) nodes A X := by
  have hdata : ∀ b : UInt64, fs.superblock.inRange b = true →
      (fs.withInodeHead x).disk.block b.toNat = fs.disk.block b.toNat := fun b hb =>
    block_withInodeHead x fun e => h.ne_zero_of_inRange hb (UInt64.toNat_inj.mp e)
  have hnodes : ∀ m ∈ nodes, (fs.withInodeHead x).disk.block m.toNat = fs.disk.block m.toNat :=
    fun m hm => hdata m (h.inRange m (node_mem hm))
  refine h.of_perm (inodeState_withInodeHead h.state x) (h.linked.congr fun m hm => ?_) h.files
    (fun _ hk => hk) rfl rfl ?_
  · rw [Disk.nextNode, hnodes m hm, Disk.nextNode]
  · have hfiles : A.flatMap (fs.withInodeHead x).ownedBy = A.flatMap fs.ownedBy := by
      refine List.flatMap_congr fun k hk => ?_
      rw [Filesystem.ownedBy, logicalInode_withInodeHead x (h.valid k hk).1]
      exact Inode.owned_congr rfl fun h0 => hdata _ (h.index_inRange hk h0)
    rw [census, census, hfiles, poolOf_congr hnodes]

/-- Of the host, only the system calls matter. -/
theorem of_host {host : Host} (h : Image fs nodes A X) (hfaults : host.faults = fs.host.faults) :
    Image { fs with host := host } nodes A X :=
  ⟨⟨⟨fun i => by rw [hfaults]; exact h.state.reliable.noFaults i, h.state.reliable.covers,
      h.state.reliable.addressable⟩,
    ⟨h.state.table.inodes_le, h.state.table.inDisk⟩,
    ⟨h.state.cache.inTable, h.state.cache.clean, h.state.cache.agrees⟩⟩,
    h.linked, h.files, h.valid, h.distinct, h.inRange⟩

/-- The clock does not matter. -/
theorem ticked (h : Image fs nodes A X) : Image fs.ticked nodes A X :=
  h.of_host rfl

/-- Nor does the memory. -/
theorem malloced (h : Image fs nodes A X) : Image fs.malloced nodes A X :=
  h.of_host rfl

end Image

/-! ### Freeing blocks -/

namespace Image

variable {fs fs' : Filesystem F} {nodes nodes' A X bs : List UInt64}

theorem notInTable_of_mem_pool (h : Image fs nodes A X) :
    ∀ b ∈ poolOf fs.disk nodes, ¬ fs.superblock.InTable b :=
  fun b hb => h.notInTable (h.inRange b (mem_census.mpr (Or.inl hb)))

/-- What freeing loose blocks writes is not in the inode table. -/
theorem notInTable_of_freed (h : Image fs nodes A (bs ++ X)) :
    ∀ b, (b = 0 ∨ b ∈ poolOf fs.disk nodes ∨ b ∈ bs) → ¬ fs.superblock.InTable b := by
  rintro b (rfl | hb | hb) hin
  · exact UInt64.lt_irrefl 0 hin.1
  · exact h.notInTable_of_mem_pool b hb hin
  · exact h.notInTable (h.inRange b (loose_mem (List.mem_append_left X hb))) hin

theorem dataStep_of_freed (h : Image fs nodes A (bs ++ X)) (hfreed : Freed fs nodes bs fs' nodes') :
    DataStep (fun x => x = 0 ∨ x ∈ poolOf fs.disk nodes ∨ x ∈ bs) fs fs' :=
  ⟨hfreed.frame, h.notInTable_of_freed⟩

/-- **Freeing loose blocks** puts them into the pool. -/
theorem of_freed (h : Image fs nodes A (bs ++ X)) (hfreed : Freed fs nodes bs fs' nodes') :
    Image fs' nodes' A X := by
  have hstep := h.dataStep_of_freed hfreed
  have hfiles := h.files_congr hstep fun k hk h0 hS => by
    rcases hS with hS | hS | hS
    · exact h0 hS
    · exact h.owned_notMem_pool hk (index_mem h0) hS
    · exact h.loose_notMem_owned hk (List.mem_append_left X hS) (index_mem h0)
  refine h.of_perm (hstep.inodeState h.state) hfreed.chain.linked h.files
    (fun _ hk => hk) hstep.frame.inodes hstep.inRange ?_
  rw [census, hfiles, census, List.append_assoc]
  refine (hfreed.perm.append_right _).trans ?_
  rw [List.append_assoc]
  exact List.perm_append_comm_assoc _ _ _

/-- Loose blocks may be freed. -/
theorem mayFree (h : Image fs nodes A (bs ++ X)) : MayFreeAll fs nodes bs where
  distinct := by
    refine h.distinct.sublist ?_ |>.perm List.perm_append_comm
    exact (List.Sublist.refl _).append
      ((List.sublist_append_left bs X).trans (List.sublist_append_left _ _))
  ne_zero b hb := h.ne_zero_of_inRange (h.inRange b (loose_mem (List.mem_append_left X hb)))
  inDisk b hb := Superblock.lt_of_inRange (h.inRange b (loose_mem (List.mem_append_left X hb)))

end Image

/-! ### Deallocation -/

/-- The filesystem after `sfs_fs_inode_deallocate` has put the inode in front of the free
inode list. -/
def Filesystem.withFreed (fs : Filesystem F) (v : Inode) : Filesystem F :=
  (fs.withInode { v with size := fs.superblock.freeInodeHead }).withInodeHead v.inumber

section Deallocate

variable {fs : Filesystem F} {nodes A X : List UInt64} {v : Inode}

theorem withFreed_superblock (h : InodeState fs) : (fs.withFreed v).superblock =
    { fs.superblock with freeInodeHead := v.inumber } := by
  show { (fs.withInode { v with size := fs.superblock.freeInodeHead }).superblock with
    freeInodeHead := v.inumber } = _
  rw [(withInode_frame h _).superblock]

theorem block_withFreed (h : Image fs nodes A X) {b : UInt64}
    (hb : fs.superblock.inRange b = true) :
    (fs.withFreed v).disk.block b.toNat = fs.disk.block b.toNat := by
  exact (block_withInodeHead _ fun e => h.ne_zero_of_inRange hb (UInt64.toNat_inj.mp e)).trans
    (h.block_of_tableFrame (withInode_frame h.state _) hb)

/-- The index nodes of the free chain are data blocks, so the chain is untouched. -/
theorem poolOf_withFreed (h : Image fs nodes A X) :
    poolOf (fs.withFreed v).disk nodes = poolOf fs.disk nodes :=
  poolOf_congr fun n hn => block_withFreed h (h.inRange n (Image.node_mem hn))

theorem freeChain_withFreed (h : Image fs nodes A X) : FreeChain (fs.withFreed v) nodes where
  linked := by
    rw [withFreed_superblock h.state]
    refine h.linked.congr fun n hn => ?_
    rw [Disk.nextNode, block_withFreed h (h.inRange n (Image.node_mem hn)), Disk.nextNode]
  nodup := by
    rw [poolOf_withFreed h]
    exact h.chain.nodup
  inDisk := by
    rw [poolOf_withFreed h, withFreed_superblock h.state]
    exact h.chain.inDisk

/-- **A deallocation**, whatever the size of the inode table: it puts the inode in front
of the free inode list and the blocks of its direct pointers into the pool. -/
theorem sfsFsInodeDeallocate_freed (h : Image fs nodes A (v.direct.filter (· ≠ 0) ++ X))
    (hvalid : fs.superblock.ValidInumber v.inumber) :
    Run.Ensures (sfsFsInodeDeallocate v) fs fun ret fs' => ret = 0 ∧
      ∃ nodes', Freed (fs.withFreed v) nodes (v.direct.filter (· ≠ 0)) fs' nodes' := by
  have hframe := withInode_frame h.state { v with size := fs.superblock.freeInodeHead }
  have hreliable := hframe.reliable h.state.reliable
  have hpos : 0 <
      (fs.withInode { v with size := fs.superblock.freeInodeHead }).superblock.blocks := by
    rw [hframe.superblock]
    exact h.blocks_pos'
  have hsize : (fs.withFreed v).disk.size =
      (fs.withInode { v with size := fs.superblock.freeInodeHead }).disk.size :=
    Disk.setBlock_size _ _ (hreliable.holds hpos).le_size
  have hreliable' : (fs.withFreed v).Reliable :=
    ⟨hreliable.noFaults, by rw [hsize]; exact hreliable.covers,
      by rw [hsize]; exact hreliable.addressable⟩
  have hmay : MayFreeAll (fs.withFreed v) nodes (v.direct.filter (· ≠ 0)) := by
    refine ⟨?_, h.mayFree.ne_zero, ?_⟩
    · rw [poolOf_withFreed h]
      exact h.mayFree.distinct
    · rw [withFreed_superblock h.state]
      exact h.mayFree.inDisk
  rw [sfsFsInodeDeallocate]
  refine Run.Ensures.bind (P := fun s t => fs = s ∧ fs = t) ⟨fs, fs, rfl, rfl, rfl⟩ ?_
  rintro _ _ ⟨rfl, rfl⟩
  refine Run.Ensures.bind (P := fun ret t => ret = 0 ∧
    t = fs.withInode { v with size := fs.superblock.freeInodeHead })
    (Run.Ensures.of_eq (sfsFsWriteInode_run h.state hvalid) ⟨rfl, rfl⟩) ?_
  rintro _ _ ⟨rfl, rfl⟩
  obtain ⟨ret, fs', hrun, hpost⟩ := freePointers_spec hreliable' (freeChain_withFreed h) hmay
  refine ⟨ret, fs', ?_, hpost⟩
  rw [if_neg (by simp), setInodeHead_run hreliable hpos, if_neg (by simp)]
  exact hrun

theorem inodeTable_withFreed (h : InodeState fs) : (fs.withFreed v).InodeTable := by
  have ht := (withInode_frame h { v with size := fs.superblock.freeInodeHead }).inodeTable h.table
  exact ⟨ht.inodes_le, ht.inDisk⟩

/-- Freeing the blocks keeps off the inode table. -/
theorem dataStep_withFreed {fs' : Filesystem F} {nodes' bs : List UInt64}
    (h : Image fs nodes A (bs ++ X)) (hfreed : Freed (fs.withFreed v) nodes bs fs' nodes') :
    DataStep (fun x => x = 0 ∨ x ∈ poolOf fs.disk nodes ∨ x ∈ bs) (fs.withFreed v) fs' := by
  have hframe := hfreed.frame
  rw [poolOf_withFreed h] at hframe
  refine ⟨hframe, fun b hb hin => h.notInTable_of_freed b hb ?_⟩
  rw [withFreed_superblock h.state] at hin
  exact hin

end Deallocate

/-- What `sfs_fs_inode_deallocate` does: the inode becomes the head of the free inode
list, and the blocks that its direct pointers name join the pool. -/
structure Deallocated (fs : Filesystem F) (nodes : List UInt64) (v : Inode) (fs' : Filesystem F)
    (nodes' : List UInt64) : Prop where
  pool : (poolOf fs'.disk nodes').Perm (v.direct.filter (· ≠ 0) ++ poolOf fs.disk nodes)
  superblock : fs'.superblock = { fs.superblock with
    freeBlocksHead := fs'.superblock.freeBlocksHead, freeInodeHead := v.inumber }
  host : fs'.host = fs.host
  files : fs'.files = fs.files
  inode : fs'.logicalInode v.inumber = { v with size := fs.superblock.freeInodeHead }
  others : ∀ j, fs.superblock.ValidInumber j → j ≠ v.inumber →
    fs'.logicalInode j = fs.logicalInode j
  block : ∀ b, fs.superblock.inRange b = true → b ∉ poolOf fs.disk nodes → b ∉ v.direct →
    fs'.disk.block b.toNat = fs.disk.block b.toNat
  synced : fs'.Synced

/-- **A deallocation** of an inode of no file, whose blocks are loose. -/
theorem deallocate_loose {fs : Filesystem F} {nodes A Y : List UInt64} {v : Inode}
    (h : Image fs nodes A (v.direct.filter (· ≠ 0) ++ Y)) (hv : v.inumber ∉ A)
    (hvalid : fs.superblock.ValidInumber v.inumber)
    (hint : (inodeBlock v.inumber).toNat < 2 ^ 31) :
    Run.Ensures (sfsFsInodeDeallocate v) fs fun ret fs' =>
      ret = 0 ∧ ∃ nodes', Image fs' nodes' A Y ∧ Deallocated fs nodes v fs' nodes' := by
  -- the image after the write of the inode and of the superblock
  have hwrite := (h.writeFreed (v := { v with size := fs.superblock.freeInodeHead }) hv hvalid
    hint).post (sfsFsWriteInode_run h.state hvalid)
  obtain ⟨-, himage, hframe, hset, hsame⟩ := hwrite
  have hhead : Image (fs.withFreed v) nodes A (v.direct.filter (· ≠ 0) ++ Y) :=
    himage.withInodeHead v.inumber
  have hinode : ∀ j, 0 < j → (fs.withFreed v).logicalInode j =
      (fs.withInode { v with size := fs.superblock.freeInodeHead }).logicalInode j := fun j hj =>
    logicalInode_withInodeHead _ hj
  refine (sfsFsInodeDeallocate_freed h hvalid).mono ?_
  rintro ret fs' ⟨hret, nodes', hfreed⟩
  have hstep := hhead.dataStep_of_freed hfreed
  have hkeep : ∀ j, fs.superblock.ValidInumber j →
      fs'.logicalInode j = (fs.withFreed v).logicalInode j := fun j hj => by
    refine hstep.logicalInode hhead.state.table ?_
    rw [withFreed_superblock h.state]
    exact hj
  refine ⟨hret, nodes', hhead.of_freed hfreed, ?_, ?_, ?_, ?_, ?_, fun j hj hne => ?_,
    fun b hb hpool hdirect => ?_, ?_⟩
  · rw [← poolOf_withFreed h]
    exact hfreed.perm
  · rw [hstep.frame.superblock, withFreed_superblock h.state]
  · exact hstep.frame.host.trans hframe.host
  · exact hstep.frame.files.trans hframe.files
  · rw [hkeep _ hvalid, hinode _ hvalid.1]
    exact hset
  · rw [hkeep j hj, hinode j hj.1, hsame j hj.1 hne]
  · refine (hstep.block ?_).trans (block_withFreed h hb)
    rintro (hS | hS | hS)
    · exact h.ne_zero_of_inRange hb hS
    · exact hpool (poolOf_withFreed h ▸ hS)
    · exact hdirect (List.mem_of_mem_filter hS)
  · exact hfreed.synced (Filesystem.Synced.of_synced _)

/-- A disk without files, with one node of the free chain that lists nothing. -/
theorem image_oneNode {fs : Filesystem F} {n : UInt64} (hstate : InodeState fs)
    (hhead : fs.superblock.freeBlocksHead = n) (hrange : fs.superblock.inRange n = true)
    (hblock : fs.disk.block n.toNat = Block.zero) : Image fs [n] [] [] := by
  have hcensus : census fs [n] [] [] = [n] := by
    rw [census, poolOf_cons, hblock, Block.slots_zero, poolOf_nil]
    rfl
  refine ⟨hstate, ?_, List.nodup_nil, fun k hk => absurd hk List.not_mem_nil, ?_, fun b hb => ?_⟩
  · rw [hhead]
    refine ⟨rfl, Superblock.ne_zero_of_inRange hstate.table.inDisk hrange, ?_⟩
    show Disk.nextNode _ n = 0
    rw [Disk.nextNode, hblock, Block.word_zero]
  · rw [hcensus]
    exact List.nodup_singleton n
  · rw [hcensus] at hb
    rw [List.mem_singleton.mp hb]
    exact hrange

/-- A disk of eight blocks, zero but for its superblock, with one free block. -/
theorem image_blank {s : Superblock} {files : F} (hblocks : s.blocks = 8)
    (htable : s.inodeTableBlocks = 1) (hinodes : s.inodes = 3) (hhead : s.freeBlocksHead = 3) :
    Image (Filesystem.blank s files) [3] [] [] := by
  have hsuper : (Filesystem.blank s files).superblock = s := rfl
  have hstate : InodeState (Filesystem.blank s files) := by
    refine ⟨reliable_blank ?_ ?_, ⟨?_, ?_⟩, ⟨Or.inl rfl, fun _ => rfl, fun h => absurd rfl h⟩⟩
    · rw [hblocks]
      decide
    · rw [hblocks]
      decide
    · rw [hsuper, hinodes, htable]
      decide
    · rw [hsuper, hblocks, htable]
      decide
  refine image_oneNode hstate hhead ?_ (block_blank (by decide))
  rw [hsuper, Superblock.inRange, hblocks, htable]
  decide

theorem image_oneFreeBlock : Image (Filesystem.blank oneFreeBlock ()) [3] [] [] :=
  image_blank rfl rfl rfl rfl

end SimpleFileSystem
