import SimpleFileSystem.Fs
import SimpleFileSystem.Library.LinkedList

/-!
# The free block chain

A free block is named in one of two ways: it is a slot of an index node, or it is an
index node itself.  `FreeChain fs nodes` says that the nodes from
`superblock.free_blocks_head` on are `nodes`, that the list ends, and that no block is
named twice; `poolOf` lists what is named.  Both functions on the list then have one
specification each, in terms of the pool alone:

* `allocate_spec`: `sfs_fs_allocate_block` fails on the empty pool and otherwise takes
  one block out of it, and
* `free_spec`: `sfs_fs_free_block` puts its block in, after finitely many steps.

That the pool changes by exactly one block is said by a permutation, so it is at once
a statement about the set and about the absence of repetitions.
-/

open ByteCodec

namespace SimpleFileSystem

variable {F : Type}

/-! ## Slots of an index node -/

/-- The block numbers in the slots `1 .. 63` of an index node. -/
def Block.slots (b : Block) : List UInt64 :=
  ((List.range' 1 63).map b.word).filter (· ≠ 0)

theorem Block.ne_zero_of_mem_slots {b : Block} {x : UInt64} (h : x ∈ b.slots) : x ≠ 0 := by
  simpa using (List.mem_filter.mp h).2

/-- The slots before and after the one that a search finds. -/
theorem findSlot_split {p : UInt64 → Bool} {b : Block} {i : ℕ} (h : findSlot p b = some i) :
    p (b.word i) = true ∧ 0 < i ∧ i < 64 ∧
      ∃ as bs, List.range' 1 63 = as ++ i :: bs ∧ (∀ j ∈ as, p (b.word j) = false) ∧
        i ∉ as ∧ i ∉ bs := by
  rw [findSlot, List.find?_eq_some_iff_append] at h
  obtain ⟨hp, as, bs, hsplit, has⟩ := h
  have hmem : i ∈ List.range' 1 63 := by
    rw [hsplit]
    exact List.mem_append_right _ List.mem_cons_self
  have hnodup : (as ++ i :: bs).Nodup := hsplit ▸ List.nodup_range'
  rw [List.nodup_middle, List.nodup_cons, List.mem_append, not_or] at hnodup
  rw [List.mem_range'_1] at hmem
  refine ⟨hp, by omega, by omega, as, bs, hsplit, fun j hj => by simpa using has j hj, ?_⟩
  exact hnodup.1

theorem findSlot_eq_none {p : UInt64 → Bool} {b : Block} (h : findSlot p b = none) {i : ℕ}
    (hi : i ∈ List.range' 1 63) : p (b.word i) = false := by
  have hall := List.find?_eq_none.mp h i hi
  simpa using hall

/-- Writing a word at a place does not change the words of a list of other places. -/
theorem map_word_setWord (b : Block) {i : ℕ} (x : UInt64) {l : List ℕ} (h : i ∉ l) :
    l.map (b.setWord i x).word = l.map b.word := by
  refine List.map_congr_left fun j hj => Block.word_setWord_of_ne b x ?_
  rintro rfl
  exact h hj

/-- The next pointer of a node is not one of its slots. -/
theorem Block.slots_setWord_zero (b : Block) (x : UInt64) :
    (b.setWord 0 x).slots = b.slots := by
  rw [Block.slots, map_word_setWord b x (by simp), Block.slots]

/-- **Taking a slot**: the first nonzero slot is zeroed. -/
theorem Block.slots_of_findSlot {b : Block} {i : ℕ} (h : findSlot (· ≠ 0) b = some i) :
    b.slots = b.word i :: (b.setWord i 0).slots := by
  obtain ⟨hp, -, hlt, as, bs, hsplit, has, hnas, hnbs⟩ := findSlot_split h
  have hzero : (as.map b.word).filter (· ≠ 0) = [] := by
    rw [List.filter_eq_nil_iff]
    intro x hx
    obtain ⟨j, hj, rfl⟩ := List.mem_map.mp hx
    simpa using has j hj
  have hi : decide (b.word i ≠ 0) = true := hp
  rw [Block.slots, Block.slots, hsplit]
  simp only [List.map_append, List.map_cons, List.filter_append, List.filter_cons,
    map_word_setWord b 0 hnas, map_word_setWord b 0 hnbs, Block.word_setWord b 0 hlt, hzero, hi]
  simp

theorem Block.slots_eq_nil {b : Block} (h : findSlot (· ≠ 0) b = none) : b.slots = [] := by
  rw [Block.slots, List.filter_eq_nil_iff]
  intro x hx
  obtain ⟨i, hi, rfl⟩ := List.mem_map.mp hx
  simpa using findSlot_eq_none h hi

theorem Block.findSlot_of_slots_eq_nil {b : Block} (h : b.slots = []) :
    findSlot (· ≠ 0) b = none := by
  rw [Block.slots, List.filter_eq_nil_iff] at h
  refine List.find?_eq_none.mpr fun i hi => ?_
  exact h _ (List.mem_map_of_mem hi)

/-- **Filling a slot**: the first zero slot is given a block number. -/
theorem Block.slots_setWord_of_findSlot {b : Block} {i : ℕ} (h : findSlot (· = 0) b = some i)
    {x : UInt64} (hx : x ≠ 0) : (b.setWord i x).slots.Perm (x :: b.slots) := by
  obtain ⟨hp, -, hlt, as, bs, hsplit, -, hnas, hnbs⟩ := findSlot_split h
  have hi : b.word i = 0 := by simpa using hp
  rw [Block.slots, Block.slots, hsplit]
  simp only [List.map_append, List.map_cons, List.filter_append, List.filter_cons,
    map_word_setWord b x hnas, map_word_setWord b x hnbs, Block.word_setWord b x hlt, hi]
  simp [hx]

@[simp] theorem Block.slots_zero : Block.zero.slots = [] := by
  rw [Block.slots, List.filter_eq_nil_iff]
  intro x hx
  obtain ⟨i, -, rfl⟩ := List.mem_map.mp hx
  simp

/-! ## The chain and the pool -/

/-- The node that a node points to. -/
def Disk.nextNode (d : Disk) (n : UInt64) : UInt64 :=
  Block.word (d.block n.toNat) 0

/-- The blocks named by a list of index nodes: the nodes and their slots. -/
def poolOf (d : Disk) (nodes : List UInt64) : List UInt64 :=
  nodes.flatMap fun n => n :: Block.slots (d.block n.toNat)

@[simp] theorem poolOf_nil (d : Disk) : poolOf d [] = [] := rfl

theorem poolOf_cons (d : Disk) (n : UInt64) (nodes : List UInt64) :
    poolOf d (n :: nodes) = n :: (Block.slots (d.block n.toNat) ++ poolOf d nodes) := rfl

theorem poolOf_append (d : Disk) (l l' : List UInt64) :
    poolOf d (l ++ l') = poolOf d l ++ poolOf d l' :=
  List.flatMap_append

theorem poolOf_congr {d d' : Disk} {nodes : List UInt64}
    (h : ∀ n ∈ nodes, d'.block n.toNat = d.block n.toNat) : poolOf d' nodes = poolOf d nodes :=
  List.flatMap_congr fun n hn => by rw [h n hn]

theorem mem_poolOf_of_mem {d : Disk} {nodes : List UInt64} {n : UInt64} (h : n ∈ nodes) :
    n ∈ poolOf d nodes :=
  List.mem_flatMap.mpr ⟨n, h, List.mem_cons_self⟩

/-- **A well-formed free block chain**, with its index nodes.  That the chain is acyclic
and zero-terminated is what `Linked` says. -/
structure FreeChain (fs : Filesystem F) (nodes : List UInt64) : Prop where
  linked : Linked 0 fs.disk.nextNode fs.superblock.freeBlocksHead nodes
  nodup : (poolOf fs.disk nodes).Nodup
  inDisk : ∀ b ∈ poolOf fs.disk nodes, b < fs.superblock.blocks

/-- I/O does not fail: the host refuses no call, and the disk file has the blocks that
the superblock says it has. -/
structure Filesystem.Reliable (fs : Filesystem F) : Prop where
  noFaults : fs.host.NoFaults
  covers : 512 * fs.superblock.blocks.toNat ≤ fs.disk.size
  addressable : fs.disk.size < 2 ^ 63

theorem Filesystem.Reliable.holds {fs : Filesystem F} (h : fs.Reliable) {b : UInt64}
    (hb : b < fs.superblock.blocks) : fs.disk.Holds b := by
  refine ⟨?_, h.addressable⟩
  have h1 := h.covers
  have h2 := UInt64.lt_iff_toNat_lt.mp hb
  omega

/-- The superblock on the disk is the one in memory. -/
def Filesystem.Synced (fs : Filesystem F) : Prop :=
  (fs.disk.block 0).superblock = fs.superblock

namespace FreeChain

variable {fs : Filesystem F} {nodes : List UInt64}

theorem ne_zero (h : FreeChain fs nodes) {b : UInt64} (hb : b ∈ poolOf fs.disk nodes) :
    b ≠ 0 := by
  obtain ⟨n, hn, hb⟩ := List.mem_flatMap.mp hb
  rcases List.mem_cons.mp hb with rfl | hb
  · exact h.linked.ne_nil_of_mem hn
  · exact Block.ne_zero_of_mem_slots hb

/-- The nodes are determined by the disk and the head. -/
theorem nodes_unique (h : FreeChain fs nodes) {nodes' : List UInt64} (h' : FreeChain fs nodes') :
    nodes = nodes' :=
  h.linked.unique h'.linked

theorem node_lt (h : FreeChain fs nodes) {n : UInt64} (hn : n ∈ nodes) :
    n < fs.superblock.blocks :=
  h.inDisk n (mem_poolOf_of_mem hn)

/-- A slot of a node is not a node. -/
theorem notMem_of_mem_slots (h : FreeChain fs nodes) {n b : UInt64} (hn : n ∈ nodes)
    (hb : b ∈ Block.slots (fs.disk.block n.toNat)) : b ∉ nodes := by
  intro hbn
  obtain ⟨p, q, rfl⟩ := List.append_of_mem hn
  have hnodup := h.nodup
  rw [poolOf_append, poolOf_cons] at hnodup
  rw [List.nodup_append] at hnodup
  obtain ⟨-, hright, hdisj⟩ := hnodup
  rw [List.nodup_cons, List.nodup_append] at hright
  rcases List.mem_append.mp hbn with hbp | hbq
  · exact hdisj b (mem_poolOf_of_mem hbp) b
      (List.mem_cons_of_mem _ (List.mem_append_left _ hb)) rfl
  · rcases List.mem_cons.mp hbq with rfl | hbq
    · exact hright.1 (List.mem_append_left _ hb)
    · exact hright.2.2.2 b hb b (mem_poolOf_of_mem hbq) rfl

/-- The chain has fewer nodes than there are block numbers. -/
theorem length_lt (h : FreeChain fs nodes) : nodes.length < loopBound := by
  have hnodup : ((0 :: nodes).map UInt64.toNat).Nodup := by
    refine List.Nodup.map (fun a b hab => UInt64.toNat_inj.mp hab) ?_
    refine List.nodup_cons.mpr ⟨fun h0 => ?_, h.linked.nodup⟩
    exact h.linked.ne_nil_of_mem h0 rfl
  have hlen := hnodup.length_le_of_lt (n := loopBound) fun x hx => by
    obtain ⟨n, -, rfl⟩ := List.mem_map.mp hx
    exact n.toNat_lt
  rw [List.length_map, List.length_cons] at hlen
  omega

end FreeChain

/-! ## What the allocator leaves alone -/

/-- Between two states only the head of the free list and the disk blocks in `S`
changed. -/
structure AllocatorFrame (S : UInt64 → Prop) (fs fs' : Filesystem F) : Prop where
  superblock : fs'.superblock =
    { fs.superblock with freeBlocksHead := fs'.superblock.freeBlocksHead }
  inodeCache : fs'.inodeCache = fs.inodeCache
  host : fs'.host = fs.host
  files : fs'.files = fs.files
  size : fs'.disk.size = fs.disk.size
  block : ∀ m : ℕ, (∀ b, S b → b.toNat ≠ m) → fs'.disk.block m = fs.disk.block m

namespace AllocatorFrame

variable {S T : UInt64 → Prop} {fs fs' fs'' : Filesystem F}

theorem refl (fs : Filesystem F) : AllocatorFrame S fs fs :=
  ⟨rfl, rfl, rfl, rfl, rfl, fun _ _ => rfl⟩

theorem mono (h : AllocatorFrame S fs fs') (hST : ∀ b, S b → T b) : AllocatorFrame T fs fs' :=
  { h with block := fun m hm => h.block m fun b hb => hm b (hST b hb) }

theorem trans (h : AllocatorFrame S fs fs') (h' : AllocatorFrame S fs' fs'') :
    AllocatorFrame S fs fs'' where
  superblock := by rw [h'.superblock, h.superblock]
  inodeCache := h'.inodeCache.trans h.inodeCache
  host := h'.host.trans h.host
  files := h'.files.trans h.files
  size := h'.size.trans h.size
  block m hm := (h'.block m hm).trans (h.block m hm)

theorem blocks (h : AllocatorFrame S fs fs') : fs'.superblock.blocks = fs.superblock.blocks := by
  rw [h.superblock]

theorem inodeTableBlocks (h : AllocatorFrame S fs fs') :
    fs'.superblock.inodeTableBlocks = fs.superblock.inodeTableBlocks := by
  rw [h.superblock]

theorem inodes (h : AllocatorFrame S fs fs') : fs'.superblock.inodes = fs.superblock.inodes := by
  rw [h.superblock]

theorem freeInodeHead (h : AllocatorFrame S fs fs') :
    fs'.superblock.freeInodeHead = fs.superblock.freeInodeHead := by
  rw [h.superblock]

theorem reliable (h : AllocatorFrame S fs fs') (hr : fs.Reliable) : fs'.Reliable where
  noFaults := by rw [h.host]; exact hr.noFaults
  covers := by rw [h.blocks, h.size]; exact hr.covers
  addressable := by rw [h.size]; exact hr.addressable

/-- A write of one block. -/
theorem of_writeBlock {n : UInt64} (b : Block) (hn : fs.disk.Holds n) (hS : S n) :
    AllocatorFrame S fs (fs.writeBlock n b) where
  superblock := rfl
  inodeCache := rfl
  host := rfl
  files := rfl
  size := fs.size_writeBlock b hn
  block _ hm := Filesystem.block_writeBlock_of_ne b hn (hm n hS)

end AllocatorFrame

/-! ## The superblock -/

/-- The filesystem after its superblock has been written to block 0. -/
def Filesystem.synced (fs : Filesystem F) : Filesystem F :=
  fs.writeBlock 0 (Block.zero.setSuperblock fs.superblock)

/-- The filesystem with another head of the free list, in memory and on the disk. -/
def Filesystem.withHead (fs : Filesystem F) (x : UInt64) : Filesystem F :=
  Filesystem.synced { fs with superblock := { fs.superblock with freeBlocksHead := x } }

/-- **Writing the superblock**: block 0 becomes a copy of it, padded with zeros. -/
theorem syncSuperblock_of_reliable {fs : Filesystem F} (hr : fs.Reliable)
    (h0 : 0 < fs.superblock.blocks) :
    (syncSuperblock : Fs F ℤ).run fs = .done 0 fs.synced := by
  rw [syncSuperblock, Run.run_bind, Run.run_get, Run.andThen_done, writeSuperblock, Run.run_bind,
    blockWrite_of_holds hr.noFaults (hr.holds h0)]
  rfl

theorem Filesystem.Synced.of_synced (fs : Filesystem F) : fs.synced.Synced := by
  rw [Filesystem.Synced, Filesystem.synced]
  show (Block.superblock (Filesystem.disk _ |>.block (0 : UInt64).toNat)) = _
  rw [Filesystem.block_writeBlock, Block.superblock_setSuperblock, fs.writeBlock_superblock]

/-- A write of a block other than block 0 keeps the superblock on the disk. -/
theorem Filesystem.Synced.writeBlock {fs : Filesystem F} (h : fs.Synced) {n : UInt64} (b : Block)
    (hn : fs.disk.Holds n) (h0 : n ≠ 0) : (fs.writeBlock n b).Synced := by
  have hne : n.toNat ≠ 0 := fun e => h0 (UInt64.toNat_inj.mp e)
  rw [Filesystem.Synced, Filesystem.block_writeBlock_of_ne b hn hne]
  exact h

/-- Setting the head and writing the superblock. -/
theorem setHead_run {fs : Filesystem F} (hr : fs.Reliable) (h0 : 0 < fs.superblock.blocks)
    (x : UInt64) {α : Type} (k : ℤ → Fs F α) :
    ((setFreeBlocksHead x >>= fun _ => syncSuperblock >>= k) : Fs F α).run fs =
      (k 0).run (fs.withHead x) := by
  have hr' : Filesystem.Reliable
      { fs with superblock := { fs.superblock with freeBlocksHead := x } } :=
    ⟨hr.noFaults, hr.covers, hr.addressable⟩
  rw [Run.run_bind, setFreeBlocksHead, Run.run_modify, Run.andThen_done, Run.run_bind,
    syncSuperblock_of_reliable hr' h0, Run.andThen_done]
  rfl

section WithHead

variable {fs : Filesystem F}

@[simp] theorem withHead_head (x : UInt64) : (fs.withHead x).superblock.freeBlocksHead = x := rfl

@[simp] theorem withHead_blocks (x : UInt64) :
    (fs.withHead x).superblock.blocks = fs.superblock.blocks := rfl

theorem block_withHead (x : UInt64) {m : ℕ} (hm : m ≠ 0) :
    (fs.withHead x).disk.block m = fs.disk.block m :=
  Disk.block_setBlock_of_ne _ _ (Ne.symm hm) (Nat.zero_le _)

theorem AllocatorFrame.of_withHead {S : UInt64 → Prop} (x : UInt64) (h0 : fs.disk.Holds 0)
    (hS : S 0) : AllocatorFrame S fs (fs.withHead x) where
  superblock := rfl
  inodeCache := rfl
  host := rfl
  files := rfl
  size := Disk.setBlock_size _ _ h0.le_size
  block _ hm := block_withHead x (Ne.symm (hm 0 hS))

end WithHead

/-- A host on which nothing fails, `time` stands still and `free` keeps the bytes. -/
def Host.quiet : Host where
  faults _ := .none
  clock _ := 0
  mallocs _ := true
  uid := 0
  gid := 0
  freed _ block := block

/-- A disk of the given number of blocks that is all zeros but for its superblock, open
with an empty inode cache. -/
def Filesystem.blank (superblock : Superblock) (files : F) : Filesystem F :=
  Filesystem.synced
    { disk := { size := 512 * superblock.blocks.toNat, byte := fun _ => 0 }
      superblock := superblock
      inodeCache := { dirty := false, blockNumber := 0, data := Block.zero }
      host := Host.quiet
      files := files }

/-- The superblock of a disk of eight blocks, one of them for inodes, with block 3 the
one free block. -/
def oneFreeBlock : Superblock where
  signature _ := 0
  createTime := 0
  blockSize := 512
  inodeTableBlocks := 1
  inodes := 3
  blocks := 8
  freeBlocksHead := 3
  freeInodeHead := 2

/-- The inode of an empty file with the number 2. -/
def emptyTwo : Inode := { Inode.zero with inumber := 2 }

theorem emptyTwo_pointer (j : ℕ) : emptyTwo.pointer j = 0 :=
  Inode.pointer_zero j

section Blank

variable {s : Superblock} {files : F}

theorem block_blank {m : ℕ} (hm : m ≠ 0) :
    (Filesystem.blank s files).disk.block m = Block.zero :=
  Disk.block_setBlock_of_ne _ _ (Ne.symm hm) (Nat.zero_le _)

theorem size_blank (h0 : 0 < s.blocks.toNat) :
    (Filesystem.blank s files).disk.size = 512 * s.blocks.toNat :=
  Disk.setBlock_size (n := 0) _ _ (by show 512 * (0 + 1) ≤ 512 * s.blocks.toNat; omega)

theorem reliable_blank (h0 : 0 < s.blocks.toNat) (h : 512 * s.blocks.toNat < 2 ^ 63) :
    (Filesystem.blank s files).Reliable :=
  ⟨fun _ => rfl, (size_blank h0).ge, (size_blank h0).trans_lt h⟩

end Blank

theorem block_oneFreeBlock :
    (Filesystem.blank oneFreeBlock ()).disk.block (3 : UInt64).toNat = Block.zero :=
  block_blank (by decide)

theorem poolOf_oneFreeBlock : poolOf (Filesystem.blank oneFreeBlock ()).disk [3] = [3] := by
  rw [poolOf_cons, block_oneFreeBlock, Block.slots_zero, poolOf_nil, List.nil_append]

theorem linked_oneFreeBlock : Linked 0 (Filesystem.blank oneFreeBlock ()).disk.nextNode 3 [3] := by
  refine ⟨rfl, by decide, ?_⟩
  show Disk.nextNode _ 3 = 0
  rw [Disk.nextNode, block_oneFreeBlock, Block.word_zero]

/-! ## Allocation -/

/-- The block that `sfs_fs_allocate_block` hands out next. -/
def Filesystem.nextFree (fs : Filesystem F) : Option UInt64 :=
  let node := fs.superblock.freeBlocksHead
  if node = 0 then none
  else
    match findSlot (· ≠ 0) (fs.disk.block node.toNat) with
    | some i => some (Block.word (fs.disk.block node.toNat) i)
    | none => some node

/-- The state in which `sfs_fs_allocate_block` leaves a filesystem whose I/O does not
fail. -/
def Filesystem.afterAllocate (fs : Filesystem F) : Filesystem F :=
  let node := fs.superblock.freeBlocksHead
  if node = 0 then fs
  else
    let index := fs.disk.block node.toNat
    match findSlot (· ≠ 0) index with
    | some i => fs.writeBlock node (Block.setWord index i 0)
    | none => fs.withHead (Block.word index 0)

section Allocate

variable {fs : Filesystem F} {nodes : List UInt64}

/-- A block of the disk that is not block 0 shows that block 0 is one too. -/
theorem blocks_pos {b : UInt64} (h : b < fs.superblock.blocks) : 0 < fs.superblock.blocks := by
  rw [UInt64.lt_iff_toNat_lt] at h ⊢
  exact Nat.lt_of_le_of_lt (Nat.zero_le _) h

/-- An index node without slots is itself what is handed out. -/
theorem allocate_of_slots_eq_nil {n : UInt64} (hhead : fs.superblock.freeBlocksHead = n)
    (h0 : n ≠ 0) (h : Block.slots (fs.disk.block n.toNat) = []) :
    fs.nextFree = some n ∧
      fs.afterAllocate = fs.withHead (Block.word (fs.disk.block n.toNat) 0) := by
  have hfind := Block.findSlot_of_slots_eq_nil h
  simp only [Filesystem.nextFree, Filesystem.afterAllocate, hhead, if_neg h0, hfind, and_self]

theorem sfsFsAllocateBlock_run (hr : fs.Reliable) (hc : FreeChain fs nodes) :
    (sfsFsAllocateBlock : Fs F (Option UInt64)).run fs =
      .done fs.nextFree fs.afterAllocate := by
  rw [sfsFsAllocateBlock, Run.run_bind, Run.run_get, Run.andThen_done]
  cases nodes with
  | nil =>
    have h0 : fs.superblock.freeBlocksHead = 0 := hc.linked
    simp [Filesystem.nextFree, Filesystem.afterAllocate, h0]
  | cons n ns =>
    have hhead : fs.superblock.freeBlocksHead = n := hc.linked.1
    have h0 : n ≠ 0 := hc.linked.2.1
    have hlt : n < fs.superblock.blocks := hc.node_lt List.mem_cons_self
    simp only [Filesystem.nextFree, Filesystem.afterAllocate, hhead, if_neg h0, Run.run_bind,
      blockRead_of_holds hr.noFaults (hr.holds hlt), Run.andThen_done, ne_eq, not_true_eq_false,
      if_false]
    cases hfind : findSlot (fun x => decide (¬ x = 0)) (fs.disk.block n.toNat) with
    | some i =>
      simp only [Run.run_bind, blockWrite_of_holds hr.noFaults (hr.holds hlt),
        Run.andThen_done, not_true_eq_false, if_false, Run.run_pure]
    | none =>
      simp only [setHead_run hr (blocks_pos hlt), not_true_eq_false, if_false, Run.run_pure]

/-- The block `b` left the pool: the chain afterwards, the pool before and after, and
what was written. -/
structure PoolTakes (fs : Filesystem F) (nodes : List UInt64) (b : UInt64)
    (fs' : Filesystem F) (nodes' : List UInt64) : Prop where
  chain : FreeChain fs' nodes'
  perm : (poolOf fs.disk nodes).Perm (b :: poolOf fs'.disk nodes')
  frame : AllocatorFrame (fun x => x = 0 ∨ x ∈ nodes ∧ x ≠ b) fs fs'
  synced : fs.Synced → fs'.Synced

/-- The chain after a block has left the pool inherits distinctness and range. -/
theorem FreeChain.of_perm_cons {fs' : Filesystem F} {nodes' : List UInt64} {b : UInt64}
    (hc : FreeChain fs nodes) (hperm : (poolOf fs.disk nodes).Perm (b :: poolOf fs'.disk nodes'))
    (hblocks : fs'.superblock.blocks = fs.superblock.blocks)
    (hlinked : Linked 0 fs'.disk.nextNode fs'.superblock.freeBlocksHead nodes') :
    FreeChain fs' nodes' where
  linked := hlinked
  nodup := (List.nodup_cons.mp (hperm.nodup_iff.mp hc.nodup)).2
  inDisk x hx := hblocks ▸ hc.inDisk x (hperm.mem_iff.mpr (List.mem_cons_of_mem _ hx))

theorem toNat_ne_of_ne {n m : UInt64} (h : n ≠ m) : n.toNat ≠ m.toNat :=
  fun e => h (UInt64.toNat_inj.mp e)

/-- **Taking a slot of the first node.** -/
theorem poolTakes_slot {n : UInt64} {ns : List UInt64} {i : ℕ} (hr : fs.Reliable)
    (hc : FreeChain fs (n :: ns)) (hi : findSlot (· ≠ 0) (fs.disk.block n.toNat) = some i) :
    PoolTakes fs (n :: ns) (Block.word (fs.disk.block n.toNat) i)
      (fs.writeBlock n (Block.setWord (fs.disk.block n.toNat) i 0)) (n :: ns) := by
  have hholds := hr.holds (hc.node_lt List.mem_cons_self)
  have hslots := Block.slots_of_findSlot hi
  obtain ⟨-, hi0, -⟩ := findSlot_split hi
  have hmem : Block.word (fs.disk.block n.toNat) i ∈ Block.slots (fs.disk.block n.toNat) := by
    rw [hslots]
    exact List.mem_cons_self
  have hns : ∀ m ∈ ns, (fs.writeBlock n (Block.setWord (fs.disk.block n.toNat) i 0)).disk.block
      m.toNat = fs.disk.block m.toNat := fun m hm =>
    Filesystem.block_writeBlock_of_ne _ hholds
      (toNat_ne_of_ne fun e => (List.nodup_cons.mp hc.linked.nodup).1 (e ▸ hm))
  have hperm : (poolOf fs.disk (n :: ns)).Perm (Block.word (fs.disk.block n.toNat) i ::
      poolOf (fs.writeBlock n (Block.setWord (fs.disk.block n.toNat) i 0)).disk (n :: ns)) := by
    rw [poolOf_cons, poolOf_cons, Filesystem.block_writeBlock, hslots, poolOf_congr hns]
    exact List.Perm.swap _ _ _
  refine ⟨hc.of_perm_cons hperm rfl (hc.linked.congr fun m hm => ?_), hperm,
    AllocatorFrame.of_writeBlock _ hholds (Or.inr ⟨List.mem_cons_self, ?_⟩), fun hsync => ?_⟩
  · -- the node that lost a slot still points where it did
    unfold Disk.nextNode
    rcases List.mem_cons.mp hm with rfl | hm
    · rw [Filesystem.block_writeBlock, Block.word_setWord_of_ne _ _ (by omega)]
    · rw [hns m hm]
  · intro e
    exact hc.notMem_of_mem_slots List.mem_cons_self hmem (e ▸ List.mem_cons_self)
  · exact hsync.writeBlock _ hholds (hc.linked.ne_nil_of_mem List.mem_cons_self)

/-- **Taking the first node itself**, when it has no slots left. -/
theorem poolTakes_node {n : UInt64} {ns : List UInt64} (hr : fs.Reliable)
    (hc : FreeChain fs (n :: ns)) (hi : findSlot (· ≠ 0) (fs.disk.block n.toNat) = none) :
    PoolTakes fs (n :: ns) n (fs.withHead (Block.word (fs.disk.block n.toNat) 0)) ns := by
  have hlt := hc.node_lt List.mem_cons_self
  have hns : ∀ m ∈ ns, (fs.withHead (Block.word (fs.disk.block n.toNat) 0)).disk.block m.toNat =
      fs.disk.block m.toNat := fun m hm =>
    block_withHead _ fun e =>
      hc.linked.ne_nil_of_mem (List.mem_cons_of_mem _ hm) (UInt64.toNat_inj.mp e)
  have hperm : (poolOf fs.disk (n :: ns)).Perm
      (n :: poolOf (fs.withHead (Block.word (fs.disk.block n.toNat) 0)).disk ns) := by
    rw [poolOf_cons, Block.slots_eq_nil hi, List.nil_append, poolOf_congr hns]
  have hlinked : Linked 0 (fs.withHead (Block.word (fs.disk.block n.toNat) 0)).disk.nextNode
      (Block.word (fs.disk.block n.toNat) 0) ns := by
    refine Linked.congr hc.linked.2.2 fun m hm => ?_
    rw [Disk.nextNode, hns m hm, Disk.nextNode]
  exact ⟨hc.of_perm_cons hperm (withHead_blocks _) hlinked, hperm,
    AllocatorFrame.of_withHead _ (hr.holds (blocks_pos hlt)) (Or.inl rfl),
    fun _ => Filesystem.Synced.of_synced _⟩

/-- **`sfs_fs_allocate_block`.**  On the empty pool it fails and changes nothing;
otherwise it hands out a block and the pool loses just that one. -/
theorem allocate_spec (hr : fs.Reliable) (hc : FreeChain fs nodes) :
    (fs.nextFree = none ∧ nodes = [] ∧ fs.afterAllocate = fs) ∨
      ∃ b nodes', fs.nextFree = some b ∧ PoolTakes fs nodes b fs.afterAllocate nodes' := by
  cases nodes with
  | nil =>
    have h0 : fs.superblock.freeBlocksHead = 0 := hc.linked
    exact Or.inl ⟨if_pos h0, rfl, if_pos h0⟩
  | cons n ns =>
    have hhead : fs.superblock.freeBlocksHead = n := hc.linked.1
    have h0 : n ≠ 0 := hc.linked.2.1
    simp only [Filesystem.nextFree, Filesystem.afterAllocate, hhead, if_neg h0]
    cases hi : findSlot (· ≠ 0) (fs.disk.block n.toNat) with
    | some i => exact Or.inr ⟨_, _, rfl, poolTakes_slot hr hc hi⟩
    | none => exact Or.inr ⟨_, _, rfl, poolTakes_node hr hc hi⟩

end Allocate

/-! ## Freeing -/

section Free

variable {fs : Filesystem F} {nodes : List UInt64} {b : UInt64}

/-- The block `b` joined the pool. -/
structure PoolGets (fs : Filesystem F) (nodes : List UInt64) (b : UInt64)
    (fs' : Filesystem F) (nodes' : List UInt64) : Prop where
  chain : FreeChain fs' nodes'
  perm : (poolOf fs'.disk nodes').Perm (b :: poolOf fs.disk nodes)
  frame : AllocatorFrame (fun x => x = 0 ∨ x ∈ nodes ∨ x = b) fs fs'
  synced : fs.Synced → fs'.Synced

/-- The chain after a block has joined the pool. -/
theorem FreeChain.of_perm {fs' : Filesystem F} {nodes' : List UInt64}
    (hc : FreeChain fs nodes) (hlt : b < fs.superblock.blocks) (hb : b ∉ poolOf fs.disk nodes)
    (hperm : (poolOf fs'.disk nodes').Perm (b :: poolOf fs.disk nodes))
    (hblocks : fs'.superblock.blocks = fs.superblock.blocks)
    (hlinked : Linked 0 fs'.disk.nextNode fs'.superblock.freeBlocksHead nodes') :
    FreeChain fs' nodes' where
  linked := hlinked
  nodup := hperm.nodup_iff.mpr (List.nodup_cons.mpr ⟨hb, hc.nodup⟩)
  inDisk x hx := by
    rw [hblocks]
    rcases List.mem_cons.mp (hperm.mem_iff.mp hx) with rfl | hx
    · exact hlt
    · exact hc.inDisk x hx

/-- **The first node**: the freed block is the whole chain. -/
theorem poolGets_first (hr : fs.Reliable) (hc : FreeChain fs []) (hb0 : b ≠ 0)
    (hlt : b < fs.superblock.blocks) :
    PoolGets fs [] b ((fs.writeBlock b Block.zero).withHead b) [b] := by
  have hholds := hr.holds hlt
  have hblock : ((fs.writeBlock b Block.zero).withHead b).disk.block b.toNat = Block.zero := by
    rw [block_withHead b fun e => hb0 (UInt64.toNat_inj.mp e), Filesystem.block_writeBlock]
  have hperm : (poolOf ((fs.writeBlock b Block.zero).withHead b).disk [b]).Perm
      (b :: poolOf fs.disk []) := by
    rw [poolOf_cons, hblock, Block.slots_zero]
    exact List.Perm.refl _
  have hzero := Filesystem.holds_writeBlock Block.zero hholds (hr.holds (blocks_pos hlt))
  refine ⟨hc.of_perm hlt List.not_mem_nil hperm rfl ⟨rfl, hb0, ?_⟩, hperm, ?_,
    fun _ => Filesystem.Synced.of_synced _⟩
  · show Disk.nextNode _ b = 0
    rw [Disk.nextNode, hblock, Block.word_zero]
  · exact (AllocatorFrame.of_writeBlock Block.zero hholds (Or.inr (Or.inr rfl))).trans
      (AllocatorFrame.of_withHead b hzero (Or.inl rfl))

/-- **A hole in a node** takes the freed block. -/
theorem poolGets_slot {p q : List UInt64} {n : UInt64} {i : ℕ} (hr : fs.Reliable)
    (hc : FreeChain fs (p ++ n :: q)) (hb0 : b ≠ 0) (hlt : b < fs.superblock.blocks)
    (hb : b ∉ poolOf fs.disk (p ++ n :: q))
    (hi : findSlot (· = 0) (fs.disk.block n.toNat) = some i) :
    PoolGets fs (p ++ n :: q) b
      (fs.writeBlock n (Block.setWord (fs.disk.block n.toNat) i b)) (p ++ n :: q) := by
  have hn : n ∈ p ++ n :: q := List.mem_append_right _ List.mem_cons_self
  have hholds := hr.holds (hc.node_lt hn)
  obtain ⟨-, hi0, -⟩ := findSlot_split hi
  have hnodup := List.nodup_cons.mp (List.nodup_middle.mp hc.linked.nodup)
  have hother : ∀ m ∈ p ++ q,
      (fs.writeBlock n (Block.setWord (fs.disk.block n.toNat) i b)).disk.block m.toNat =
        fs.disk.block m.toNat := fun m hm =>
    Filesystem.block_writeBlock_of_ne _ hholds (toNat_ne_of_ne fun e => hnodup.1 (e ▸ hm))
  have hperm : (poolOf (fs.writeBlock n (Block.setWord (fs.disk.block n.toNat) i b)).disk
      (p ++ n :: q)).Perm (b :: poolOf fs.disk (p ++ n :: q)) := by
    rw [poolOf_append, poolOf_append, poolOf_cons, poolOf_cons, Filesystem.block_writeBlock,
      poolOf_congr fun m hm => hother m (List.mem_append_left _ hm),
      poolOf_congr fun m hm => hother m (List.mem_append_right _ hm)]
    have hslots := Block.slots_setWord_of_findSlot hi hb0
    -- the new slot moves past the node's other slots, past the node, and to the front
    refine (((hslots.append_right _).cons n).append_left _).trans ?_
    refine ((List.Perm.swap b n _).append_left _).trans ?_
    exact List.perm_middle
  refine ⟨hc.of_perm hlt hb hperm rfl (hc.linked.congr fun m hm => ?_), hperm,
    AllocatorFrame.of_writeBlock _ hholds (Or.inr (Or.inl hn)),
    fun hsync => hsync.writeBlock _ hholds (hc.linked.ne_nil_of_mem hn)⟩
  unfold Disk.nextNode
  by_cases hmn : m = n
  · rw [hmn, Filesystem.block_writeBlock, Block.word_setWord_of_ne _ _ (by omega)]
  · have hm' : m ∈ p ++ q := by
      rcases List.mem_append.mp hm with h | h
      · exact List.mem_append_left _ h
      · exact List.mem_append_right _ ((List.mem_cons.mp h).resolve_left hmn)
    rw [hother m hm']

/-- **The last node, full**: the freed block becomes the node after it. -/
theorem poolGets_tail {p : List UInt64} {n : UInt64} (hr : fs.Reliable)
    (hc : FreeChain fs (p ++ [n])) (hb0 : b ≠ 0) (hlt : b < fs.superblock.blocks)
    (hb : b ∉ poolOf fs.disk (p ++ [n])) :
    PoolGets fs (p ++ [n]) b
      ((fs.writeBlock n (Block.setWord (fs.disk.block n.toNat) 0 b)).writeBlock b Block.zero)
      (p ++ [n, b]) := by
  have hn : n ∈ p ++ [n] := List.mem_append_right _ List.mem_cons_self
  have hholds := hr.holds (hc.node_lt hn)
  set fs₁ := fs.writeBlock n (Block.setWord (fs.disk.block n.toNat) 0 b) with hfs₁
  have hbholds : fs₁.disk.Holds b := Filesystem.holds_writeBlock _ hholds (hr.holds hlt)
  have hbnode : ∀ m ∈ p ++ [n], b.toNat ≠ m.toNat := fun m hm =>
    toNat_ne_of_ne fun e => hb (e ▸ mem_poolOf_of_mem hm)
  have hnp : ∀ m ∈ p, n.toNat ≠ m.toNat := fun m hm => toNat_ne_of_ne fun e =>
    (List.nodup_append.mp hc.linked.nodup).2.2 m hm n List.mem_cons_self e.symm
  -- what the two writes leave in each block
  have hlast : (fs₁.writeBlock b Block.zero).disk.block n.toNat =
      Block.setWord (fs.disk.block n.toNat) 0 b := by
    rw [Filesystem.block_writeBlock_of_ne _ hbholds (hbnode n hn), hfs₁,
      Filesystem.block_writeBlock]
  have hother : ∀ m ∈ p, (fs₁.writeBlock b Block.zero).disk.block m.toNat =
      fs.disk.block m.toNat := fun m hm => by
    rw [Filesystem.block_writeBlock_of_ne _ hbholds (hbnode m (List.mem_append_left _ hm)), hfs₁,
      Filesystem.block_writeBlock_of_ne _ hholds (hnp m hm)]
  have hperm : (poolOf (fs₁.writeBlock b Block.zero).disk (p ++ [n, b])).Perm
      (b :: poolOf fs.disk (p ++ [n])) := by
    rw [poolOf_append, poolOf_append, poolOf_cons, poolOf_cons, poolOf_cons, hlast,
      poolOf_congr hother, Block.slots_setWord_zero, Filesystem.block_writeBlock,
      Block.slots_zero]
    simp only [poolOf_nil, List.append_nil]
    rw [show poolOf fs.disk p ++ n :: (Block.slots (fs.disk.block n.toNat) ++ [b]) =
      poolOf fs.disk p ++ n :: Block.slots (fs.disk.block n.toNat) ++ [b] by simp]
    exact List.perm_append_singleton _ _
  refine ⟨hc.of_perm hlt hb hperm rfl ?_, hperm, ?_, fun hsync => ?_⟩
  · refine hc.linked.concat hb0 (fun m hm => ?_) ?_ ?_
    · rw [Disk.nextNode, Disk.nextNode, hother m hm]
    · rw [Disk.nextNode, hlast, Block.word_setWord _ _ (by omega)]
    · rw [Disk.nextNode, Filesystem.block_writeBlock, Block.word_zero]
  · exact (AllocatorFrame.of_writeBlock _ hholds (Or.inr (Or.inl hn))).trans
      (AllocatorFrame.of_writeBlock Block.zero hbholds (Or.inr (Or.inr rfl)))
  · exact (hsync.writeBlock _ hholds (hc.linked.ne_nil_of_mem hn)).writeBlock Block.zero
      hbholds hb0

/-- Where the search of `sfs_fs_free_block` stands: the nodes `p` have been passed, and
`q` are still to come. -/
structure FreeWalk (fs : Filesystem F) (p q : List UInt64) (w : UInt64 × UInt64 × Block) :
    Prop where
  linked : Linked 0 fs.disk.nextNode w.1 q
  last : ∀ r n, p = r ++ [n] → w.2.1 = n ∧ w.2.2 = fs.disk.block n.toNat

/-- **One iteration of the search** either ends it, the pool having gained the block,
or passes a node. -/
theorem freeBlockStep_spec {p q : List UInt64} {w : UInt64 × UInt64 × Block}
    (hr : fs.Reliable) (hc : FreeChain fs (p ++ q)) (hne : p ++ q ≠ []) (hb0 : b ≠ 0)
    (hlt : b < fs.superblock.blocks) (hb : b ∉ poolOf fs.disk (p ++ q))
    (hw : FreeWalk fs p q w) :
    (∃ fs' nodes', (freeBlockStep b w).run fs = .done (.inr 0) fs' ∧
      PoolGets fs (p ++ q) b fs' nodes') ∨
    ∃ w' n q', (freeBlockStep b w).run fs = .done (.inl w') fs ∧ q = n :: q' ∧
      FreeWalk fs (p ++ [n]) q' w' := by
  obtain ⟨node, prevNode, index⟩ := w
  cases q with
  | nil =>
    -- no node has a hole
    have hnode : node = 0 := hw.linked
    rw [List.append_nil] at hc hne hb ⊢
    obtain ⟨r, n, rfl⟩ : ∃ r n, p = r ++ [n] :=
      ⟨p.dropLast, p.getLast hne, (List.dropLast_append_getLast hne).symm⟩
    obtain ⟨hprev, hindex⟩ := hw.last r n rfl
    have hholds := hr.holds (hc.node_lt (List.mem_append_right _ List.mem_cons_self))
    have hbholds := Filesystem.holds_writeBlock
      (Block.setWord (fs.disk.block n.toNat) 0 b) hholds (hr.holds hlt)
    refine Or.inl ⟨_, _, ?_, poolGets_tail hr hc hb0 hlt hb⟩
    simp only at hprev hindex
    rw [freeBlockStep, if_pos hnode, hprev, hindex, Run.run_bind,
      blockWrite_of_holds hr.noFaults hholds, Run.andThen_done, if_neg (by simp), Run.run_bind,
      blockWrite_of_holds (by exact hr.noFaults) hbholds, Run.andThen_done, if_neg (by simp),
      Run.run_pure]
  | cons n q =>
    obtain ⟨hnode, hn0, hq⟩ := hw.linked
    have hholds := hr.holds (hc.node_lt (List.mem_append_right _ List.mem_cons_self))
    simp only at hnode
    rw [freeBlockStep, hnode, if_neg hn0, Run.run_bind, blockRead_of_holds hr.noFaults hholds,
      Run.andThen_done]
    simp only [ne_eq, not_true_eq_false, if_false]
    cases hi : findSlot (fun x => decide (x = 0)) (fs.disk.block n.toNat) with
    | some i =>
      refine Or.inl ⟨_, _, ?_, poolGets_slot hr hc hb0 hlt hb hi⟩
      simp only [Run.run_bind, blockWrite_of_holds hr.noFaults hholds, Run.andThen_done,
        not_true_eq_false, if_false, Run.run_pure]
    | none =>
      refine Or.inr ⟨(Block.word (fs.disk.block n.toNat) 0, n, fs.disk.block n.toNat), n, q,
        rfl, rfl, hq, fun r m hrm => ?_⟩
      obtain ⟨-, hm⟩ := List.append_inj' hrm rfl
      rw [List.cons.injEq] at hm
      exact ⟨hm.1, by rw [hm.1]⟩

/-- **`sfs_fs_free_block`** of a block that is not in the pool returns 0, whatever the
chain, and the pool gains just that block. -/
theorem free_spec (hr : fs.Reliable) (hc : FreeChain fs nodes) (hb0 : b ≠ 0)
    (hlt : b < fs.superblock.blocks) (hb : b ∉ poolOf fs.disk nodes) :
    Run.Ensures (sfsFsFreeBlock b) fs fun r fs' =>
      r = 0 ∧ ∃ nodes', PoolGets fs nodes b fs' nodes' := by
  rw [sfsFsFreeBlock]
  cases nodes with
  | nil =>
    have h0 : fs.superblock.freeBlocksHead = 0 := hc.linked
    have hholds := hr.holds hlt
    have hr' : (fs.writeBlock b Block.zero).Reliable :=
      (AllocatorFrame.of_writeBlock (S := fun _ => True) Block.zero hholds trivial).reliable hr
    refine Run.Ensures.of_eq ?_ ⟨rfl, _, poolGets_first hr hc hb0 hlt⟩
    rw [Run.run_bind, Run.run_get, Run.andThen_done, if_pos h0, Run.run_bind,
      blockWrite_of_holds hr.noFaults hholds, Run.andThen_done, if_neg (by simp),
      setHead_run hr' (blocks_pos hlt), if_neg (by simp), Run.run_pure]
  | cons n ns =>
    have hhead : fs.superblock.freeBlocksHead = n := hc.linked.1
    have h0 : fs.superblock.freeBlocksHead ≠ 0 := hhead ▸ hc.linked.2.1
    have hloop : Run.Ensures (Run.loop (freeBlockStep b) loopBound
        (fs.superblock.freeBlocksHead, 0, Block.zero)) fs fun r fs' =>
        r = 0 ∧ ∃ nodes', PoolGets fs (n :: ns) b fs' nodes' := by
      -- the ghost value is the split of the nodes, the measure how many are to come
      refine Run.Ensures.loop (G := List UInt64 × List UInt64)
        (fun g w fs₁ => fs₁ = fs ∧ g.1 ++ g.2 = n :: ns ∧ FreeWalk fs g.1 g.2 w)
        (fun g => g.2.length) ?_ (g := ([], n :: ns)) ⟨rfl, rfl, hc.linked, ?_⟩ hc.length_lt
      · rintro ⟨p, q⟩ w _ ⟨rfl, hpq, hw⟩
        rcases freeBlockStep_spec hr (hpq ▸ hc) (hpq ▸ List.cons_ne_nil _ _) hb0 hlt (hpq ▸ hb) hw
          with ⟨fs', nodes', hrun, hgets⟩ | ⟨w', m, q', hrun, rfl, hw'⟩
        · exact Run.Ensures.of_eq hrun ⟨rfl, nodes', hpq ▸ hgets⟩
        · refine Run.Ensures.of_eq hrun ⟨(p ++ [m], q'), ⟨rfl, ?_, hw'⟩, Nat.lt_succ_self _⟩
          rw [← hpq, List.append_assoc, List.singleton_append]
      · intro r m hrm
        exact absurd hrm (by simp)
    obtain ⟨r, fs', hrun, hpost⟩ := hloop
    refine Run.Ensures.of_eq ?_ hpost
    rw [Run.run_bind, Run.run_get, Run.andThen_done, if_neg h0, hrun]

end Free

/-! ## Freeing several blocks -/

/-- The blocks `bs` joined the pool, and only they and blocks of the pool were written. -/
structure Freed (fs : Filesystem F) (nodes bs : List UInt64) (fs' : Filesystem F)
    (nodes' : List UInt64) : Prop where
  chain : FreeChain fs' nodes'
  perm : (poolOf fs'.disk nodes').Perm (bs ++ poolOf fs.disk nodes)
  frame : AllocatorFrame (fun x => x = 0 ∨ x ∈ poolOf fs.disk nodes ∨ x ∈ bs) fs fs'
  synced : fs.Synced → fs'.Synced

namespace Freed

variable {fs fs' fs'' : Filesystem F} {nodes nodes' nodes'' bs bs' : List UInt64} {b : UInt64}

theorem nil (hc : FreeChain fs nodes) : Freed fs nodes [] fs nodes :=
  ⟨hc, List.Perm.refl _, AllocatorFrame.refl fs, id⟩

theorem of_poolGets (h : PoolGets fs nodes b fs' nodes') : Freed fs nodes [b] fs' nodes' := by
  refine ⟨h.chain, h.perm, h.frame.mono fun x hx => hx.imp_right fun hx => ?_, h.synced⟩
  exact hx.imp mem_poolOf_of_mem List.mem_singleton.mpr

theorem trans (h : Freed fs nodes bs fs' nodes') (h' : Freed fs' nodes' bs' fs'' nodes'') :
    Freed fs nodes (bs ++ bs') fs'' nodes'' := by
  refine ⟨h'.chain, ?_, (h.frame.mono fun x hx => ?_).trans (h'.frame.mono fun x hx => ?_),
    h'.synced ∘ h.synced⟩
  · refine h'.perm.trans ((h.perm.append_left _).trans ?_)
    rw [← List.append_assoc]
    exact List.perm_append_comm.append_right _
  · exact hx.imp_right fun hx => hx.imp_right (List.mem_append_left _)
  · rcases hx with hx | hx | hx
    · exact Or.inl hx
    · rcases List.mem_append.mp (h.perm.mem_iff.mp hx) with hx | hx
      · exact Or.inr (Or.inr (List.mem_append_left _ hx))
      · exact Or.inr (Or.inl hx)
    · exact Or.inr (Or.inr (List.mem_append_right _ hx))

end Freed

/-- Blocks that may be freed one after the other. -/
structure MayFreeAll (fs : Filesystem F) (nodes bs : List UInt64) : Prop where
  distinct : (bs ++ poolOf fs.disk nodes).Nodup
  ne_zero : ∀ b ∈ bs, b ≠ 0
  inDisk : ∀ b ∈ bs, b < fs.superblock.blocks

/-- **The loop over the direct pointers** puts the blocks that they name into the pool. -/
theorem freePointers_spec {fs : Filesystem F} {nodes ps : List UInt64} (hr : fs.Reliable)
    (hc : FreeChain fs nodes) (hmay : MayFreeAll fs nodes (ps.filter (· ≠ 0))) :
    Run.Ensures (freePointers ps) fs fun ret fs' =>
      ret = 0 ∧ ∃ nodes', Freed fs nodes (ps.filter (· ≠ 0)) fs' nodes' := by
  induction ps generalizing fs nodes with
  | nil => exact Run.ensures_pure ⟨rfl, nodes, Freed.nil hc⟩
  | cons p ps ih =>
    rw [freePointers]
    by_cases h0 : p = 0
    · rw [if_pos h0]
      rw [List.filter_cons_of_neg (by simp [h0])] at hmay ⊢
      exact ih hr hc hmay
    · rw [if_neg h0]
      rw [List.filter_cons_of_pos (by simp [h0])] at hmay ⊢
      have hp := List.mem_cons_self (a := p) (l := ps.filter (· ≠ 0))
      obtain ⟨hnot, hrest⟩ := List.nodup_cons.mp hmay.distinct
      refine (free_spec hr hc h0 (hmay.inDisk p hp)
        fun hm => hnot (List.mem_append_right _ hm)).bind ?_
      rintro ret fs' ⟨rfl, nodes', hgets⟩
      rw [if_neg (by simp)]
      refine (ih (hgets.frame.reliable hr) hgets.chain ⟨?_, ?_, ?_⟩).mono ?_
      · refine List.Perm.nodup (List.Perm.symm ?_) hmay.distinct
        exact (hgets.perm.append_left _).trans List.perm_middle
      · exact fun b hb => hmay.ne_zero b (List.mem_cons_of_mem p hb)
      · intro b hb
        rw [hgets.frame.blocks]
        exact hmay.inDisk b (List.mem_cons_of_mem p hb)
      · rintro ret fs'' ⟨hret, nodes'', hfreed⟩
        exact ⟨hret, nodes'', (Freed.of_poolGets hgets).trans hfreed⟩

end SimpleFileSystem
