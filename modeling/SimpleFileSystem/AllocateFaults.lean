import SimpleFileSystem.TornWrites
import SimpleFileSystem.InodeList
import SimpleFileSystem.Metadata

/-!
# The free lists after an allocation that fails

A call of the allocator that answers -1 should not have happened: the pool is the set it
was, and the free inodes are the list they were, both well formed.  `SameLists` is that,
and `FailsCleanly` is a call that sees to it whatever the host does.

`sfs_fs_allocate_block` makes two calls of the host, a read, which changes nothing, and a
write.  If the write is that of an index node it may stop in the middle of the slot that it
is to zero, and then the node names another block.  If it is that of the superblock, the
node that is handed out is gone from memory already.  `Filesystem.AllocateTears` are these
two cases, and there are no others (`allocateBlock_failsCleanly_iff`).

That the pool is another one is seen in two ways: a node names another block in one of its
slots (`pool_ne_of_slot`), or the last node points on (`pool_ne_of_next`).
-/

open ByteCodec

namespace SimpleFileSystem

variable {F α : Type}

/-! ## The free lists -/

/-- A handle with well-formed free lists: `nodes` are the index nodes of the free block
chain, and `L` are the free inodes. -/
structure FreeLists (fs : Filesystem F) (nodes L : List UInt64) : Prop where
  handle : CoherentHandle fs
  chain : FreeChain fs nodes
  data : ∀ b ∈ poolOf fs.disk nodes, fs.superblock.inRange b = true
  list : FreeInodes fs L

/-- **The free lists are what they were**, the pool as a set. -/
def SameLists (fs : Filesystem F) (nodes L : List UInt64) (fs' : Filesystem F) : Prop :=
  (∃ nodes', FreeChain fs' nodes' ∧
    ∀ b, b ∈ poolOf fs'.disk nodes' ↔ b ∈ poolOf fs.disk nodes) ∧
  FreeInodes fs' L

/-- **A call that fails leaves the free lists alone**: it returns, and if what it returns
is the failure, they are what they were. -/
def FailsCleanly (fs : Filesystem F) (nodes L : List UInt64) (x : Fs F α) (failure : α) : Prop :=
  Run.Ensures x fs fun answer fs' => answer = failure → SameLists fs nodes L fs'

section Lists

variable {fs fs' : Filesystem F} {nodes L : List UInt64} {x : Fs F α} {answer failure : α}

theorem failsCleanly_iff (hrun : x.run fs = .done answer fs') :
    FailsCleanly fs nodes L x failure ↔ (answer = failure → SameLists fs nodes L fs') :=
  ⟨fun h => h.post hrun, fun h => Run.Ensures.of_eq hrun h⟩

theorem FreeChain.congr (h : FreeChain fs nodes)
    (hhead : fs'.superblock.freeBlocksHead = fs.superblock.freeBlocksHead)
    (hblocks : fs'.superblock.blocks = fs.superblock.blocks)
    (hsame : ∀ n ∈ nodes, fs'.disk.block n.toNat = fs.disk.block n.toNat) :
    FreeChain fs' nodes where
  linked := by
    rw [hhead]
    refine h.linked.congr fun n hn => ?_
    rw [Disk.nextNode, hsame n hn, Disk.nextNode]
  nodup := by
    rw [poolOf_congr hsame]
    exact h.nodup
  inDisk b hb := by
    rw [poolOf_congr hsame] at hb
    rw [hblocks]
    exact h.inDisk b hb

namespace FreeLists

theorem poolOk (h : FreeLists fs nodes L) : PoolOk fs nodes :=
  ⟨h.handle.covers, h.handle.addressable, h.handle.table.inDisk, h.chain, h.data⟩

theorem node_inRange (h : FreeLists fs nodes L) {n : UInt64} (hn : n ∈ nodes) :
    fs.superblock.inRange n = true :=
  h.data n (mem_poolOf_of_mem hn)

theorem holds_node (h : FreeLists fs nodes L) {n : UInt64} (hn : n ∈ nodes) : fs.disk.Holds n :=
  h.poolOk.holds (h.node_inRange hn)

/-- The free lists of a filesystem with the same index nodes, and the same numbers and
next pointers in the free inodes. -/
theorem same (h : FreeLists fs nodes L) (hsuper : fs'.superblock = fs.superblock)
    (hnodes : ∀ n ∈ nodes, fs'.disk.block n.toNat = fs.disk.block n.toNat)
    (hinodes : ∀ k ∈ L, (fs'.logicalInode k).inumber = k ∧ fs'.nextInode k = fs.nextInode k) :
    SameLists fs nodes L fs' := by
  refine ⟨⟨nodes, h.chain.congr (by rw [hsuper]) (by rw [hsuper]) hnodes, fun b => ?_⟩, ?_, ?_, ?_⟩
  · rw [poolOf_congr hnodes]
  · rw [hsuper]
    exact h.list.linked.congr fun k hk => (hinodes k hk).2
  · rw [hsuper]
    exact h.list.valid
  · exact fun k hk => (hinodes k hk).1

/-- A step that leaves the cache and the blocks of the nodes and of the table alone. -/
theorem same_of_blocks (h : FreeLists fs nodes L) (hsuper : fs'.superblock = fs.superblock)
    (hcache : fs'.inodeCache = fs.inodeCache)
    (hblock : ∀ n, n ∈ nodes ∨ fs.superblock.InTable n →
      fs'.disk.block n.toNat = fs.disk.block n.toNat) : SameLists fs nodes L fs' := by
  refine h.same hsuper (fun n hn => hblock n (Or.inl hn)) fun k hk => ?_
  have hsame : fs'.logicalInode k = fs.logicalInode k := by
    rw [Filesystem.logicalInode, Filesystem.tableBlock, Filesystem.cachedBlock, hcache,
      hblock _ (Or.inr (h.handle.table.inTable (h.list.valid k hk)))]
    rfl
  rw [Filesystem.nextInode, hsame]
  exact ⟨h.list.own k hk, rfl⟩

end FreeLists

/-- Two lists of blocks that have all but one member in common are not the same set. -/
theorem not_same_of_perm {P P' R : List UInt64} {y y' : UInt64} (hne : y' ≠ y)
    (hP : P.Perm ([y].filter (· ≠ 0) ++ R)) (hP' : P'.Perm ([y'].filter (· ≠ 0) ++ R))
    (hnodup : P.Nodup) (hnodup' : P'.Nodup) : ¬ ∀ b, b ∈ P' ↔ b ∈ P := by
  intro hsame
  rw [hP.nodup_iff] at hnodup
  rw [hP'.nodup_iff] at hnodup'
  by_cases h0 : y = 0
  · have h0' : y' ≠ 0 := fun e => hne (e.trans h0.symm)
    have hfilter : [y].filter (· ≠ 0) = [] := by simp [h0]
    have hfilter' : [y'].filter (· ≠ 0) = [y'] := by simp [h0']
    rw [hfilter'] at hP' hnodup'
    have hmem := (hsame y').mp (hP'.mem_iff.mpr List.mem_cons_self)
    rw [hP.mem_iff, hfilter] at hmem
    exact (List.nodup_cons.mp hnodup').1 hmem
  · have hfilter : [y].filter (· ≠ 0) = [y] := by simp [h0]
    rw [hfilter] at hP hnodup
    have hmem := (hsame y).mpr (hP.mem_iff.mpr List.mem_cons_self)
    rcases List.mem_append.mp (hP'.mem_iff.mp hmem) with hmem | hmem
    · exact hne (List.mem_singleton.mp (List.mem_of_mem_filter hmem)).symm
    · exact (List.nodup_cons.mp hnodup).1 hmem

/-- **An index node of which one slot is another** makes another pool. -/
theorem pool_ne_of_slot {p q nodes' : List UInt64} {n : UInt64} {i : ℕ}
    (hc : FreeChain fs (p ++ n :: q)) (hc' : FreeChain fs' nodes')
    (hhead : fs'.superblock.freeBlocksHead = fs.superblock.freeBlocksHead)
    (hsame : ∀ m ∈ p ++ q, fs'.disk.block m.toNat = fs.disk.block m.toNat) (hi : 0 < i)
    (hlt : i < 64)
    (hwords : ∀ j, j ≠ i → (fs'.disk.block n.toNat).word j = (fs.disk.block n.toNat).word j)
    (hword : (fs'.disk.block n.toNat).word i ≠ (fs.disk.block n.toNat).word i) :
    ¬ ∀ b, b ∈ poolOf fs'.disk nodes' ↔ b ∈ poolOf fs.disk (p ++ n :: q) := by
  have hlinked : Linked 0 fs'.disk.nextNode fs'.superblock.freeBlocksHead (p ++ n :: q) := by
    rw [hhead]
    refine hc.linked.congr fun m hm => ?_
    by_cases hmn : m = n
    · rw [hmn, Disk.nextNode, hwords 0 (by omega), Disk.nextNode]
    · have hm' : m ∈ p ++ q := by
        rcases List.mem_append.mp hm with hm | hm
        · exact List.mem_append_left _ hm
        · exact List.mem_append_right _ ((List.mem_cons.mp hm).resolve_left hmn)
      rw [Disk.nextNode, hsame m hm', Disk.nextNode]
  obtain rfl := hc'.linked.unique hlinked
  obtain ⟨R, hnew, hold⟩ := Block.slots_mix hi hlt hwords
  have hpool : ∀ (d : Disk) (y : UInt64),
      (Block.slots (d.block n.toNat)).Perm ([y].filter (· ≠ 0) ++ R) →
      (poolOf d (p ++ n :: q)).Perm
        ([y].filter (· ≠ 0) ++ (n :: (R ++ (poolOf d p ++ poolOf d q)))) := by
    intro d y hslots
    rw [poolOf_append, poolOf_cons, List.perm_iff_count]
    intro a
    have hcount := hslots.count_eq a
    simp only [List.count_append, List.count_cons] at hcount ⊢
    omega
  have hp := poolOf_congr fun m hm => hsame m (List.mem_append_left q hm)
  have hq := poolOf_congr fun m hm => hsame m (List.mem_append_right p hm)
  have hnew' := hpool fs'.disk _ hnew
  rw [hp, hq] at hnew'
  exact not_same_of_perm hword (hpool fs.disk _ hold) hnew' hc.nodup hc'.nodup

/-- **A chain whose last node points on** has another pool. -/
theorem pool_ne_of_next {p nodes' : List UInt64} {n : UInt64} (hc : FreeChain fs (p ++ [n]))
    (hc' : FreeChain fs' nodes')
    (hhead : fs'.superblock.freeBlocksHead = fs.superblock.freeBlocksHead)
    (hsame : ∀ m ∈ p, fs'.disk.block m.toNat = fs.disk.block m.toNat)
    (hwords : ∀ j, j ≠ 0 → (fs'.disk.block n.toNat).word j = (fs.disk.block n.toNat).word j)
    (hnext : (fs'.disk.block n.toNat).word 0 ≠ 0) :
    ¬ ∀ b, b ∈ poolOf fs'.disk nodes' ↔ b ∈ poolOf fs.disk (p ++ [n]) := by
  intro hpool
  have hlinked' := hc'.linked
  rw [hhead] at hlinked'
  obtain ⟨m, rfl⟩ := hc.linked.goes_on (fun y hy => by
    rw [Disk.nextNode, hsame y hy, Disk.nextNode]) hnext hlinked'
  have hslots : Block.slots (fs'.disk.block n.toNat) = Block.slots (fs.disk.block n.toNat) := by
    rw [Block.slots, Block.slots, List.map_congr_left fun j hj =>
      hwords j (by have := (List.mem_range'_1.mp hj).1; omega)]
  have hold : poolOf fs'.disk (p ++ [n]) = poolOf fs.disk (p ++ [n]) := by
    rw [poolOf_append, poolOf_append, poolOf_cons, poolOf_cons, hslots, poolOf_congr hsame,
      poolOf_nil, poolOf_nil]
  have hsplit : p ++ n :: fs'.disk.nextNode n :: m = (p ++ [n]) ++ (fs'.disk.nextNode n :: m) := by
    rw [List.append_assoc]
    rfl
  have hnodup := hc'.nodup
  rw [hsplit] at hpool hnodup
  rw [poolOf_append, hold] at hnodup
  have hnew := (hpool (fs'.disk.nextNode n)).mp
    (mem_poolOf_of_mem (List.mem_append_right _ List.mem_cons_self))
  exact (List.nodup_append.mp hnodup).2.2 _ hnew _ (mem_poolOf_of_mem List.mem_cons_self) rfl

/-- **Another free inode is the first one**: the list is not what it was. -/
theorem not_sameLists_of_inodeHead (h : FreeLists fs nodes L)
    (hhead : fs'.superblock.freeInodeHead ≠ fs.superblock.freeInodeHead) :
    ¬ SameLists fs nodes L fs' := fun hsame =>
  hhead (hsame.2.linked.head_unique h.list.linked)

end Lists

/-! ## Writes that do not finish -/

section Wrote

variable {fs : Filesystem F} {n : UInt64} {b : Block}

theorem block_wrote_of_ne (hn : fs.disk.Holds n) (b : Block) {m : UInt64} (hne : m ≠ n) :
    (fs.wrote n b).disk.block m.toNat = fs.disk.block m.toNat :=
  Disk.block_pwrite_of_ne hn _ b (toNat_ne_of_ne hne.symm)

theorem block_wrote_of_cut (hn : fs.disk.Holds n) (hf : (fs.host.faults 0).full = false)
    (htears : ¬ (fs.host.faults 0).Tears (fs.disk.block n.toNat) b) (m : UInt64) :
    (fs.wrote n b).disk.block m.toNat = fs.disk.block m.toNat := by
  by_cases hm : m = n
  · rw [hm]
    exact Disk.block_pwrite_of_cut hn hf htears
  · exact block_wrote_of_ne hn b hm

/-- The other words of a node that was being written back. -/
theorem word_wrote_of_ne (hn : fs.disk.Holds n) (i : ℕ) (x : UInt64) {j : ℕ} (hj : j ≠ i) :
    ((fs.wrote n ((fs.disk.block n.toNat).setWord i x)).disk.block n.toNat).word j =
      (fs.disk.block n.toNat).word j :=
  Block.word_mix_of_ne (Disk.block_pwrite_apply hn _ _) hj

/-- **The word of a torn node.** -/
theorem word_wrote_of_tears (hn : fs.disk.Holds n) {i : ℕ} {x : UInt64}
    (htears : (fs.host.faults 0).Tears (fs.disk.block n.toNat)
      ((fs.disk.block n.toNat).setWord i x)) :
    ((fs.wrote n ((fs.disk.block n.toNat).setWord i x)).disk.block n.toNat).word i ≠
      (fs.disk.block n.toNat).word i :=
  Block.word_mix_ne (Disk.block_pwrite_apply hn _ _) (Disk.block_pwrite_of_tears hn htears)

end Wrote

/-! ## Allocating a block -/

/-- **A call of `sfs_fs_allocate_block` that tears the pool.**  The second call of the
host, after the read of the first node, is a write that tears the node, or one of the
superblock that fails. -/
def Filesystem.AllocateTears (fs : Filesystem F) : Prop :=
  fs.superblock.freeBlocksHead ≠ 0 ∧ (fs.host.faults 0).full = true ∧
    match findSlot (· ≠ 0) (fs.disk.block fs.superblock.freeBlocksHead.toNat) with
    | some i => (fs.host.faults 1).Tears (fs.disk.block fs.superblock.freeBlocksHead.toNat)
        (Block.setWord (fs.disk.block fs.superblock.freeBlocksHead.toNat) i 0)
    | none => (fs.host.faults 1).full = false

section Allocate

variable {fs : Filesystem F} {nodes L : List UInt64}

/-- What follows the read of the first node. -/
theorem sfsFsAllocateBlock_of_read {n : UInt64} (hhead : fs.superblock.freeBlocksHead = n)
    (h0 : n ≠ 0) (hheld : fs.disk.Holds n) (hread : (fs.host.faults 0).full = true) :
    (sfsFsAllocateBlock : Fs F (Option UInt64)).run fs =
      match findSlot (· ≠ 0) (fs.disk.block n.toNat) with
      | some i =>
        (do
          if (← blockWrite n (Block.setWord (fs.disk.block n.toNat) i 0)) ≠ 512 then return none
          return some (Block.word (fs.disk.block n.toNat) i) : Fs F (Option UInt64)).run fs.called
      | none =>
        (do
          setFreeBlocksHead (Block.word (fs.disk.block n.toNat) 0)
          if (← syncSuperblock) ≠ 0 then return none
          return some n : Fs F (Option UInt64)).run fs.called := by
  rw [sfsFsAllocateBlock, Run.run_bind, Run.run_get, Run.andThen_done, hhead, if_neg h0,
    Run.run_bind, blockRead_of_full hheld hread Block.zero, Run.andThen_done]
  dsimp only
  rw [if_neg (by simp)]
  cases findSlot (· ≠ 0) (fs.disk.block n.toNat) with
  | some i => rfl
  | none => rfl

/-- Taking a slot of the first node. -/
theorem allocateBlock_slot_iff {n : UInt64} {ns : List UInt64} {i : ℕ}
    (h : FreeLists fs (n :: ns) L) (hfind : findSlot (· ≠ 0) (fs.disk.block n.toNat) = some i)
    (hrun : (sfsFsAllocateBlock : Fs F (Option UInt64)).run fs =
      (do
        if (← blockWrite n (Block.setWord (fs.disk.block n.toNat) i 0)) ≠ 512 then return none
        return some (Block.word (fs.disk.block n.toNat) i) : Fs F (Option UInt64)).run fs.called) :
    FailsCleanly fs (n :: ns) L sfsFsAllocateBlock none ↔
      ¬ (fs.host.faults 1).Tears (fs.disk.block n.toNat)
        (Block.setWord (fs.disk.block n.toNat) i 0) := by
  have hheld : fs.called.disk.Holds n := h.holds_node List.mem_cons_self
  obtain ⟨-, hi, hlt, -⟩ := findSlot_split hfind
  rw [Run.run_bind] at hrun
  cases hwrite : (fs.host.faults 1).full with
  | true =>
    rw [blockWrite_of_full hheld hwrite, Run.andThen_done, if_neg (by simp), Run.run_pure] at hrun
    rw [failsCleanly_iff hrun]
    exact ⟨fun _ htears => absurd (htears.not_full.symm.trans hwrite) Bool.false_ne_true,
      fun _ hfailed => absurd hfailed (Option.some_ne_none _)⟩
  | false =>
    have hcut : (fs.called.host.faults 0).full = false := hwrite
    obtain ⟨ret, hdone, hret⟩ := blockWrite_of_cut hcut n
      (Block.setWord (fs.disk.block n.toNat) i 0)
    rw [hdone, Run.andThen_done, if_pos hret, Run.run_pure] at hrun
    rw [failsCleanly_iff hrun]
    constructor
    · intro hsame htears
      obtain ⟨⟨nodes', hc', hpool⟩, -⟩ := hsame rfl
      set fs₂ := fs.called.wrote n (Block.setWord (fs.disk.block n.toNat) i 0)
      have hother : ∀ m ∈ ns, fs₂.disk.block m.toNat = fs.disk.block m.toNat := fun m hm =>
        block_wrote_of_ne hheld _ fun e => (List.nodup_cons.mp h.chain.linked.nodup).1 (e ▸ hm)
      have hwords : ∀ j, j ≠ i →
          (fs₂.disk.block n.toNat).word j = (fs.disk.block n.toNat).word j := fun j hj =>
        word_wrote_of_ne hheld i 0 hj
      have hword : (fs₂.disk.block n.toNat).word i ≠ (fs.disk.block n.toNat).word i :=
        word_wrote_of_tears hheld htears
      exact pool_ne_of_slot (p := []) h.chain hc' rfl hother hi hlt hwords hword hpool
    · intro htears _
      exact h.same_of_blocks rfl rfl fun m _ => block_wrote_of_cut hheld hwrite htears m

/-- Taking the first node itself: it is gone from the pool when the superblock is written. -/
theorem allocateBlock_node_iff {n : UInt64} {ns : List UInt64} (h : FreeLists fs (n :: ns) L)
    (hrun : (sfsFsAllocateBlock : Fs F (Option UInt64)).run fs =
      (do
        setFreeBlocksHead (Block.word (fs.disk.block n.toNat) 0)
        if (← syncSuperblock) ≠ 0 then return none
        return some n : Fs F (Option UInt64)).run fs.called) :
    FailsCleanly fs (n :: ns) L sfsFsAllocateBlock none ↔ ¬ (fs.host.faults 1).full = false := by
  rw [Run.run_bind, setFreeBlocksHead, Run.run_modify, Run.andThen_done, Run.run_bind] at hrun
  cases hwrite : (fs.host.faults 1).full with
  | true =>
    rw [syncSuperblock_of_full (by exact h.poolOk.holds_zero) (by exact hwrite), Run.andThen_done,
      if_neg (by simp), Run.run_pure] at hrun
    rw [failsCleanly_iff hrun]
    exact ⟨fun _ hcut => absurd hcut.symm Bool.false_ne_true, fun _ hfailed =>
      absurd hfailed (Option.some_ne_none _)⟩
  | false =>
    rw [syncSuperblock_of_cut (by exact hwrite), Run.andThen_done, if_pos (by decide),
      Run.run_pure] at hrun
    rw [failsCleanly_iff hrun]
    refine ⟨fun hsame => ?_, fun hfull => absurd rfl hfull⟩
    obtain ⟨⟨nodes', hc', hpool⟩, -⟩ := hsame rfl
    set fs₂ : Filesystem F := Filesystem.wrote _ _ _ with hfs₂
    have hother : ∀ m ∈ ns, fs₂.disk.block m.toNat = fs.disk.block m.toNat := fun m hm =>
      block_wrote_of_ne (by exact h.poolOk.holds_zero) _
        (h.chain.linked.ne_nil_of_mem (List.mem_cons_of_mem n hm))
    have hlinked : Linked 0 fs₂.disk.nextNode fs₂.superblock.freeBlocksHead ns := by
      refine Linked.congr h.chain.linked.2.2 fun m hm => ?_
      rw [Disk.nextNode, hother m hm, Disk.nextNode]
    obtain rfl := hc'.linked.unique hlinked
    have hn := (hpool n).mpr (mem_poolOf_of_mem List.mem_cons_self)
    rw [poolOf_congr hother] at hn
    have hnodup := h.chain.nodup
    rw [poolOf_cons] at hnodup
    exact absurd (List.mem_append_right _ hn) (List.nodup_cons.mp hnodup).1

/-- **`sfs_fs_allocate_block` fails cleanly** unless it tears the pool. -/
theorem allocateBlock_failsCleanly_iff (h : FreeLists fs nodes L) :
    FailsCleanly fs nodes L sfsFsAllocateBlock none ↔ ¬ fs.AllocateTears := by
  cases nodes with
  | nil =>
    have h0 : fs.superblock.freeBlocksHead = 0 := h.chain.linked
    have hrun : (sfsFsAllocateBlock : Fs F _).run fs = .done none fs := by
      rw [sfsFsAllocateBlock, Run.run_bind, Run.run_get, Run.andThen_done, if_pos h0, Run.run_pure]
    rw [failsCleanly_iff hrun]
    exact ⟨fun _ htears => htears.1 h0,
      fun _ _ => h.same_of_blocks rfl rfl fun _ _ => rfl⟩
  | cons n ns =>
    have hhead : fs.superblock.freeBlocksHead = n := h.chain.linked.1
    have h0 : n ≠ 0 := h.chain.linked.2.1
    have hheld := h.holds_node List.mem_cons_self
    rw [Filesystem.AllocateTears, hhead]
    cases hread : (fs.host.faults 0).full with
    | false =>
      obtain ⟨⟨ret, index⟩, hrun, hret⟩ := blockRead_of_cut hread n Block.zero
      have hdone : (sfsFsAllocateBlock : Fs F _).run fs = .done none fs.called := by
        rw [sfsFsAllocateBlock, Run.run_bind, Run.run_get, Run.andThen_done, hhead, if_neg h0,
          Run.run_bind, hrun, Run.andThen_done]
        dsimp only
        rw [if_pos hret, Run.run_pure]
      rw [failsCleanly_iff hdone]
      exact ⟨fun _ htears => absurd htears.2.1 Bool.false_ne_true,
        fun _ _ => h.same_of_blocks rfl rfl fun _ _ => rfl⟩
    | true =>
      have hrun := sfsFsAllocateBlock_of_read hhead h0 hheld hread
      cases hfind : findSlot (· ≠ 0) (fs.disk.block n.toNat) with
      | some i =>
        rw [hfind] at hrun
        rw [allocateBlock_slot_iff h hfind hrun]
        exact not_congr ⟨fun htears => ⟨h0, rfl, htears⟩, fun htears => htears.2.2⟩
      | none =>
        rw [hfind] at hrun
        rw [allocateBlock_node_iff h hrun]
        exact not_congr ⟨fun hcut => ⟨h0, rfl, hcut⟩, fun hcut => hcut.2.2⟩

end Allocate

end SimpleFileSystem
