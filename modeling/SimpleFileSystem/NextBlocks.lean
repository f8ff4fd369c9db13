import SimpleFileSystem.WriteFrame

/-!
# The blocks that are handed out next

`sfs_write` goes over the blocks of a range, and some of them it has to take from the free
blocks first.  When it is past the direct blocks and the file has no index block, the next one
that is handed out becomes the index block, and `fs.c` relies on its being blank.

Which block that is can be told before the first block is written: it comes after those that
fill the holes of the range among the direct blocks (`Filesystem.IndexReady`).  For what
`sfs_write` does in between, the data that it writes and the inode, is not in the chain of free
blocks (`SamePool`).
-/

namespace SimpleFileSystem

variable {F : Type}

/-! ## States with the same free blocks -/

/-- **The same pool**: the chain of free blocks is where it was, and they hold what they held. -/
structure SamePool (nodes : List UInt64) (fs fs' : Filesystem F) : Prop where
  reliable : fs'.Reliable
  head : fs'.superblock.freeBlocksHead = fs.superblock.freeBlocksHead
  blocks : fs'.superblock.blocks = fs.superblock.blocks
  block : ∀ b ∈ poolOf fs.disk nodes, fs'.disk.block b.toNat = fs.disk.block b.toNat

/-- The block that is handed out next names no blocks. -/
def Filesystem.NextBlank (fs : Filesystem F) : Prop :=
  ∀ n, fs.nextFree = some n → fs.disk.indexEntries n = []

section Pool

variable {fs fs' : Filesystem F} {nodes A X : List UInt64}

theorem poolOf_of_samePool (h : SamePool nodes fs fs') :
    poolOf fs'.disk nodes = poolOf fs.disk nodes :=
  poolOf_congr fun n hn => h.block n (mem_poolOf_of_mem hn)

theorem SamePool.chain (h : SamePool nodes fs fs') (hc : FreeChain fs nodes) :
    FreeChain fs' nodes where
  linked := by
    rw [h.head]
    refine hc.linked.congr fun n hn => ?_
    rw [Disk.nextNode, h.block n (mem_poolOf_of_mem hn), Disk.nextNode]
  nodup := by
    rw [poolOf_of_samePool h]
    exact hc.nodup
  inDisk b hb := by
    rw [poolOf_of_samePool h] at hb
    rw [h.blocks]
    exact hc.inDisk b hb

theorem SamePool.nextFree (h : SamePool nodes fs fs') (hc : FreeChain fs nodes) :
    fs'.nextFree = fs.nextFree := by
  rw [Filesystem.nextFree, Filesystem.nextFree, h.head]
  cases nodes with
  | nil =>
    have h0 : fs.superblock.freeBlocksHead = 0 := hc.linked
    rw [if_pos h0, if_pos h0]
  | cons n ns =>
    have hhead : fs.superblock.freeBlocksHead = n := hc.linked.1
    rw [hhead, h.block n (mem_poolOf_of_mem List.mem_cons_self)]

theorem mem_pool_of_nextFree (hr : fs.Reliable) (hc : FreeChain fs nodes) {n : UInt64}
    (hn : fs.nextFree = some n) : n ∈ poolOf fs.disk nodes := by
  obtain ⟨hnone, -⟩ | ⟨m, nodes', hsome, htakes⟩ := allocate_spec hr hc
  · exact absurd (hn.symm.trans hnone) (Option.some_ne_none n)
  · cases hn.symm.trans hsome
    exact htakes.perm.mem_iff.mpr List.mem_cons_self

theorem SamePool.nextBlank (h : SamePool nodes fs fs') (hr : fs.Reliable) (hc : FreeChain fs nodes)
    (hblank : fs.NextBlank) : fs'.NextBlank := by
  intro n hn
  rw [h.nextFree hc] at hn
  rw [Disk.indexEntries, h.block n (mem_pool_of_nextFree hr hc hn)]
  exact hblank n hn

/-- **Taking a block** from two equal pools leaves equal pools. -/
theorem SamePool.afterAllocate (h : SamePool nodes fs fs') (hr : fs.Reliable)
    (hc : FreeChain fs nodes) :
    ∃ nodes', fs.afterAllocate.Reliable ∧ FreeChain fs.afterAllocate nodes' ∧
      SamePool nodes' fs.afterAllocate fs'.afterAllocate := by
  have hc' := h.chain hc
  cases nodes with
  | nil =>
    have h0 : fs.superblock.freeBlocksHead = 0 := hc.linked
    have hsame : fs.afterAllocate = fs := if_pos h0
    have hsame' : fs'.afterAllocate = fs' := if_pos (h.head.trans h0)
    rw [hsame, hsame']
    exact ⟨[], hr, hc, h⟩
  | cons n ns =>
    have hhead : fs.superblock.freeBlocksHead = n := hc.linked.1
    have h0 : n ≠ 0 := hc.linked.2.1
    have hlt := hc.node_lt List.mem_cons_self
    have hn := h.block n (mem_poolOf_of_mem List.mem_cons_self)
    simp only [Filesystem.afterAllocate, h.head, hhead, if_neg h0, hn]
    cases hi : findSlot (· ≠ 0) (fs.disk.block n.toNat) with
    | some i =>
      have htakes := poolTakes_slot hr hc hi
      have htakes' := poolTakes_slot h.reliable hc' (hn ▸ hi)
      rw [hn] at htakes'
      refine ⟨n :: ns, htakes.frame.reliable hr, htakes.chain, htakes'.frame.reliable h.reliable,
        ?_, ?_, fun b hb => ?_⟩
      · exact h.head
      · exact h.blocks
      · by_cases hbn : b = n
        · rw [hbn, Filesystem.block_writeBlock, Filesystem.block_writeBlock]
        · have hne := toNat_ne_of_ne (Ne.symm hbn)
          rw [Filesystem.block_writeBlock_of_ne _ (hr.holds hlt) hne,
            Filesystem.block_writeBlock_of_ne _ (h.reliable.holds (h.blocks ▸ hlt)) hne]
          exact h.block b (htakes.perm.mem_iff.mpr (List.mem_cons_of_mem _ hb))
    | none =>
      have htakes := poolTakes_node hr hc hi
      have htakes' := poolTakes_node h.reliable hc' (hn ▸ hi)
      rw [hn] at htakes'
      refine ⟨ns, htakes.frame.reliable hr, htakes.chain, htakes'.frame.reliable h.reliable, rfl,
        ?_, fun b hb => ?_⟩
      · rw [withHead_blocks, withHead_blocks, h.blocks]
      · have hb0 : b.toNat ≠ 0 := toNat_ne_of_ne (htakes.chain.ne_zero hb)
        rw [block_withHead _ hb0, block_withHead _ hb0]
        exact h.block b (htakes.perm.mem_iff.mpr (List.mem_cons_of_mem _ hb))

/-- So does taking any number of blocks, and the next one is the same. -/
theorem SamePool.nextBlank_iterate (m : ℕ) (h : SamePool nodes fs fs') (hr : fs.Reliable)
    (hc : FreeChain fs nodes) (hblank : (Filesystem.afterAllocate^[m] fs).NextBlank) :
    (Filesystem.afterAllocate^[m] fs').NextBlank := by
  induction m generalizing fs fs' nodes with
  | zero => exact h.nextBlank hr hc hblank
  | succ m ih =>
    obtain ⟨nodes', hr', hc', h'⟩ := h.afterAllocate hr hc
    rw [Function.iterate_succ_apply] at hblank ⊢
    exact ih h' hr' hc' hblank

theorem SamePool.of_tableFrame (h : Image fs nodes A X) (hframe : TableFrame fs fs') :
    SamePool nodes fs fs' where
  reliable := hframe.reliable h.state.reliable
  head := by rw [hframe.superblock]
  blocks := by rw [hframe.superblock]
  block b hb := h.block_of_tableFrame hframe (h.inRange b (Image.mem_census.mpr (Or.inl hb)))

/-- A block that is not free is written. -/
theorem SamePool.writeBlock {b : UInt64} (h : SamePool nodes fs fs')
    (hb : b < fs.superblock.blocks) (hfree : b ∉ poolOf fs.disk nodes) (data : Block) :
    SamePool nodes fs (fs'.writeBlock b data) := by
  have hholds := h.reliable.holds (h.blocks ▸ hb)
  have hsize := Filesystem.size_writeBlock data hholds
  refine ⟨⟨h.reliable.noFaults, ?_, ?_⟩, h.head, h.blocks, fun n hn => ?_⟩
  · rw [hsize]
    exact h.reliable.covers
  · rw [hsize]
    exact h.reliable.addressable
  · rw [Filesystem.block_writeBlock_of_ne _ hholds (toNat_ne_of_ne fun e => hfree (e ▸ hn))]
    exact h.block n hn

end Pool

/-! ## The block that becomes the index block -/

/-- How many of the direct blocks from `i` on are holes. -/
def Inode.holesFrom (v : Inode) (i : ℕ) : ℕ :=
  (List.range' i (12 - i)).countP fun j => v.pointer j = 0

/-- **The block that becomes the index block**, when the blocks from `i` to `last` of a file
are written one after the other, is blank. -/
def Filesystem.IndexReady (fs : Filesystem F) (v : Inode) (i last : UInt64) : Prop :=
  v.pointer 12 = 0 → sfsNdirBlocks ≤ last →
    (Filesystem.afterAllocate^[v.holesFrom i.toNat] fs).NextBlank

section Index

variable {fs fs' : Filesystem F} {nodes A : List UInt64} {v r : Inode} {i last : UInt64} {j : ℕ}

theorem holesFrom_of_le (v : Inode) (hj : 12 ≤ j) : v.holesFrom j = 0 := by
  rw [Inode.holesFrom, Nat.sub_eq_zero_of_le hj, List.range'_zero, List.countP_nil]

theorem holesFrom_succ (v : Inode) (hj : j < 12) :
    v.holesFrom j = v.holesFrom (j + 1) + if v.pointer j = 0 then 1 else 0 := by
  rw [Inode.holesFrom, show 12 - j = (12 - (j + 1)) + 1 by omega, List.range'_succ,
    List.countP_cons, Inode.holesFrom]
  simp only [decide_eq_true_eq]

/-- A hole that is filled before. -/
theorem holesFrom_setPointer (v : Inode) (n : UInt64) :
    (v.setPointer j n).holesFrom (j + 1) = v.holesFrom (j + 1) := by
  refine List.countP_congr fun k hk => ?_
  have hk := List.mem_range'_1.mp hk
  rw [Inode.pointer_setPointer_of_ne _ _ (by omega)]

theorem Filesystem.IndexReady.blankIndex (h : fs.IndexReady v i last) (hi : i ≤ last) :
    fs.BlankIndex v i := by
  rintro ⟨h12, h76, h0⟩
  have hready := h h0 (UInt64.le_trans h12 hi)
  rw [holesFrom_of_le v (UInt64.le_iff_toNat_le.mp h12)] at hready
  exact hready

/-- In a state with the same free blocks, for an inode with the same blocks. -/
theorem Filesystem.IndexReady.of_samePool (h : fs.IndexReady v i last)
    (himage : Image fs nodes A []) (hsame : SamePool nodes fs fs')
    (hpointers : r.blockPointers = v.blockPointers) : fs'.IndexReady r i last := by
  have hpointer : r.pointer = v.pointer := funext fun j => by
    rw [Inode.pointer, hpointers, Inode.pointer]
  intro h0 hlast
  rw [Inode.holesFrom, hpointer]
  rw [hpointer] at h0
  exact hsame.nextBlank_iterate _ himage.state.reliable himage.chain (h h0 hlast)

/-- **After a block has been written** the same holds for the next one. -/
theorem WritePlan.indexReady {x : UInt64} (h : Image fs nodes A []) (hv : fs.Current A v)
    (plan : WritePlan fs v i r (some x) fs') (hready : fs.IndexReady v i last) (data : Block)
    (hi : (i + 1).toNat = i.toNat + 1) : (fs'.writeBlock x data).IndexReady r (i + 1) last := by
  cases plan with
  | direct hlt h0 =>
    intro hindex hlast
    have hready := hready hindex hlast
    rw [holesFrom_succ v (toNat_lt_of_direct hlt), if_neg h0, Nat.add_zero, ← hi] at hready
    have howned := Inode.pointer_mem_owned (d := fs.disk)
      (Nat.lt_succ_of_lt (toNat_lt_of_direct hlt)) h0
    rw [hv.owned] at howned
    have hrange := h.inRange _ (Image.owned_mem hv.mem howned)
    have hsame : SamePool nodes fs (fs.writeBlock (v.pointer i.toNat) data) :=
      (SamePool.of_tableFrame h (TableFrame.refl fs)).writeBlock (Superblock.lt_of_inRange hrange)
        (h.owned_notMem_pool hv.mem howned) data
    exact hsame.nextBlank_iterate _ h.state.reliable h.chain hready
  | directFresh hlt h0 _ hn =>
    intro hindex hlast
    have h12 := toNat_lt_of_direct hlt
    rw [Inode.pointer_setPointer_of_ne _ _ (by omega)] at hindex
    have hready := hready hindex hlast
    rw [holesFrom_succ v h12, if_pos h0, Function.iterate_succ_apply] at hready
    rw [hi, holesFrom_setPointer]
    obtain ⟨nodes', hperm, himage, -⟩ := h.allocate_some hn
    have hfree : x ∉ poolOf fs.afterAllocate.disk nodes' :=
      (List.nodup_cons.mp (hperm.nodup_iff.mp h.chain.nodup)).1
    have hrange : fs.afterAllocate.superblock.inRange x = true :=
      himage.inRange x (Image.mem_census.mpr (Or.inr (Or.inl List.mem_cons_self)))
    have hsame := (SamePool.of_tableFrame himage (withInode_frame himage.state
      (v.setPointer i.toNat x))).writeBlock (Superblock.lt_of_inRange hrange) hfree data
    exact hsame.nextBlank_iterate _ himage.state.reliable himage.chain hready
  | entry _ _ h0 => exact fun hindex => absurd hindex h0
  | newIndex _ _ _ n hn =>
    intro hindex
    rw [Inode.withIndex_pointer, Inode.pointer_setPointer _ _ (by decide)] at hindex
    exact absurd hindex (h.ne_zero_of_inRange (h.nextFree_inRange hn))

end Index

end SimpleFileSystem
