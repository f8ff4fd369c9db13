import SimpleFileSystem.ExclusiveBlocks

/-!
# A write changes one logical block

The law that a write of a logical block should obey, over `sfs_fs_inode_block_write` and
`sfs_fs_inode_block_read` as they are: after a write that returns 0 the logical block
reads as what was written, and every other one, of every file, as it did before.

On a well-formed image a write obeys the law whichever of its ways it goes, with two
exceptions.  When it makes a block from the pool the index block of the file, the sixty-three
entries beside the one written are holes before it and the old words of that block afterwards.
`FreshIndexClean` says which old words read as holes all the same.  And a write that takes a
block which the inode names writes the inode, through a cache that keeps the number of its
block in an `int`: `LabelApart` is that no other file is hidden behind that number, which no
file is in the first `2 ^ 31` blocks (`labelApart_of_lt`).  Where none is,
`write_changes_one_logical_block` is that the law holds exactly if `FreshIndexClean` does.
-/

open ByteCodec

namespace SimpleFileSystem

variable {F : Type}

/-! ## The law -/

/-- What a logical block of `v` reads as in the first state is what that of `w` reads as
in the second. -/
def ReadsSame (fs fs' : Filesystem F) (v w : Inode) (j : UInt64) : Prop :=
  ∀ block x, Run.Ensures (sfsFsInodeBlockRead v j block) fs (fun y _ => y = x) →
    Run.Ensures (sfsFsInodeBlockRead w j block) fs' fun y _ => y = x

/-- **The law of a write** to a file of `A`, whatever is written.  The other files are read
with the inodes that they have then. -/
def WriteLaw (fs : Filesystem F) (A : List UInt64) (v : Inode) (i : UInt64) : Prop :=
  ∀ data, Run.Ensures (sfsFsInodeBlockWrite v i data) fs fun x fs' => x.1 = 0 →
    (∀ block, Run.Ensures (sfsFsInodeBlockRead x.2 i block) fs' fun y _ => y = (0, data)) ∧
    (∀ j, j ≠ i → ReadsSame fs fs' v x.2 j) ∧
    ∀ k ∈ A, k ≠ v.inumber → ∀ j, ReadsSame fs fs' (fs.logicalInode k) (fs'.logicalInode k) j

/-- Whether a write of this logical block would give the file its index block. -/
def NewIndex (v : Inode) (i : UInt64) : Prop :=
  sfsNdirBlocks ≤ i ∧ i < sfsNdirBlocks + sfsNindBlocks ∧ v.pointer 12 = 0

/-- **No other file is hidden behind the label of the cache.**  A write that takes a block
which the inode names writes the inode too.  If the cache does not have the block of the inode,
it has it then, under the number that it is as an `int`: that is the number of no block with
another file in it, unless the block that is loaded has the pointers of that file. -/
def Filesystem.LabelApart (fs : Filesystem F) (A : List UInt64) (v : Inode) (i : UInt64) : Prop :=
  i < sfsNdirBlocks ∧ v.pointer i.toNat = 0 ∨ NewIndex v i → fs.nextFree ≠ none →
    fs.cachedBlock ≠ inodeBlock v.inumber → ∀ k ∈ A, k ≠ v.inumber →
      ofCInt (toCInt (inodeBlock v.inumber)) = inodeBlock k → inodeSlot k ≠ inodeSlot v.inumber ∧
        ((fs.tableBlock (inodeBlock v.inumber)).inode (inodeSlot k)).blockPointers =
          (fs.logicalInode k).blockPointers

/-- The law in terms of what the reads fetch. -/
structure Lawful (fs fs' : Filesystem F) (A : List UInt64) (v r : Inode) (i : UInt64)
    (data : Block) : Prop where
  read : ∀ block, fs'.fetch (fs'.disk.resolve r i) block = (0, data)
  own : ∀ j, j ≠ i → ∀ block,
    fs'.fetch (fs'.disk.resolve r j) block = fs.fetch (fs.disk.resolve v j) block
  others : ∀ k ∈ A, k ≠ v.inumber → ∀ j block,
    fs'.fetch (fs'.disk.resolve (fs.logicalInode k) j) block =
      fs.fetch (fs.disk.resolve (fs.logicalInode k) j) block

section Law

variable {fs fs' : Filesystem F} {nodes A X : List UInt64} {v w r : Inode} {i j t : UInt64}

/-- A read depends on the pointers of the inode. -/
theorem readsSame_congr (h : w.blockPointers = r.blockPointers) :
    ReadsSame fs fs' v w j ↔ ReadsSame fs fs' v r j := by
  have hpointer : w.pointer = r.pointer := by
    funext e
    rw [Inode.pointer, h, Inode.pointer]
  have hread : ∀ block, (sfsFsInodeBlockRead w j block : Fs F (ℤ × Block)) =
      sfsFsInodeBlockRead r j block := by
    intro block
    rw [sfsFsInodeBlockRead, blockNumberForRead, hpointer, sfsFsInodeBlockRead, blockNumberForRead]
  simp only [ReadsSame, hread]

theorem readsSame_iff (hr : fs.Reliable) (hr' : fs'.Reliable)
    (hv : fs.superblock.IndexOk (v.pointer 12)) (hw : fs'.superblock.IndexOk (w.pointer 12)) :
    ReadsSame fs fs' v w j ↔ ∀ block,
      fs'.fetch (fs'.disk.resolve w j) block = fs.fetch (fs.disk.resolve v j) block := by
  constructor
  · intro h block
    exact (h block _ (Run.Ensures.of_eq (sfsFsInodeBlockRead_run hr hv block) rfl)).post
      (sfsFsInodeBlockRead_run hr' hw block)
  · intro h block x hx
    refine Run.Ensures.of_eq (sfsFsInodeBlockRead_run hr' hw block) ?_
    rw [h block]
    exact hx.post (sfsFsInodeBlockRead_run hr hv block)

/-- **The files that a step keeps off** read as they did. -/
theorem fetch_eq_of_dataFrame {S : UInt64 → Prop} {k : UInt64} (h : Image fs nodes A X)
    (hk : k ∈ A) (hframe : DataFrame S fs fs') (hS : ∀ x ∈ fs.ownedBy k, ¬ S x) (j : UInt64)
    (block : Block) :
    fs'.fetch (fs'.disk.resolve (fs.logicalInode k) j) block =
      fs.fetch (fs.disk.resolve (fs.logicalInode k) j) block := by
  have hblock : ∀ x ∈ fs.ownedBy k, fs'.disk.block x.toNat = fs.disk.block x.toNat := fun x hx =>
    hframe.block x (h.inRange x (Image.owned_mem hk hx)) (hS x hx)
  have hresolve : fs'.disk.resolve (fs.logicalInode k) j =
      fs.disk.resolve (fs.logicalInode k) j := by
    rw [Disk.resolve, Disk.resolve, Disk.entry, Disk.entry]
    by_cases hp : (fs.logicalInode k).pointer 12 = 0
    · rw [if_pos hp, if_pos hp]
    · rw [if_neg hp, if_neg hp, hblock _ (Image.index_mem hp)]
  rw [hresolve]
  cases hfound : fs.disk.resolve (fs.logicalInode k) j with
  | none => rfl
  | some x =>
    rw [Filesystem.fetch, Filesystem.fetch, hframe.inRange]
    by_cases hx : x = 0
    · rw [if_pos hx, if_pos hx]
    · rw [if_neg hx, if_neg hx,
        hblock x (Inode.mem_owned_of_mem_leaves (mem_leaves_of_resolve hfound hx))]

/-- In a well-formed image no read fails. -/
theorem fetch_eq_of_resolve {k x : UInt64} (h : Image fs nodes A X) (hk : k ∈ A)
    (hfound : fs.disk.resolve (fs.logicalInode k) j = some x) (hx : x ≠ 0) (block : Block) :
    fs.fetch (some x) block = (0, fs.disk.block x.toNat) := by
  have hrange := h.inRange x (Image.owned_mem hk
    (Inode.mem_owned_of_mem_leaves (mem_leaves_of_resolve hfound hx)))
  rw [Filesystem.fetch, if_neg hx, if_pos hrange]

theorem Filesystem.Current.resolve (hv : fs.Current A v) (d : Disk) :
    d.resolve v j = d.resolve (fs.logicalInode v.inumber) j := by
  rw [Disk.resolve, Disk.resolve, hv.pointer, hv.pointer]

/-- **A write into a data block of its own**, found without a new index block, obeys the
law. -/
theorem lawful_of_leaf (h : Image fs nodes A []) (hv : fs.Current A v)
    (hframe : DataFrame (fun x => x ∈ poolOf fs.disk nodes ∨ x = v.pointer 12) fs fs')
    (hp : r.pointer 12 = v.pointer 12) (ht : fs'.superblock.inRange t = true)
    (hfound : fs'.disk.resolve r i = some t)
    (hrest : ∀ j, j ≠ i → fs'.disk.resolve r j = fs.disk.resolve v j)
    (hleaf : fs.disk.resolve v i = some t ∨ t ∈ poolOf fs.disk nodes) (data : Block) :
    Lawful fs (fs'.writeBlock t data) A v r i data := by
  have hrange : fs.superblock.inRange t = true := hframe.inRange ▸ ht
  have ht0 := h.ne_zero_of_inRange hrange
  have hholds := hframe.reliable.holds (Superblock.lt_of_inRange ht)
  -- the target is not the index block, so the lookups are those of before the store
  have htp : v.pointer 12 ≠ 0 → t ≠ v.pointer 12 := by
    rintro h0 rfl
    rcases hleaf with hleaf | hleaf
    · rw [hv.resolve] at hleaf
      exact h.leaf_ne_index hv.mem hv.mem (mem_leaves_of_resolve hleaf ht0) (hv.pointer 12).symm
    · rw [hv.pointer] at h0 hleaf
      exact h.owned_notMem_pool hv.mem (Image.index_mem h0) hleaf
  have hresolve : ∀ j, (fs'.writeBlock t data).disk.resolve r j = fs'.disk.resolve r j := by
    intro j
    rw [Disk.resolve, Disk.resolve, Disk.entry, Disk.entry, hp]
    by_cases h0 : v.pointer 12 = 0
    · rw [if_pos h0, if_pos h0]
    · rw [if_neg h0, if_neg h0, Filesystem.block_writeBlock_of_ne _ hholds
        (toNat_ne_of_ne (htp h0))]
  have howned : ∀ k ∈ A, k ≠ v.inumber → t ∉ fs.ownedBy k := by
    intro k hk hne htk
    rcases hleaf with hleaf | hleaf
    · rw [hv.resolve] at hleaf
      exact h.owned_disjoint hk hv.mem hne htk
        (Inode.mem_owned_of_mem_leaves (mem_leaves_of_resolve hleaf ht0))
    · exact h.owned_notMem_pool hk htk hleaf
  have hstore : DataFrame (fun x => (x ∈ poolOf fs.disk nodes ∨ x = v.pointer 12) ∨ x = t) fs
      (fs'.writeBlock t data) :=
    (hframe.mono fun _ => Or.inl).trans ((DataFrame.of_writeBlock hframe.reliable
      (Superblock.lt_of_inRange ht) data).mono fun _ => Or.inr)
  refine ⟨fun block => ?_, fun j hj block => ?_, fun k hk hne j block => ?_⟩
  · rw [hresolve, hfound, Filesystem.fetch, if_neg ht0, if_pos (by exact ht),
      Filesystem.block_writeBlock]
  · rw [hresolve, hrest j hj, hv.resolve]
    cases hsome : fs.disk.resolve (fs.logicalInode v.inumber) j with
    | none => rfl
    | some x =>
      by_cases hx : x = 0
      · rw [Filesystem.fetch, Filesystem.fetch, if_pos hx, if_pos hx]
      have hmem := mem_leaves_of_resolve hsome hx
      have hxt : x ≠ t := by
        rintro rfl
        rcases hleaf with hleaf | hleaf
        · rw [hv.resolve] at hleaf
          refine hj (resolve_injective ?_ hx hsome hleaf)
          exact (List.nodup_append.mp (Inode.owned_perm.nodup_iff.mp (h.owned_nodup hv.mem))).2.1
        · exact h.owned_notMem_pool hv.mem (Inode.mem_owned_of_mem_leaves hmem) hleaf
      rw [fetch_eq_of_resolve h hv.mem hsome hx, Filesystem.fetch, if_neg hx, hstore.inRange,
        if_pos (h.inRange x (Image.owned_mem hv.mem (Inode.mem_owned_of_mem_leaves hmem))),
        hstore.block x (h.inRange x (Image.owned_mem hv.mem (Inode.mem_owned_of_mem_leaves hmem)))]
      rintro ((hpool | rfl) | hxt')
      · exact h.owned_notMem_pool hv.mem (Inode.mem_owned_of_mem_leaves hmem) hpool
      · exact h.leaf_ne_index hv.mem hv.mem hmem (hv.pointer 12).symm
      · exact hxt hxt'
  · refine fetch_eq_of_dataFrame h hk hstore (fun x hx hS => ?_) j block
    rcases hS with (hpool | rfl) | rfl
    · exact h.owned_notMem_pool hk hx hpool
    · have h0 := h.ne_zero_of_inRange (h.inRange _ (Image.owned_mem hk hx))
      rw [hv.pointer] at h0 hx
      exact h.owned_disjoint hk hv.mem hne hx (Image.index_mem h0)
    · exact howned k hk hne hx

end Law

/-! ## The inodes of the other files -/

section Inodes

variable {fs fs' : Filesystem F} {nodes A X : List UInt64} {v r : Inode} {i k : UInt64}
  {t : Option UInt64}

/-- In the first `2 ^ 31` blocks, block numbers are what they are. -/
theorem Image.labelApart_of_lt (h : Image fs nodes A X) (hv : fs.Current A v)
    (hint : (inodeBlock v.inumber).toNat < 2 ^ 31) : fs.LabelApart A v i := by
  intro _ _ _ k hk hne halias
  rw [ofCInt_toCInt hint] at halias
  refine ⟨fun hslot => hne ?_, ?_⟩
  · exact inode_place_injective (h.valid k hk).1 (h.valid _ hv.mem).1 halias.symm hslot
  · rw [halias, Filesystem.logicalInode]

theorem dataStep_writeBlock (hr : fs.Reliable) (ht : fs.InodeTable) {n : UInt64}
    (hn : fs.superblock.inRange n = true) (b : Block) :
    DataStep (· = n) fs (fs.writeBlock n b) := by
  refine ⟨AllocatorFrame.of_writeBlock b (hr.holds (Superblock.lt_of_inRange hn)) rfl, ?_⟩
  rintro x rfl
  exact Superblock.notInTable_of_inRange ht.inDisk hn

/-- Finding or filling an entry of an index block writes no inode. -/
theorem EntryPlan.logicalInode (hr : fs.Reliable) (ht : fs.InodeTable) (hc : FreeChain fs nodes)
    (hdata : ∀ b ∈ poolOf fs.disk nodes, fs.superblock.inRange b = true) {p : UInt64}
    (hp : fs.superblock.inRange p = true) {idx : ℕ} (plan : EntryPlan fs p idx t fs')
    (hk : fs.superblock.ValidInumber k) : fs'.logicalInode k = fs.logicalInode k := by
  rcases allocate_spec hr hc with ⟨hnone, -, hsame⟩ | ⟨n, nodes', hsome, htakes⟩
  · cases plan with
    | present => rfl
    | full => rw [hsame]
    | fresh _ m hm =>
      rw [hnone] at hm
      cases hm
  have hstep : DataStep (fun x => x = 0 ∨ x ∈ nodes ∧ x ≠ n) fs fs.afterAllocate := by
    refine ⟨htakes.frame, fun b hb hin => ?_⟩
    rcases hb with rfl | ⟨hb, -⟩
    · exact UInt64.lt_irrefl 0 hin.1
    · exact Superblock.notInTable_of_inRange ht.inDisk (hdata b (mem_poolOf_of_mem hb)) hin
  have htaken : fs.afterAllocate.logicalInode k = fs.logicalInode k := hstep.logicalInode ht hk
  cases plan with
  | present => rfl
  | full => exact htaken
  | fresh h m hm =>
    have ht' := hstep.inodeTable ht
    have hvalid : fs.afterAllocate.superblock.ValidInumber k := by
      rw [Superblock.ValidInumber, hstep.frame.inodes]
      exact hk
    have hwrite := dataStep_writeBlock (hstep.frame.reliable hr) ht' (n := p)
      (by rw [hstep.inRange]; exact hp) (Block.setWord (fs.disk.block p.toNat) idx m)
    exact (hwrite.logicalInode ht' hvalid).trans htaken

/-- **The other files keep their pointers** in a write of the inode `r` of a file. -/
theorem Image.pointers_withInode (h : Image fs nodes A X) (hr : r.inumber ∈ A) (hk : k ∈ A)
    (hlabel : fs.cachedBlock ≠ inodeBlock r.inumber →
      ofCInt (toCInt (inodeBlock r.inumber)) = inodeBlock k → inodeSlot k ≠ inodeSlot r.inumber ∧
        ((fs.tableBlock (inodeBlock r.inumber)).inode (inodeSlot k)).blockPointers =
          (fs.logicalInode k).blockPointers) (hne : k ≠ r.inumber) :
    ((fs.withInode r).logicalInode k).blockPointers = (fs.logicalInode k).blockPointers := by
  have hpos := (h.valid k hk).1
  have hpos' := (h.valid _ hr).1
  by_cases hhit : fs.cachedBlock = inodeBlock r.inumber
  · rw [Filesystem.withInode, Filesystem.afterCache, if_pos hhit,
      logicalInode_setCachedInode hpos' hhit hpos, Function.update_of_ne hne]
  · rw [logicalInode_withInode h.state hpos' hhit hpos]
    split
    · next halias =>
      obtain ⟨hslot, hpointers⟩ := hlabel hhit halias
      rw [Block.inode_setInode_of_ne _ _ (Ne.symm hslot), hpointers]
    · rfl

/-- **Whichever way a write goes**, the other files keep their pointers. -/
theorem WritePlan.pointers_kept (h : Image fs nodes A []) (hv : fs.Current A v)
    (hlabel : fs.LabelApart A v i) (plan : WritePlan fs v i r t fs') (hk : k ∈ A)
    (hne : k ≠ v.inumber) :
    (fs'.logicalInode k).blockPointers = (fs.logicalInode k).blockPointers := by
  have hvalid := h.valid k hk
  have hpool : ∀ b ∈ poolOf fs.disk nodes, fs.superblock.inRange b = true := fun b hb =>
    h.inRange b (Image.mem_census.mpr (Or.inl hb))
  -- the block is taken, and what the cache has and would load is as it was
  have htaken : ∀ {n}, fs.nextFree = some n → i < sfsNdirBlocks ∧ v.pointer i.toNat = 0 ∨
      NewIndex v i → fs.afterAllocate.logicalInode k = fs.logicalInode k ∧
      (fs.afterAllocate.cachedBlock ≠ inodeBlock v.inumber →
        ofCInt (toCInt (inodeBlock v.inumber)) = inodeBlock k →
          inodeSlot k ≠ inodeSlot v.inumber ∧
          ((fs.afterAllocate.tableBlock (inodeBlock v.inumber)).inode (inodeSlot k)).blockPointers =
            (fs.afterAllocate.logicalInode k).blockPointers) := by
    intro n hn hwrites
    obtain ⟨nodes', -, -, hstep⟩ := h.allocate_some hn
    have hin := h.state.table.inTable (h.valid _ hv.mem)
    have hblock : fs.afterAllocate.tableBlock (inodeBlock v.inumber) =
        fs.tableBlock (inodeBlock v.inumber) := by
      rw [Filesystem.tableBlock, hstep.cachedBlock, hstep.frame.inodeCache,
        hstep.block fun hS => hstep.off _ hS hin, Filesystem.tableBlock]
    have hsame := hstep.logicalInode h.state.table hvalid
    refine ⟨hsame, fun hmiss halias => ?_⟩
    rw [hblock, hsame]
    rw [hstep.cachedBlock] at hmiss
    exact hlabel hwrites (by rw [hn]; exact Option.some_ne_none n) hmiss k hk hne halias
  cases plan with
  | beyond => rfl
  | direct => rfl
  | directFull _ _ hfull => rw [h.allocate_none hfull]
  | directFresh hi h0 n hn =>
    obtain ⟨nodes', -, himage, -⟩ := h.allocate_some hn
    obtain ⟨hsame, hlabel'⟩ := htaken hn (Or.inl ⟨hi, h0⟩)
    rw [himage.pointers_withInode (r := v.setPointer i.toNat n) hv.mem hk hlabel' hne, hsame]
  | entry h12 h76 h0 t fs' plan =>
    rw [plan.logicalInode h.state.reliable h.state.table h.chain hpool (hv.indexOk h h0) hvalid]
  | indexFull _ _ _ hfull => rw [h.allocate_none hfull]
  | newIndex h12 h76 h0 n hn t fs' plan =>
    obtain ⟨nodes₁, -, himage, hstep⟩ := h.allocate_some hn
    obtain ⟨nodes', hchain, hperm, hdata, hsuper, -⟩ := afterIndex_spec h v hn
    obtain ⟨hsame, hlabel'⟩ := htaken hn (Or.inr ⟨UInt64.not_lt.mp h12, h76, h0⟩)
    have htable : (fs.afterIndex v n).InodeTable := by
      have htable' := himage.state.table
      refine ⟨?_, ?_⟩
      · rw [hsuper]
        exact htable'.inodes_le
      · rw [hsuper]
        exact htable'.inDisk
    have hinode : ((fs.afterIndex v n).logicalInode k).blockPointers =
        (fs.logicalInode k).blockPointers := by
      rw [Filesystem.afterIndex, himage.ticked.pointers_withInode
        (r := v.withIndex n (fs.afterAllocate.host.clock 0)) hv.mem hk hlabel' hne]
      exact congrArg Inode.blockPointers hsame
    rw [plan.logicalInode hdata.reliable htable hchain ?_ ?_ ?_, hinode]
    · intro b hb
      rw [hdata.inRange]
      exact hpool b (hperm.mem_iff.mpr (List.mem_cons_of_mem n hb))
    · rw [hdata.inRange]
      exact h.nextFree_inRange hn
    · rw [Superblock.ValidInumber, hsuper, hstep.frame.inodes]
      exact hvalid

end Inodes

/-! ## Writes without a new index block -/

section Plain

variable {fs fs' : Filesystem F} {nodes A : List UInt64} {v r : Inode} {i t : UInt64}

/-- A lookup in a file whose direct pointer has been set. -/
theorem resolve_setPointer {d : Disk} {n : UInt64} (hi : i < sfsNdirBlocks) (j : UInt64)
    (hj : j ≠ i) : d.resolve (v.setPointer i.toNat n) j = d.resolve v j := by
  have hi12 := toNat_lt_of_direct hi
  rw [Disk.resolve, Disk.resolve, Inode.pointer_setPointer_of_ne _ _ (by omega : i.toNat ≠ 12),
    Inode.pointer_setPointer_of_ne _ _ (toNat_ne_of_ne (Ne.symm hj))]

/-- A lookup depends on the disk through the index block only. -/
theorem resolve_congr {d d' : Disk} (j : UInt64)
    (h : v.pointer 12 ≠ 0 → d'.block (v.pointer 12).toNat = d.block (v.pointer 12).toNat) :
    d'.resolve v j = d.resolve v j := by
  rw [Disk.resolve, Disk.resolve, Disk.entry, Disk.entry]
  by_cases h0 : v.pointer 12 = 0
  · rw [if_pos h0, if_pos h0]
  · rw [if_neg h0, if_neg h0, h h0]

/-- Setting an entry of the index block changes the lookup of one logical block. -/
theorem resolve_setWord {d d' : Disk} {n : UInt64} (h12 : ¬ i < sfsNdirBlocks) {p : UInt64}
    (hp : v.pointer 12 = p)
    (hblock : d'.block p.toNat =
      Block.setWord (d.block p.toNat) (i - sfsNdirBlocks).toNat n) (j : UInt64)
    (hj : j ≠ i) : d'.resolve v j = d.resolve v j := by
  rw [Disk.resolve, Disk.resolve, Disk.entry, Disk.entry, hp]
  by_cases hj12 : j < sfsNdirBlocks
  · rw [if_pos hj12, if_pos hj12]
  rw [if_neg hj12, if_neg hj12, hblock,
    Block.word_setWord_of_ne _ _ (toNat_entry_ne h12 hj12 (Ne.symm hj))]

/-- **Every write that does not give a file its index block obeys the law.** -/
theorem WritePlan.lawful (h : Image fs nodes A []) (hv : fs.Current A v)
    (hplain : ¬ NewIndex v i) (hplan : WritePlan fs v i r (some t) fs')
    (ht : fs'.superblock.inRange t = true) (data : Block) :
    Lawful fs (fs'.writeBlock t data) A v r i data := by
  have hframe := hplan.dataFrame h hv
  cases hplan with
  | direct hi h0 =>
    have hfound : fs.disk.resolve v i = some (v.pointer i.toNat) := by
      rw [Disk.resolve, if_pos hi]
    exact lawful_of_leaf h hv hframe rfl ht hfound (fun _ _ => rfl) (Or.inl hfound) data
  | directFresh hi h0 n hn =>
    have hi12 := toNat_lt_of_direct hi
    have hp : (v.setPointer i.toNat t).pointer 12 = v.pointer 12 :=
      Inode.pointer_setPointer_of_ne _ _ (by omega)
    refine lawful_of_leaf h hv hframe hp ht ?_ (fun j hj => ?_) (Or.inr (h.nextFree_mem hn)) data
    · rw [Disk.resolve, if_pos hi, Inode.pointer_setPointer _ _ (by omega)]
    · rw [resolve_setPointer hi j hj]
      -- the allocator and the inode table do not touch the index block
      obtain ⟨nodes', -, himage, hstep⟩ := h.allocate_some hn
      refine resolve_congr j fun h0 => ?_
      rw [himage.block_of_tableFrame (withInode_frame himage.state _), hv.index_block h h0]
      rw [hstep.inRange]
      exact hv.indexOk h h0
  | entry h12 h76 h0 _ fs' plan =>
    generalize hsome : some t = found at plan
    cases plan with
    | present hword =>
      rw [Option.some.inj hsome] at ht ⊢
      have hfound : fs.disk.resolve v i =
          some (Block.word (fs.disk.block (v.pointer 12).toNat) (i - sfsNdirBlocks).toNat) := by
        rw [Disk.resolve, if_neg h12, if_pos h76, Disk.entry, if_neg h0]
      exact lawful_of_leaf h hv hframe rfl ht hfound (fun _ _ => rfl) (Or.inl hfound) data
    | full => exact absurd hsome (Option.some_ne_none t)
    | fresh hword n hn =>
      rw [Option.some.inj hsome] at ht ⊢
      have hset : (fs.afterAllocate.writeBlock (v.pointer 12) (Block.setWord
          (fs.disk.block (v.pointer 12).toNat) (i - sfsNdirBlocks).toNat n)).disk.block
            (v.pointer 12).toNat =
          Block.setWord (fs.disk.block (v.pointer 12).toNat) (i - sfsNdirBlocks).toNat n :=
        Filesystem.block_writeBlock _ _ _
      refine lawful_of_leaf h hv hframe rfl ht ?_ (fun j hj => ?_)
        (Or.inr (h.nextFree_mem hn)) data
      · rw [Disk.resolve, if_neg h12, if_pos h76, Disk.entry, if_neg h0, hset,
          Block.word_setWord _ _ (toNat_entry_lt h12 h76)]
      · exact resolve_setWord h12 rfl hset j hj
  | newIndex h12 h76 h0 => exact absurd ⟨UInt64.not_lt.mp h12, h76, h0⟩ hplain

end Plain

/-! ## Writes that make a block an index block -/

/-- **What the old words must be** for the write of entry `e` of the new index block `n`,
which goes to the block `t`, to obey the law: `t` is not in use, and every other word is
zero or names another block that is all zeros on `d`. -/
structure Filesystem.IndexClean (fs : Filesystem F) (A : List UInt64) (e : ℕ) (n t : UInt64)
    (words : Block) (d : Disk) : Prop where
  target_ne : t ≠ n
  unused : ∀ k ∈ A, t ∉ fs.ownedBy k
  holes : ∀ j < 64, j ≠ e → Block.word words j = 0 ∨
    (fs.superblock.inRange (Block.word words j) = true ∧ Block.word words j ≠ n ∧
      Block.word words j ≠ t ∧ d.block (Block.word words j).toNat = Block.zero)

section NewIndex

variable {fs fs' : Filesystem F} {nodes A : List UInt64} {v r : Inode} {i n t : UInt64}

/-- The block number 1 is that of a block of the inode table, if there is an inode. -/
theorem Image.one_notInRange (h : Image fs nodes A []) {k : UInt64} (hk : k ∈ A) :
    ¬ fs.superblock.inRange 1 = true := by
  intro h1
  have hlt := toNat_lt_of_inRange h.state.table.inDisk h1
  have hinodes := h.state.table.inodes_le
  have hpos := UInt64.lt_iff_toNat_lt.mp (h.valid k hk).1
  have hle := UInt64.le_iff_toNat_le.mp (h.valid k hk).2
  have h1' : (1 : UInt64).toNat = 1 := rfl
  have h0 : (0 : UInt64).toNat = 0 := rfl
  omega

/-- There is another block than a given one. -/
theorem exists_block_ne (b : Block) : ∃ b', b' ≠ b := by
  have : Nontrivial UInt8 := ⟨0, 1, by decide⟩
  exact exists_ne b

/-- The state in which the data of a write through a new index block is stored. -/
structure NewIndexState (fs fs' : Filesystem F) (nodes A : List UInt64) (v r : Inode)
    (i n t : UInt64) : Prop where
  image : Image fs nodes A []
  current : fs.Current A v
  newIndex : NewIndex v i
  pool : n ∈ poolOf fs.disk nodes
  frame : DataFrame (fun x => x ∈ poolOf fs.disk nodes ∨ x = v.pointer 12) fs fs'
  inode : r.pointer = (v.setPointer 12 n).pointer
  word : Block.word (fs'.disk.block n.toNat) (i - sfsNdirBlocks).toNat = t
  inRange : fs'.superblock.inRange t = true

namespace NewIndexState

theorem ne_zero (h : NewIndexState fs fs' nodes A v r i n t) : n ≠ 0 :=
  h.image.chain.ne_zero h.pool

theorem inRange' (h : NewIndexState fs fs' nodes A v r i n t) : fs.superblock.inRange t = true :=
  h.frame.inRange ▸ h.inRange

theorem target_ne_zero (h : NewIndexState fs fs' nodes A v r i n t) : t ≠ 0 :=
  h.image.ne_zero_of_inRange h.inRange'

theorem holds (h : NewIndexState fs fs' nodes A v r i n t) : fs'.disk.Holds t :=
  h.frame.reliable.holds (Superblock.lt_of_inRange h.inRange)

/-- A lookup of the inode afterwards. -/
theorem resolve (h : NewIndexState fs fs' nodes A v r i n t) (d : Disk) (j : UInt64) :
    d.resolve r j =
      if j < sfsNdirBlocks then some (v.pointer j.toNat)
      else if j < sfsNdirBlocks + sfsNindBlocks then
        some (Block.word (d.block n.toNat) (j - sfsNdirBlocks).toNat)
      else none := by
  rw [Disk.resolve, h.inode, Inode.pointer_setPointer _ _ (by decide), Disk.entry,
    if_neg h.ne_zero]
  by_cases hj : j < sfsNdirBlocks
  · have hj12 := toNat_lt_of_direct hj
    rw [if_pos hj, if_pos hj, Inode.pointer_setPointer_of_ne _ _ (by omega)]
  · rw [if_neg hj, if_neg hj]

/-- A lookup of the inode before. -/
theorem resolve_before (h : NewIndexState fs fs' nodes A v r i n t) (j : UInt64) :
    fs.disk.resolve v j =
      if j < sfsNdirBlocks then some (v.pointer j.toNat)
      else if j < sfsNdirBlocks + sfsNindBlocks then some 0 else none := by
  rw [Disk.resolve, Disk.entry, if_pos h.newIndex.2.2]

theorem block_index (h : NewIndexState fs fs' nodes A v r i n t) (hne : t ≠ n) (data : Block) :
    (fs'.writeBlock t data).disk.block n.toNat = fs'.disk.block n.toNat :=
  Filesystem.block_writeBlock_of_ne _ h.holds (toNat_ne_of_ne hne)

/-- The step to the state after the data has been stored. -/
theorem frame_store (h : NewIndexState fs fs' nodes A v r i n t) (data : Block) :
    DataFrame (fun x => (x ∈ poolOf fs.disk nodes ∨ x = v.pointer 12) ∨ x = t) fs
      (fs'.writeBlock t data) :=
  (h.frame.mono fun _ => Or.inl).trans ((DataFrame.of_writeBlock h.frame.reliable
    (Superblock.lt_of_inRange h.inRange) data).mono fun _ => Or.inr)

/-- The blocks of the files that the write keeps off. -/
theorem notTouched (h : NewIndexState fs fs' nodes A v r i n t) {k x : UInt64} (hk : k ∈ A)
    (hx : x ∈ fs.ownedBy k) : ¬ (x ∈ poolOf fs.disk nodes ∨ x = v.pointer 12) := by
  rintro (hpool | rfl)
  · exact h.image.owned_notMem_pool hk hx hpool
  · exact h.image.ne_zero_of_inRange (h.image.inRange _ (Image.owned_mem hk hx)) h.newIndex.2.2

/-- **The law from the condition.** -/
theorem lawful (h : NewIndexState fs fs' nodes A v r i n t)
    (hclean : fs.IndexClean A (i - sfsNdirBlocks).toNat n t (fs'.disk.block n.toNat) fs'.disk)
    (data : Block) : Lawful fs (fs'.writeBlock t data) A v r i data := by
  obtain ⟨hge, h76, hp⟩ := h.newIndex
  have h12 := UInt64.not_lt.mpr hge
  have hrange : (fs'.writeBlock t data).superblock.inRange = fs.superblock.inRange :=
    (h.frame_store data).inRange
  have hkeep : ∀ k ∈ A, ∀ x ∈ fs.ownedBy k,
      ¬ ((x ∈ poolOf fs.disk nodes ∨ x = v.pointer 12) ∨ x = t) := by
    rintro k hk x hx (hx' | rfl)
    · exact h.notTouched hk hx hx'
    · exact hclean.unused k hk hx
  refine ⟨fun block => ?_, fun j hj block => ?_, fun k hk _ j block =>
    fetch_eq_of_dataFrame h.image hk (h.frame_store data) (hkeep k hk) j block⟩
  · rw [h.resolve, if_neg h12, if_pos h76, h.block_index hclean.target_ne, h.word,
      Filesystem.fetch, if_neg h.target_ne_zero, if_pos (by exact h.inRange),
      Filesystem.block_writeBlock]
  · by_cases hj12 : j < sfsNdirBlocks
    · -- a direct block
      have hsame := fetch_eq_of_dataFrame h.image h.current.mem (h.frame_store data)
        (hkeep _ h.current.mem) j block
      rw [← h.current.resolve, ← h.current.resolve, h.resolve_before, Disk.resolve,
        if_pos hj12] at hsame
      rw [h.resolve, h.resolve_before, if_pos hj12, hsame]
    by_cases hj76 : j < sfsNdirBlocks + sfsNindBlocks
    · -- a hole, and after it an old word
      have hne := toNat_entry_ne hj12 h12 hj
      rw [h.resolve, h.resolve_before, if_neg hj12, if_neg hj12, if_pos hj76, if_pos hj76,
        h.block_index hclean.target_ne]
      rcases hclean.holes _ (toNat_entry_lt hj12 hj76) hne with hzero | ⟨hin, -, hxt, hblock⟩
      · rw [hzero]
        rfl
      · rw [Filesystem.fetch, if_neg (h.image.ne_zero_of_inRange hin), hrange, if_pos hin,
          Filesystem.block_writeBlock_of_ne _ h.holds (toNat_ne_of_ne (Ne.symm hxt)), hblock]
        rfl
    · rw [h.resolve, h.resolve_before, if_neg hj12, if_neg hj12, if_neg hj76, if_neg hj76]
      rfl

/-- What a data block reads as after the store. -/
theorem fetch_store (h : NewIndexState fs fs' nodes A v r i n t) (data : Block) {x : UInt64}
    (hx : x ≠ 0) (block : Block) : (fs'.writeBlock t data).fetch (some x) block =
      if fs.superblock.inRange x then (0, (fs'.writeBlock t data).disk.block x.toNat)
      else (-1, block) := by
  rw [Filesystem.fetch, if_neg hx, (h.frame_store data).inRange]

/-- **Data stored in the index block** would be read as block numbers. -/
theorem target_ne (h : NewIndexState fs fs' nodes A v r i n t)
    (hlaw : ∀ data, Lawful fs (fs'.writeBlock t data) A v r i data) : t ≠ n := by
  rintro rfl
  obtain ⟨hge, h76, -⟩ := h.newIndex
  have h12 := UInt64.not_lt.mpr hge
  have hread := (hlaw (Block.zero.setWord (i - sfsNdirBlocks).toNat 1)).read Block.zero
  rw [h.resolve, if_neg h12, if_pos h76, Filesystem.block_writeBlock,
    Block.word_setWord _ _ (toNat_entry_lt h12 h76), h.fetch_store _ (by decide),
    if_neg (h.image.one_notInRange h.current.mem)] at hread
  have hret : (-1 : ℤ) = 0 := congrArg Prod.fst hread
  exact absurd hret (by decide)

/-- **Data stored in an index block of another file** would be read as block numbers. -/
theorem target_ne_index (h : NewIndexState fs fs' nodes A v r i n t)
    (hlaw : ∀ data, Lawful fs (fs'.writeBlock t data) A v r i data) {k : UInt64} (hk : k ∈ A) :
    (fs.logicalInode k).pointer 12 ≠ t := by
  intro hp
  have hp0 : (fs.logicalInode k).pointer 12 ≠ 0 := hp ▸ h.target_ne_zero
  have hne : k ≠ v.inumber := by
    rintro rfl
    exact hp0 ((h.current.pointer 12).symm.trans h.newIndex.2.2)
  have hsame := (hlaw (Block.zero.setWord 0 1)).others k hk hne 12 Block.zero
  have hentry : ∀ d : Disk, d.resolve (fs.logicalInode k) 12 =
      some (Block.word (d.block t.toNat) 0) := fun d => by
    rw [Disk.resolve, if_neg (by decide), if_pos (by decide), Disk.entry, if_neg hp0, hp]
    rfl
  have hbefore : (fs.fetch (fs.disk.resolve (fs.logicalInode k) 12) Block.zero).1 = 0 := by
    rw [hentry]
    by_cases hx : Block.word (fs.disk.block t.toNat) 0 = 0
    · rw [hx]
      rfl
    · rw [fetch_eq_of_resolve h.image hk (hentry fs.disk) hx]
  rw [← hsame, hentry, Filesystem.block_writeBlock, Block.word_setWord _ _ (by decide),
    h.fetch_store _ (by decide), if_neg (h.image.one_notInRange h.current.mem)] at hbefore
  exact absurd hbefore (by decide)

/-- **Data stored in a data block of a file** would be read in another place too. -/
theorem target_ne_leaf (h : NewIndexState fs fs' nodes A v r i n t)
    (hlaw : ∀ data, Lawful fs (fs'.writeBlock t data) A v r i data) {k : UInt64} (hk : k ∈ A) :
    t ∉ (fs.logicalInode k).leaves fs.disk := by
  intro hleaf
  obtain ⟨j, hj⟩ := exists_resolve_of_mem_leaves hleaf
  obtain ⟨data, hdata⟩ := exists_block_ne (fs.disk.block t.toNat)
  have hbefore := fetch_eq_of_resolve h.image hk hj h.target_ne_zero Block.zero
  have hafter : (fs'.writeBlock t data).fetch (some t) Block.zero = (0, data) := by
    rw [h.fetch_store _ h.target_ne_zero, if_pos h.inRange', Filesystem.block_writeBlock]
  have hdiff : (fs'.writeBlock t data).fetch (some t) Block.zero ≠
      fs.fetch (some t) Block.zero := by
    rw [hbefore, hafter]
    exact fun e => hdata (congrArg Prod.snd e)
  by_cases hne : k = v.inumber
  · subst hne
    rw [← h.current.resolve, h.resolve_before] at hj
    have hj12 : j < sfsNdirBlocks := by
      by_contra hj12
      rw [if_neg hj12] at hj
      split at hj
      · exact h.target_ne_zero (Option.some.inj hj).symm
      · exact nomatch hj
    have hji : j ≠ i := by
      rintro rfl
      exact UInt64.not_lt.mpr h.newIndex.1 hj12
    have hsame := (hlaw data).own j hji Block.zero
    rw [if_pos hj12] at hj
    rw [h.resolve, if_pos hj12, h.resolve_before, if_pos hj12, hj] at hsame
    exact hdiff hsame
  · have hsame := (hlaw data).others k hk hne j Block.zero
    have hresolve : (fs'.writeBlock t data).disk.resolve (fs.logicalInode k) j = some t := by
      rw [← hj]
      refine resolve_congr j fun h0 => (h.frame_store data).block _ (h.image.index_inRange hk h0) ?_
      rintro (htouch | htouch)
      · exact h.notTouched hk (Image.index_mem h0) htouch
      · exact h.image.leaf_ne_index hk hk hleaf htouch
    rw [hresolve, hj] at hsame
    exact hdiff hsame

/-- **An old word** is a hole, or names a block of zeros. -/
theorem hole (h : NewIndexState fs fs' nodes A v r i n t)
    (hlaw : ∀ data, Lawful fs (fs'.writeBlock t data) A v r i data) {e : ℕ} (he : e < 64)
    (hne : e ≠ (i - sfsNdirBlocks).toNat) (hx : Block.word (fs'.disk.block n.toNat) e ≠ 0) :
    fs.superblock.inRange (Block.word (fs'.disk.block n.toNat) e) = true ∧
      Block.word (fs'.disk.block n.toNat) e ≠ n ∧ Block.word (fs'.disk.block n.toNat) e ≠ t ∧
      fs'.disk.block (Block.word (fs'.disk.block n.toNat) e).toNat = Block.zero := by
  have htarget := h.target_ne hlaw
  obtain ⟨j, hj12, hj76, rfl⟩ := exists_entry he
  have hji : j ≠ i := fun e => hne (by rw [e])
  -- after the write the logical block must read as zeros
  have hread : ∀ data, (fs'.writeBlock t data).fetch
      (some (Block.word (fs'.disk.block n.toNat) (j - sfsNdirBlocks).toNat)) Block.zero =
        (0, Block.zero) := fun data => by
    have hsame := (hlaw data).own j hji Block.zero
    rw [h.resolve, h.resolve_before, if_neg hj12, if_neg hj12, if_pos hj76, if_pos hj76,
      h.block_index htarget] at hsame
    exact hsame
  have hrange : fs.superblock.inRange
      (Block.word (fs'.disk.block n.toNat) (j - sfsNdirBlocks).toNat) = true := by
    by_contra hout
    have hret := hread Block.zero
    rw [h.fetch_store _ hx, if_neg hout] at hret
    have hret' : (-1 : ℤ) = 0 := congrArg Prod.fst hret
    exact absurd hret' (by decide)
  have hzero : ∀ data, (fs'.writeBlock t data).disk.block
      (Block.word (fs'.disk.block n.toNat) (j - sfsNdirBlocks).toNat).toNat = Block.zero :=
    fun data => by
      have hret := hread data
      rw [h.fetch_store _ hx, if_pos hrange] at hret
      exact congrArg Prod.snd hret
  have hxt : Block.word (fs'.disk.block n.toNat) (j - sfsNdirBlocks).toNat ≠ t := by
    intro hxt
    obtain ⟨data, hdata⟩ := exists_block_ne Block.zero
    have hret := hzero data
    rw [hxt, Filesystem.block_writeBlock] at hret
    exact hdata hret
  refine ⟨hrange, fun hxn => ?_, hxt, ?_⟩
  · have hret := hzero Block.zero
    rw [hxn, h.block_index htarget] at hret
    rw [hret, Block.word_zero] at hx
    exact hx rfl
  · rw [← hzero Block.zero, Filesystem.block_writeBlock_of_ne _ h.holds
      (toNat_ne_of_ne (Ne.symm hxt))]

/-- **The condition from the law.** -/
theorem clean (h : NewIndexState fs fs' nodes A v r i n t)
    (hlaw : ∀ data, Lawful fs (fs'.writeBlock t data) A v r i data) :
    fs.IndexClean A (i - sfsNdirBlocks).toNat n t (fs'.disk.block n.toNat) fs'.disk where
  target_ne := h.target_ne hlaw
  unused k hk htk := by
    rcases List.mem_append.mp (Inode.owned_perm.mem_iff.mp htk) with hindex | hleaf
    · obtain ⟨-, j, hj, hp⟩ := mem_nonzero.mp hindex
      rw [List.mem_singleton.mp hj] at hp
      exact h.target_ne_index hlaw hk hp
    · exact h.target_ne_leaf hlaw hk hleaf
  holes e he hne := by
    by_cases hx : Block.word (fs'.disk.block n.toNat) e = 0
    · exact Or.inl hx
    · exact Or.inr (h.hole hlaw he hne hx)

end NewIndexState

/-- The condition looks at the other words, and at the data blocks that they name. -/
theorem Filesystem.IndexClean.congr {e : ℕ} {words words' : Block} {d d' : Disk}
    (h : fs.IndexClean A e n t words d)
    (hwords : ∀ j, j ≠ e → Block.word words' j = Block.word words j)
    (hblock : ∀ x, fs.superblock.inRange x = true → x ≠ n →
      d'.block x.toNat = d.block x.toNat) : fs.IndexClean A e n t words' d' where
  target_ne := h.target_ne
  unused := h.unused
  holes j hj hne := by
    rw [hwords j hne]
    refine (h.holes j hj hne).imp id ?_
    rintro ⟨hin, hxn, hxt, hzero⟩
    exact ⟨hin, hxn, hxt, (hblock _ hin hxn).trans hzero⟩

end NewIndex

/-! ## The law holds exactly when the condition does -/

/-- **The condition on a write**: if it makes the block `n` from the pool the index
block of the file, then the old words of `n` are clean for the block that the write goes
to.  That is the block that the old entry names, or if there is none the next one from
the pool. -/
def Filesystem.FreshIndexClean (fs : Filesystem F) (A : List UInt64) (v : Inode) (i : UInt64) :
    Prop :=
  NewIndex v i → ∀ n, fs.nextFree = some n →
    let words := fs.disk.block n.toNat
    let e := (i - sfsNdirBlocks).toNat
    (Block.word words e ≠ 0 → fs.superblock.inRange (Block.word words e) = true →
      fs.IndexClean A e n (Block.word words e) words fs.afterAllocate.disk) ∧
    (Block.word words e = 0 → ∀ m, fs.afterAllocate.nextFree = some m →
      fs.IndexClean A e n m words fs.afterAllocate.afterAllocate.disk)

section Main

variable {fs fs' : Filesystem F} {nodes A : List UInt64} {v r : Inode} {i n : UInt64}

theorem store_returns_zero {t : Option UInt64} {data : Block} (h : (fs.store t data).1 = 0) :
    ∃ x, t = some x ∧ fs.superblock.inRange x = true := by
  cases t with
  | none => exact absurd (show (-1 : ℤ) = 0 from h) (by decide)
  | some x =>
    refine ⟨x, rfl, ?_⟩
    by_contra hout
    rw [Filesystem.store, if_neg hout] at h
    exact absurd (show (-1 : ℤ) = 0 from h) (by decide)

/-- The law is one about where the write goes. -/
theorem writeLaw_iff {t : Option UInt64} (h : Image fs nodes A []) (hv : fs.Current A v)
    (hlabel : fs.LabelApart A v i) (hplan : WritePlan fs v i r t fs')
    (hrun : ∀ data, (sfsFsInodeBlockWrite v i data).run fs =
      .done ((fs'.store t data).1, r) (fs'.store t data).2) :
    WriteLaw fs A v i ↔ ∀ x, t = some x → fs'.superblock.inRange x = true →
      ∀ data, Lawful fs (fs'.writeBlock x data) A v r i data := by
  have hr := h.state.reliable
  have hframe := hplan.dataFrame h hv
  have hother : ∀ k ∈ A, fs.superblock.IndexOk ((fs.logicalInode k).pointer 12) := fun k hk h0 =>
    h.index_inRange hk h0
  have hstore : ∀ x, fs'.superblock.inRange x = true → ∀ data,
      fs'.store (some x) data = (0, fs'.writeBlock x data) := fun x hx data => if_pos hx
  have hreliable : ∀ x, fs'.superblock.inRange x = true → ∀ data,
      (fs'.writeBlock x data).Reliable := fun x hx data =>
    (DataFrame.of_writeBlock hframe.reliable (Superblock.lt_of_inRange hx) data).reliable
  have hok : ∀ {p x data}, fs.superblock.IndexOk p →
      (fs'.writeBlock x data).superblock.IndexOk p := fun {p x data} hp h0 => by
    show fs'.superblock.inRange p = true
    rw [hframe.inRange]
    exact hp h0
  have hindex := hplan.indexOk h hv
  have hkept : ∀ x, fs'.superblock.inRange x = true → ∀ data, ∀ k ∈ A, k ≠ v.inumber →
      ((fs'.writeBlock x data).logicalInode k).blockPointers =
        (fs.logicalInode k).blockPointers := by
    intro x hx data k hk hne
    have hin := h.state.table.inTable (h.valid k hk)
    have hxk : x ≠ inodeBlock k := by
      rintro rfl
      rw [hframe.inRange] at hx
      exact Superblock.notInTable_of_inRange h.state.table.inDisk hx hin
    rw [logicalInode_writeBlock data (hframe.reliable.holds (Superblock.lt_of_inRange hx)) hxk,
      hplan.pointers_kept h hv hlabel hk hne]
  constructor
  · rintro hlaw x rfl hx data
    have hpost := (hlaw data).post (hrun data)
    rw [hstore x hx data] at hpost
    obtain ⟨hread, hown, hothers⟩ := hpost rfl
    have hx' := hreliable x hx data
    refine ⟨fun block => ?_, fun j hj => ?_, fun k hk hne j => ?_⟩
    · exact (hread block).post (sfsFsInodeBlockRead_run hx' (hok hindex) block)
    · exact (readsSame_iff hr hx' (hv.indexOk h) (hok hindex)).mp (hown j hj)
    · exact (readsSame_iff hr hx' (hother k hk) (hok (hother k hk))).mp
        ((readsSame_congr (hkept x hx data k hk hne)).mp (hothers k hk hne j))
  · intro hlaw data
    refine Run.Ensures.of_eq (hrun data) fun hret => ?_
    obtain ⟨x, rfl, hx⟩ := store_returns_zero hret
    obtain ⟨hread, hown, hothers⟩ := hlaw x rfl hx data
    have hx' := hreliable x hx data
    rw [hstore x hx data]
    refine ⟨fun block => ?_, fun j hj => ?_, fun k hk hne j => ?_⟩
    · exact Run.Ensures.of_eq (sfsFsInodeBlockRead_run hx' (hok hindex) block) (hread block)
    · exact (readsSame_iff hr hx' (hv.indexOk h) (hok hindex)).mpr (hown j hj)
    · exact (readsSame_congr (hkept x hx data k hk hne)).mpr
        ((readsSame_iff hr hx' (hother k hk) (hok (hother k hk))).mpr (hothers k hk hne j))

/-- What the data blocks hold once the file has its index block. -/
theorem afterIndex_block (h : Image fs nodes A []) (v : Inode) (hn : fs.nextFree = some n) :
    (fs.afterIndex v n).nextFree = fs.afterAllocate.nextFree ∧
      ∀ x, fs.superblock.inRange x = true →
        (fs.afterIndex v n).disk.block x.toNat = fs.afterAllocate.disk.block x.toNat ∧
        (fs.afterIndex v n).afterAllocate.disk.block x.toNat =
          fs.afterAllocate.afterAllocate.disk.block x.toNat := by
  obtain ⟨nodes', -, himage, hstep⟩ := h.allocate_some hn
  have hframe : TableFrame fs.afterAllocate.ticked (fs.afterIndex v n) :=
    withInode_frame himage.ticked.state _
  refine ⟨?_, fun x hx => ?_⟩
  · rw [himage.ticked.nextFree_of_tableFrame hframe, ticked_nextFree]
  have hx' : fs.afterAllocate.ticked.superblock.inRange x = true := by
    rw [show fs.afterAllocate.ticked.superblock.inRange = _ from hstep.inRange]
    exact hx
  refine ⟨himage.ticked.block_of_tableFrame hframe hx', ?_⟩
  rw [himage.ticked.block_afterAllocate_of_tableFrame hframe hx', ticked_afterAllocate]
  rfl

theorem holds_afterIndex (h : Image fs nodes A []) (v : Inode) (hn : fs.nextFree = some n) :
    (fs.afterIndex v n).afterAllocate.disk.Holds n := by
  obtain ⟨nodes', hchain, -, hframe, -⟩ := afterIndex_spec h v hn
  have hlt : n < (fs.afterIndex v n).superblock.blocks := Superblock.lt_of_inRange
    (by rw [hframe.inRange]; exact h.nextFree_inRange hn)
  rcases allocate_spec hframe.reliable hchain with ⟨-, -, hsame⟩ | ⟨m, nodes'', -, htakes⟩
  · rw [hsame]
    exact hframe.reliable.holds hlt
  · exact (htakes.frame.reliable hframe.reliable).holds (by rw [htakes.frame.blocks]; exact hlt)

/-- The law of a write through a new index block, in terms of the old words and of the
blocks that they name. -/
theorem newIndex_iff {x : UInt64} {d : Disk} (h : Image fs nodes A []) (hv : fs.Current A v)
    (hnew : NewIndex v i) (hn : fs.nextFree = some n) (hr : r.pointer = (v.setPointer 12 n).pointer)
    (hplan : WritePlan fs v i r (some x) fs')
    (hword : Block.word (fs'.disk.block n.toNat) (i - sfsNdirBlocks).toNat = x)
    (hwords : ∀ j, j ≠ (i - sfsNdirBlocks).toNat →
      Block.word (fs'.disk.block n.toNat) j = Block.word (fs.disk.block n.toNat) j)
    (hblock : ∀ y, fs.superblock.inRange y = true → y ≠ n →
      fs'.disk.block y.toNat = d.block y.toNat) :
    (∀ y, some x = some y → fs'.superblock.inRange y = true →
      ∀ data, Lawful fs (fs'.writeBlock y data) A v r i data) ↔
    (fs.superblock.inRange x = true →
      fs.IndexClean A (i - sfsNdirBlocks).toNat n x (fs.disk.block n.toNat) d) := by
  have hframe := hplan.dataFrame h hv
  have hstate : fs'.superblock.inRange x = true → NewIndexState fs fs' nodes A v r i n x :=
    fun hx => ⟨h, hv, hnew, h.nextFree_mem hn, hframe, hr, hword, hx⟩
  constructor
  · intro hlaw hx
    have hx' : fs'.superblock.inRange x = true := by
      rw [hframe.inRange]
      exact hx
    exact ((hstate hx').clean (hlaw x rfl hx')).congr (fun j hj => (hwords j hj).symm)
      fun y hy hyn => (hblock y hy hyn).symm
  · rintro hclean y hy hin data
    cases Option.some.inj hy
    exact (hstate hin).lawful ((hclean (hframe.inRange ▸ hin)).congr hwords hblock) data

theorem writeLaw_iff_freshIndexClean (h : Image fs nodes A []) (hv : fs.Current A v)
    (hlabel : fs.LabelApart A v i) : WriteLaw fs A v i ↔ fs.FreshIndexClean A v i := by
  obtain ⟨r, t, fs', hplan, hrun⟩ := sfsFsInodeBlockWrite_run h hv i
  rw [writeLaw_iff h hv hlabel hplan hrun]
  by_cases hnew : NewIndex v i
  · have hnew' := hnew
    obtain ⟨hge, h76, h0⟩ := hnew'
    cases hplan with
    | beyond hi => exact absurd h76 hi
    | direct hi => exact absurd hi (UInt64.not_lt.mpr hge)
    | directFull hi => exact absurd hi (UInt64.not_lt.mpr hge)
    | directFresh hi => exact absurd hi (UInt64.not_lt.mpr hge)
    | entry _ _ hp => exact absurd h0 hp
    | indexFull _ _ _ hfull =>
      refine ⟨fun _ _ n hn => ?_, fun _ x hx => nomatch hx⟩
      exact absurd (hn.symm.trans hfull) (Option.some_ne_none n)
    | newIndex _ _ _ n hn t fs' plan =>
      have hn0 := h.ne_zero_of_inRange (h.nextFree_inRange hn)
      obtain ⟨hnext, hblock⟩ := afterIndex_block h v hn
      obtain ⟨nodes', -, himage, hstep⟩ := h.allocate_some hn
      -- the new index block has its old words
      have hold : fs.afterAllocate.disk.block n.toNat = fs.disk.block n.toNat :=
        hstep.block fun hS => hS.elim hn0 fun hS => hS.2 rfl
      have hwords : (fs.afterIndex v n).disk.block n.toNat = fs.disk.block n.toNat :=
        (hblock n (h.nextFree_inRange hn)).1.trans hold
      have hpointer : (v.withIndex n (fs.afterAllocate.host.clock 0)).pointer =
        (v.setPointer 12 n).pointer := rfl
      have hcond : fs.FreshIndexClean A v i ↔
          (Block.word (fs.disk.block n.toNat) (i - sfsNdirBlocks).toNat ≠ 0 →
            fs.superblock.inRange
              (Block.word (fs.disk.block n.toNat) (i - sfsNdirBlocks).toNat) = true →
            fs.IndexClean A (i - sfsNdirBlocks).toNat n
              (Block.word (fs.disk.block n.toNat) (i - sfsNdirBlocks).toNat)
              (fs.disk.block n.toNat) fs.afterAllocate.disk) ∧
          (Block.word (fs.disk.block n.toNat) (i - sfsNdirBlocks).toNat = 0 →
            ∀ m, fs.afterAllocate.nextFree = some m →
            fs.IndexClean A (i - sfsNdirBlocks).toNat n m (fs.disk.block n.toNat)
              fs.afterAllocate.afterAllocate.disk) :=
        ⟨fun hc => hc hnew n hn, fun hc _ n' hn' => by cases hn.symm.trans hn'; exact hc⟩
      rw [hcond]
      have hplan' := WritePlan.newIndex (UInt64.not_lt.mpr hge) h76 h0 n hn t fs' plan
      cases plan with
      | present hword =>
        refine (newIndex_iff h hv hnew hn hpointer hplan' rfl (fun j _ => by rw [hwords])
          fun y hy _ => (hblock y hy).1).trans ?_
        rw [hwords] at hword ⊢
        exact ⟨fun hc => ⟨fun _ => hc, fun h0 => absurd h0 hword⟩, fun hc => hc.1 hword⟩
      | full hword hfull =>
        rw [hwords] at hword
        refine ⟨fun _ => ⟨fun h0 => absurd hword h0, fun _ m hm => ?_⟩, fun _ x hx => nomatch hx⟩
        exact absurd (hm.symm.trans (hnext.symm.trans hfull)) (Option.some_ne_none m)
      | fresh hword m hm =>
        have hholds : (fs.afterIndex v n).afterAllocate.disk.Holds n :=
          holds_afterIndex h v hn
        refine (newIndex_iff (d := fs.afterAllocate.afterAllocate.disk) h hv hnew hn hpointer
          hplan' ?_ (fun j hj => ?_) fun y hy hyn => ?_).trans ?_
        · rw [Filesystem.block_writeBlock,
            Block.word_setWord _ _ (toNat_entry_lt (UInt64.not_lt.mpr hge) h76)]
        · rw [Filesystem.block_writeBlock, Block.word_setWord_of_ne _ _ (Ne.symm hj), hwords]
        · rw [Filesystem.block_writeBlock_of_ne _ hholds (toNat_ne_of_ne (Ne.symm hyn))]
          exact (hblock y hy).2
        · rw [hwords] at hword
          rw [hnext] at hm
          have hrange : fs.superblock.inRange m = true := by
            rw [← hstep.inRange]
            exact himage.nextFree_inRange hm
          refine ⟨fun hc => ⟨fun h0 => absurd hword h0, fun _ m' hm' => ?_⟩,
            fun hc _ => hc.2 hword m hm⟩
          cases hm.symm.trans hm'
          exact hc hrange
  · refine ⟨fun _ hn => absurd hn hnew, fun _ x hx hin data => ?_⟩
    rw [hx] at hplan
    exact hplan.lawful h hv hnew hin data

/-- **A write changes one logical block** exactly if the condition holds: on every
well-formed image, for the inode of every allocated file and every logical block, where the
label of the inode cache hides no other file. -/
theorem write_changes_one_logical_block (h : Image fs nodes A []) (hv : fs.Current A v)
    (hlabel : fs.LabelApart A v i) : WriteLaw fs A v i ↔ fs.FreshIndexClean A v i :=
  writeLaw_iff_freshIndexClean h hv hlabel

end Main

/-- A write of a direct block. -/
theorem write_changes_one_logical_block_direct : WriteLaw staleNode [2] emptyTwo 0 :=
  (write_changes_one_logical_block smallDisk_stale.image smallDisk_stale.current
    (smallDisk_stale.image.labelApart_of_lt smallDisk_stale.current (by decide))).mpr
      fun hnew => absurd hnew.1 (by decide)

/-- **A write fills a hole.**  The index block that the write of logical block 13 makes
has the old word 4 in its first entry, and block 4 is also the one that the data goes to:
the logical block 12, a hole before the write, reads as the data after it. -/
theorem write_fills_a_hole :
    Image staleNode [3, 4] [2] [] ∧ staleNode.Current [2] emptyTwo ∧
      ¬ WriteLaw staleNode [2] emptyTwo 13 := by
  have himage := smallDisk_stale.image
  refine ⟨himage, smallDisk_stale.current, fun hlaw => ?_⟩
  have hword : ∀ j, j ≠ 0 → Block.word (staleNode.disk.block (3 : UInt64).toNat) j = 0 :=
    fun j hj => by
      rw [staleNode_block, Block.word_setWord_of_ne _ _ (Ne.symm hj), Block.word_zero]
  have hword0 : Block.word (staleNode.disk.block (3 : UInt64).toNat) 0 = 4 := by
    rw [staleNode_block, Block.word_setWord _ _ (by decide)]
  have hslots : Block.slots (staleNode.disk.block (3 : UInt64).toNat) = [] := by
    rw [staleNode_block, Block.slots_setWord_zero, Block.slots_zero]
  obtain ⟨hnext, hafter⟩ := allocate_of_slots_eq_nil smallDisk_stale.head (by decide) hslots
  have hnext' : staleNode.afterAllocate.nextFree = some 4 := by
    have hblock : (staleNode.withHead 4).disk.block (4 : UInt64).toNat = Block.zero := by
      rw [block_withHead _ (by decide), staleNode_block_four]
    rw [hafter, hword0]
    exact (allocate_of_slots_eq_nil (withHead_head 4) (by decide)
      (by rw [hblock]; exact Block.slots_zero)).1
  have hlabel : staleNode.LabelApart [2] emptyTwo 13 :=
    himage.labelApart_of_lt smallDisk_stale.current (by decide)
  have hclean := ((writeLaw_iff_freshIndexClean himage smallDisk_stale.current hlabel).mp hlaw
    ⟨by decide, by decide, emptyTwo_pointer 12⟩ 3 hnext).2 (hword 1 (by decide)) 4 hnext'
  rcases hclean.holes 0 (by decide) (by decide) with hzero | ⟨-, -, htarget, -⟩
  · exact absurd (hword0.symm.trans hzero) (by decide)
  · exact htarget hword0

end SimpleFileSystem
