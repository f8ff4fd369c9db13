import SimpleFileSystem.DirectoryGrowth

/-!
# What a write of a logical block leaves alone

`WriteLaw` says what the blocks of the files read as after a write that succeeds.  A client
that goes on has to know more: what became of the inodes, and what the blocks read as after
a write that fails, which may have taken a block all the same.  `Wrote` is all of that for
one call of `sfs_fs_inode_block_write`.

The condition is the one that the code relies on without seeing to it: a block that becomes
an index block holds zeros (`Filesystem.BlankIndex`).  It implies both of the exact
conditions, that of the census and that of the law.
-/

open ByteCodec

namespace SimpleFileSystem

variable {F : Type}

/-- What the logical block `i` of the file `k` reads as. -/
def Filesystem.fileBlock (fs : Filesystem F) (k i : UInt64) : Block :=
  (fs.fetch (fs.disk.resolve (fs.logicalInode k) i) Block.zero).2

/-- **A block that becomes an index block holds zeros.** -/
def Filesystem.BlankIndex (fs : Filesystem F) (v : Inode) (i : UInt64) : Prop :=
  NewIndex v i → ∀ n, fs.nextFree = some n → fs.disk.indexEntries n = []

/-! ## The condition -/

section Blank

variable {fs : Filesystem F} {nodes A X : List UInt64} {v : Inode} {i n : UInt64}

theorem Filesystem.BlankIndex.freshIndexOk (h : fs.BlankIndex v i) (A : List UInt64) :
    fs.FreshIndexOk A v i := by
  intro h12 h76 h0 n hn
  rw [h ⟨h12, h76, h0⟩ n hn]
  exact ⟨List.nodup_nil, fun b hb => absurd hb List.not_mem_nil⟩

/-- The words of a blank block. -/
theorem word_of_indexEntries_eq_nil {d : Disk} (hn : n ≠ 0) (h : d.indexEntries n = []) {j : ℕ}
    (hj : j < 64) : Block.word (d.block n.toNat) j = 0 := by
  rw [Disk.indexEntries, if_neg hn] at h
  by_contra hword
  have hmem : Block.word (d.block n.toNat) j ∈
      nonzero (Block.word (d.block n.toNat)) (List.range 64) :=
    mem_nonzero.mpr ⟨hword, j, List.mem_range.mpr hj, rfl⟩
  rw [h] at hmem
  exact absurd hmem List.not_mem_nil

theorem Filesystem.BlankIndex.freshIndexClean (h : fs.BlankIndex v i)
    (himage : Image fs nodes A []) : fs.FreshIndexClean A v i := by
  intro hnew n hn
  have hn0 := himage.ne_zero_of_inRange (himage.nextFree_inRange hn)
  have hwords : ∀ j < 64, Block.word (fs.disk.block n.toNat) j = 0 := fun j hj =>
    word_of_indexEntries_eq_nil hn0 (h hnew n hn) hj
  have he : (i - sfsNdirBlocks).toNat < 64 := toNat_entry_lt (UInt64.not_lt.mpr hnew.1) hnew.2.1
  refine ⟨fun hword => absurd (hwords _ he) hword, fun _ m hm => ?_⟩
  obtain ⟨nodes', hperm, himage', hstep⟩ := himage.allocate_some hn
  have hmem := himage'.nextFree_mem hm
  have hpool : m ∈ poolOf fs.disk nodes := hperm.mem_iff.mpr (List.mem_cons_of_mem n hmem)
  refine ⟨?_, fun k hk hm => himage.owned_notMem_pool hk hm hpool, fun j hj _ =>
    Or.inl (hwords j hj)⟩
  rintro rfl
  exact (List.nodup_cons.mp (hperm.nodup_iff.mp himage.chain.nodup)).1 hmem

end Blank

/-! ## The inodes -/

/-- The block pointers and the change time of an inode may be others. -/
def Inode.Remapped (v r : Inode) : Prop :=
  r = { v with blockPointers := r.blockPointers, changeTime := r.changeTime }

namespace Inode.Remapped

variable {v r : Inode}

theorem refl (v : Inode) : v.Remapped v := rfl

theorem inumber (h : v.Remapped r) : r.inumber = v.inumber := by
  rw [h]

theorem size (h : v.Remapped r) : r.size = v.size := by
  rw [h]

theorem links (h : v.Remapped r) : r.links = v.links := by
  rw [h]

theorem mode (h : v.Remapped r) : r.mode = v.mode := by
  rw [h]

end Inode.Remapped

/-- **What became of the inodes**: that of the file was written if it changed, and no other
was. -/
structure InodesWrote (fs fs' : Filesystem F) (v r : Inode) : Prop where
  remapped : v.Remapped r
  stored : v = fs.logicalInode v.inumber → fs'.logicalInode v.inumber = r
  others : ∀ j, fs.superblock.ValidInumber j → j ≠ v.inumber →
    fs'.logicalInode j = fs.logicalInode j

section Inodes

variable {fs fs' : Filesystem F} {nodes A X : List UInt64} {v r : Inode} {i : UInt64}
  {t : Option UInt64}

theorem InodesWrote.of_same (hv : fs.superblock.ValidInumber v.inumber)
    (h : ∀ j, fs.superblock.ValidInumber j → fs'.logicalInode j = fs.logicalInode j) :
    InodesWrote fs fs' v v :=
  ⟨Inode.Remapped.refl v, fun e => (h _ hv).trans e.symm, fun j hj _ => h j hj⟩

/-- **Whichever way a write goes**, only the inode of the file is written. -/
theorem WritePlan.inodes (h : Image fs nodes A X) (hv : fs.Current A v)
    (hint : (inodeBlock v.inumber).toNat < 2 ^ 31) (plan : WritePlan fs v i r t fs') :
    InodesWrote fs fs' v r := by
  have hvalid := h.valid _ hv.mem
  have hpool : ∀ b ∈ poolOf fs.disk nodes, fs.superblock.inRange b = true := fun b hb =>
    h.inRange b (Image.mem_census.mpr (Or.inl hb))
  have hnone : fs.nextFree = none → InodesWrote fs fs.afterAllocate v v := fun hfull =>
    InodesWrote.of_same hvalid fun j _ => by rw [h.allocate_none hfull]
  cases plan with
  | beyond => exact InodesWrote.of_same hvalid fun _ _ => rfl
  | direct => exact InodesWrote.of_same hvalid fun _ _ => rfl
  | directFull _ _ hfull => exact hnone hfull
  | directFresh hi h0 n hn =>
    obtain ⟨nodes', -, himage, hstep⟩ := h.allocate_some hn
    have hvalid' := himage.valid _ hv.mem
    obtain ⟨-, -, -, hset, hsame⟩ :=
      (sfsFsWriteInode_ensures (v := v.setPointer i.toNat n) himage.state hvalid' hint).post
        (sfsFsWriteInode_run himage.state hvalid')
    exact ⟨rfl, fun _ => hset, fun j hj hne =>
      (hsame j hj.1 hne).trans (hstep.logicalInode h.state.table hj)⟩
  | entry h12 h76 h0 t fs' plan =>
    exact InodesWrote.of_same hvalid fun j hj =>
      plan.logicalInode h.state.reliable h.state.table h.chain hpool (hv.indexOk h h0) hj
  | indexFull _ _ _ hfull => exact hnone hfull
  | newIndex h12 h76 h0 n hn t fs' plan =>
    obtain ⟨nodes₁, -, himage, hstep⟩ := h.allocate_some hn
    have hvalid' : fs.afterAllocate.ticked.superblock.ValidInumber
        (v.withIndex n (fs.afterAllocate.host.clock 0)).inumber := himage.valid _ hv.mem
    obtain ⟨-, hstate, hframe, hset, hsame⟩ :=
      (sfsFsWriteInode_ensures (v := v.withIndex n (fs.afterAllocate.host.clock 0))
        himage.ticked.state hvalid' hint).post (sfsFsWriteInode_run himage.ticked.state hvalid')
    replace hstate : InodeState (fs.afterIndex v n) := hstate
    obtain ⟨nodes', hchain, hperm, hdata, -, -⟩ := afterIndex_spec h v hn
    have hinodes : (fs.afterIndex v n).superblock.inodes = fs.superblock.inodes := by
      rw [show (fs.afterIndex v n).superblock = _ from hframe.superblock]
      exact hstep.frame.inodes
    have hentry : ∀ j, fs.superblock.ValidInumber j →
        fs'.logicalInode j = (fs.afterIndex v n).logicalInode j := fun j hj => by
      refine plan.logicalInode hstate.reliable hstate.table hchain (fun b hb => ?_) ?_ ?_
      · rw [hdata.inRange]
        exact hpool b (hperm.mem_iff.mpr (List.mem_cons_of_mem n hb))
      · rw [hdata.inRange]
        exact h.nextFree_inRange hn
      · rw [Superblock.ValidInumber, hinodes]
        exact hj
    refine ⟨rfl, fun _ => (hentry _ hvalid).trans hset, fun j hj hne => (hentry j hj).trans ?_⟩
    exact (hsame j hj.1 hne).trans (hstep.logicalInode h.state.table hj)

end Inodes

/-! ## The blocks of the files -/

/-- **What a call of `sfs_fs_inode_block_write` leaves**, whether it succeeds or not. -/
structure Wrote (fs : Filesystem F) (A : List UInt64) (v : Inode) (i : UInt64) (data : Block)
    (answer : ℤ × Inode) (fs' : Filesystem F) : Prop where
  image : ∃ nodes', Image fs' nodes' A []
  current : fs'.Current A answer.2
  settled : Settled fs fs'
  inodes : InodesWrote fs fs' v answer.2
  ret : answer.1 = 0 ∨ answer.1 = -1
  written : answer.1 = 0 → i < sfsNdirBlocks + sfsNindBlocks ∧ fs'.fileBlock v.inumber i = data
  own : ∀ j, (answer.1 = 0 → j ≠ i) → fs'.fileBlock v.inumber j = fs.fileBlock v.inumber j
  files : ∀ k ∈ A, k ≠ v.inumber → ∀ j, fs'.fileBlock k j = fs.fileBlock k j

section Blocks

variable {fs fs' : Filesystem F} {nodes A : List UInt64} {v r : Inode} {i : UInt64}
  {t : Option UInt64}

/-- What a block of a file reads as, with the caller's copy of its inode. -/
theorem Filesystem.Current.fileBlock (hv : fs.Current A v) (j : UInt64) :
    fs.fileBlock v.inumber j = (fs.fetch (fs.disk.resolve v j) Block.zero).2 := by
  rw [Filesystem.fileBlock, hv.resolve]

/-- Blocks of a file that are found where they were. -/
theorem fetch_eq_of_resolve_eq {S : UInt64 → Prop} (h : Image fs nodes A []) (hv : fs.Current A v)
    (hframe : DataFrame S fs fs') (hS : ∀ x ∈ v.leaves fs.disk, ¬ S x) {j : UInt64}
    (hresolve : fs'.disk.resolve r j = fs.disk.resolve v j) (block : Block) :
    fs'.fetch (fs'.disk.resolve r j) block = fs.fetch (fs.disk.resolve v j) block := by
  rw [hresolve]
  cases hfound : fs.disk.resolve v j with
  | none => rfl
  | some x =>
    rw [Filesystem.fetch, Filesystem.fetch, hframe.inRange]
    by_cases hx : x = 0
    · rw [if_pos hx, if_pos hx]
    · have hleaf := mem_leaves_of_resolve hfound hx
      have hrange : fs.superblock.inRange x = true := by
        rw [hv.leaves] at hleaf
        exact h.inRange x (Image.owned_mem hv.mem (Inode.mem_owned_of_mem_leaves hleaf))
      rw [if_neg hx, if_neg hx, hframe.block x hrange (hS x hleaf)]

/-- **A write that finds no block** leaves what the file reads as, if a block that became its
index block is blank. -/
theorem WritePlan.fetch_of_none (h : Image fs nodes A []) (hv : fs.Current A v)
    (hblank : fs.BlankIndex v i) (plan : WritePlan fs v i r none fs') (j : UInt64) (block : Block) :
    fs'.fetch (fs'.disk.resolve r j) block = fs.fetch (fs.disk.resolve v j) block := by
  cases plan with
  | beyond => rfl
  | directFull _ _ hfull => rw [h.allocate_none hfull]
  | entry _ _ _ _ _ plan =>
    cases plan with
    | full _ hfull => rw [h.allocate_none hfull]
  | indexFull _ _ _ hfull => rw [h.allocate_none hfull]
  | newIndex h12 h76 h0 n hn _ _ plan =>
    cases plan with
    | full hword hfull =>
      have hn0 := h.ne_zero_of_inRange (h.nextFree_inRange hn)
      obtain ⟨nodes', hchain, hperm, hframe, -, -⟩ := afterIndex_spec h v hn
      have hlast : (fs.afterIndex v n).afterAllocate = fs.afterIndex v n := by
        rcases allocate_spec hframe.reliable hchain with ⟨-, -, hsame⟩ | ⟨m, _, hsome, -⟩
        · exact hsame
        · exact absurd (hsome.symm.trans hfull) (Option.some_ne_none m)
      have hwords : ∀ e < 64, Block.word ((fs.afterIndex v n).disk.block n.toNat) e = 0 := by
        intro e he
        rw [hframe.block n (h.nextFree_inRange hn) fun hS => hS.2 rfl]
        exact word_of_indexEntries_eq_nil hn0 (hblank ⟨UInt64.not_lt.mp h12, h76, h0⟩ n hn) he
      rw [hlast]
      refine fetch_eq_of_resolve_eq h hv hframe (fun x hx hS => ?_) ?_ block
      · rw [hv.leaves] at hx
        exact h.owned_notMem_pool hv.mem (Inode.mem_owned_of_mem_leaves hx)
          (mem_poolOf_of_mem hS.1)
      · -- the new index block is as good as none
        rw [Disk.resolve, Disk.resolve, Inode.withIndex_pointer, Inode.withIndex_pointer,
          Inode.pointer_setPointer _ _ (by decide), h0]
        by_cases hj : j < sfsNdirBlocks
        · rw [if_pos hj, if_pos hj, Inode.pointer_setPointer_of_ne _ _ (by
            have := toNat_lt_of_direct hj
            omega)]
        · rw [if_neg hj, if_neg hj]
          split
          · next hj76 =>
            rw [Disk.entry, Disk.entry, if_neg hn0, if_pos rfl, hwords _ (toNat_entry_lt hj hj76)]
          · rfl

/-- **`sfs_fs_inode_block_write`**: whatever it answers, it leaves a well-formed image, and of
all blocks of all files it changes the one that it is asked to write, and that only if it
succeeds. -/
theorem sfsFsInodeBlockWrite_wrote (h : Image fs nodes A []) (hv : fs.Current A v)
    (hsmall : fs.superblock.inodeTableBlocks.toNat < 2 ^ 31) (hblank : fs.BlankIndex v i)
    (data : Block) :
    Run.Ensures (sfsFsInodeBlockWrite v i data) fs (Wrote fs A v i data) := by
  have hint := h.state.table.lt_int (h.valid _ hv.mem) hsmall
  have hlabel : fs.LabelApart A v i := h.labelApart_of_lt hv hint
  obtain ⟨r, t, fs', plan, hrun⟩ := sfsFsInodeBlockWrite_run h hv i
  have hlocated := plan.located h hv hint (hblank.freshIndexOk A)
  have hstored := hlocated.store data
  have hinodes := plan.inodes h hv hint
  obtain ⟨hsettled, hnumber, -, -⟩ := plan.settled h hv hsmall
  have hlaw : WriteLaw fs A v i :=
    (writeLaw_iff_freshIndexClean h hv hlabel).mpr (hblank.freshIndexClean h)
  rw [writeLaw_iff h hv hlabel plan hrun] at hlaw
  refine Run.Ensures.of_eq (hrun data) ?_
  cases t with
  | none =>
    have hframe := plan.dataFrame h hv
    refine ⟨hstored.image, hstored.current, hsettled, hinodes, Or.inr rfl, fun h0 => ?_,
      fun j _ => ?_, fun k hk hne j => ?_⟩
    · exact absurd (show (-1 : ℤ) = 0 from h0) (by decide)
    · have hcurrent : fs'.Current A r := hlocated.current
      show fs'.fileBlock v.inumber j = _
      rw [← hnumber, hcurrent.fileBlock, hnumber, hv.fileBlock, plan.fetch_of_none h hv hblank]
    · show fs'.fileBlock k j = _
      rw [Filesystem.fileBlock, hinodes.others k (h.valid k hk) hne,
        fetch_eq_of_dataFrame h hk hframe ?_, Filesystem.fileBlock]
      rintro x hx (hS | rfl)
      · exact h.owned_notMem_pool hk hx hS
      · by_cases h0 : v.pointer 12 = 0
        · exact h.ne_zero_of_inRange (h.inRange _ (Image.owned_mem hk hx)) h0
        · rw [hv.pointer] at hx h0
          exact h.owned_disjoint hk hv.mem hne hx (Image.index_mem h0)
  | some x =>
    obtain ⟨nodes', himage⟩ := hlocated.image
    have hleaf := hlocated.leaf x rfl
    rw [hlocated.current.leaves] at hleaf
    have hrange : fs'.superblock.inRange x = true := himage.inRange x
      (Image.owned_mem hlocated.current.mem (Inode.mem_owned_of_mem_leaves hleaf))
    have hstore : fs'.store (some x) data = (0, fs'.writeBlock x data) := if_pos hrange
    have hlawful := hlaw x rfl hrange data
    have hstep := dataStep_writeBlock himage.state.reliable himage.state.table hrange data
    have hsame : ∀ j, fs.superblock.ValidInumber j →
        (fs'.writeBlock x data).logicalInode j = fs'.logicalInode j := fun j hj =>
      hstep.logicalInode himage.state.table (by
        rw [Superblock.ValidInumber, hsettled.inodes]
        exact hj)
    rw [hstore] at hstored ⊢
    have hcurrent : (fs'.writeBlock x data).Current A r := hstored.current
    have h76 : i < sfsNdirBlocks + sfsNindBlocks := by
      by_contra hi
      have hread := hlawful.read Block.zero
      have h12 : ¬ i < sfsNdirBlocks := fun hlt => hi (UInt64.lt_trans hlt (by decide))
      rw [Disk.resolve, if_neg h12, if_neg hi] at hread
      exact absurd (show (-1 : ℤ) = 0 from congrArg Prod.fst hread) (by decide)
    refine ⟨hstored.image, hcurrent, hsettled.trans (Settled.writeBlock himage.state hrange data),
      ⟨hinodes.remapped, fun e => ?_, fun j hj hne => ?_⟩, Or.inl rfl, fun _ => ⟨h76, ?_⟩,
      fun j hj => ?_, fun k hk hne j => ?_⟩
    · exact (hsame _ (h.valid _ hv.mem)).trans (hinodes.stored e)
    · exact (hsame j hj).trans (hinodes.others j hj hne)
    · rw [← hnumber, hcurrent.fileBlock, hlawful.read]
    · rw [← hnumber, hcurrent.fileBlock, hnumber, hv.fileBlock, hlawful.own j (hj rfl)]
    · show (fs'.writeBlock x data).fileBlock k j = _
      rw [Filesystem.fileBlock, hsame k (h.valid k hk), hinodes.others k (h.valid k hk) hne,
        hlawful.others k hk hne, Filesystem.fileBlock]

end Blocks

end SimpleFileSystem
