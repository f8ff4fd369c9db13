import SimpleFileSystem.DiskDirectory

/-!
# What a new entry is refused for

`sfs_dir_link` writes the entry into the first slot that is not in use, or into one more
block at the end.  With `fs.c` below it that write may need a block from the pool, or two,
and `Filesystem.Refuses` says when it cannot be made: the directory is as long as an inode
can map, or the blocks that are missing are not free.  There is a third reason, since a new
index block keeps its old words: the word for the entry may be a number that is not one of a
data block.

Nothing else makes `sfs_dir_link` fail while I/O succeeds (`sfsDirLink_ends`).
-/

open ByteCodec

namespace SimpleFileSystem

variable {F : Type}

/-- **A write of a logical block that is refused.** -/
def Filesystem.Refuses (fs : Filesystem F) (nodes : List UInt64) (v : Inode) (i : UInt64) : Prop :=
  match fs.disk.resolve v i with
  | none => True
  | some x => x = 0 ∧
    match fs.nextFree with
    | none => True
    | some n => ¬ i < sfsNdirBlocks ∧ v.pointer 12 = 0 ∧
      -- the block that is free is to be the index block, and has this word already
      (Block.word (fs.disk.block n.toNat) (i - sfsNdirBlocks).toNat = 0 ∧
          poolOf fs.disk nodes = [n] ∨
        Block.word (fs.disk.block n.toNat) (i - sfsNdirBlocks).toNat ≠ 0 ∧
          fs.superblock.inRange
            (Block.word (fs.disk.block n.toNat) (i - sfsNdirBlocks).toNat) = false)

/-- The place of a new entry: the first slot that is not in use, or one more. -/
def Filesystem.rootPlace (fs : Filesystem F) : ℕ :=
  ((List.range fs.rootLength).find? fun i => (fs.rootSlot i).inumber = 0).getD fs.rootLength

/-- **A new entry of the root directory that is refused.** -/
def Filesystem.RefusesEntry (fs : Filesystem F) (nodes : List UInt64) : Prop :=
  fs.Refuses nodes (fs.logicalInode 1) (UInt64.ofNat fs.rootPlace)

namespace SameRoot

variable {fs fs' : Filesystem F} {nodes A : List UInt64}

/-- The index nodes of the free block chain are what they were. -/
theorem node (h : SameRoot fs fs') (hr : RootImage fs nodes A) {n : UInt64} (hn : n ∈ nodes) :
    fs'.disk.block n.toNat = fs.disk.block n.toNat :=
  h.block n (hr.image.inRange n (Image.mem_census.mpr (Or.inl (mem_poolOf_of_mem hn))))

theorem nextFree (h : SameRoot fs fs') (hr : RootImage fs nodes A) :
    fs'.nextFree = fs.nextFree := by
  have hlinked := hr.image.linked
  rw [Filesystem.nextFree, h.head, Filesystem.nextFree]
  cases nodes with
  | nil =>
    have h0 : fs.superblock.freeBlocksHead = 0 := hlinked
    rw [if_pos h0, if_pos h0]
  | cons n nodes =>
    rw [hlinked.1, h.node hr List.mem_cons_self]

theorem refuses (h : SameRoot fs fs') (hr : RootImage fs nodes A) (i : UInt64) :
    fs'.Refuses nodes (fs'.logicalInode 1) i ↔ fs.Refuses nodes (fs.logicalInode 1) i := by
  have hpool : poolOf fs'.disk nodes = poolOf fs.disk nodes := poolOf_congr fun n hn => h.node hr hn
  rw [Filesystem.Refuses, Filesystem.Refuses, h.resolve hr, h.nextFree hr, h.pointer,
    h.inRange, hpool]
  cases fs.disk.resolve (fs.logicalInode 1) i with
  | none => exact Iff.rfl
  | some x =>
    cases hnext : fs.nextFree with
    | none => exact Iff.rfl
    | some n =>
      dsimp only
      rw [h.block n (hr.image.nextFree_inRange hnext)]

/-- **An entry is refused** or not, as before. -/
theorem refusesEntry (h : SameRoot fs fs') (hr : RootImage fs nodes A) :
    fs'.RefusesEntry nodes ↔ fs.RefusesEntry nodes := by
  have hplace : fs'.rootPlace = fs.rootPlace := by
    simp only [Filesystem.rootPlace, h.rootLength, h.rootSlot hr]
  rw [Filesystem.RefusesEntry, hplace]
  exact h.refuses hr _

end SameRoot

/-! ## What the rest of a request relies on -/

/-- **A step after which inodes can still be written**, and which leaves the free inodes and
the memory alone. -/
structure Settled (fs fs' : Filesystem F) : Prop where
  state : InodeState fs'
  inodes : fs'.superblock.inodes = fs.superblock.inodes
  inodeTableBlocks : fs'.superblock.inodeTableBlocks = fs.superblock.inodeTableBlocks
  inRange : fs'.superblock.inRange = fs.superblock.inRange
  head : fs'.superblock.freeInodeHead = fs.superblock.freeInodeHead
  mallocs : fs'.host.mallocs = fs.host.mallocs

namespace Settled

variable {fs fs' fs'' : Filesystem F} {v : Inode}

theorem refl (h : InodeState fs) : Settled fs fs :=
  ⟨h, rfl, rfl, rfl, rfl, rfl⟩

theorem trans (h : Settled fs fs') (h' : Settled fs' fs'') : Settled fs fs'' :=
  ⟨h'.state, h'.inodes.trans h.inodes, h'.inodeTableBlocks.trans h.inodeTableBlocks,
    h'.inRange.trans h.inRange, h'.head.trans h.head, h'.mallocs.trans h.mallocs⟩

theorem of_dataStep {S : UInt64 → Prop} (h : InodeState fs) (hstep : DataStep S fs fs') :
    Settled fs fs' :=
  ⟨hstep.inodeState h, hstep.frame.inodes, hstep.frame.inodeTableBlocks, hstep.inRange,
    hstep.frame.freeInodeHead, by rw [hstep.frame.host]⟩

theorem of_tableFrame (h : InodeState fs') (hframe : TableFrame fs fs') : Settled fs fs' :=
  ⟨h, by rw [hframe.superblock], by rw [hframe.superblock], by rw [hframe.superblock],
    by rw [hframe.superblock], by rw [hframe.host]⟩

theorem ticked (h : InodeState fs) : Settled fs fs.ticked :=
  ⟨⟨⟨h.reliable.noFaults, h.reliable.covers, h.reliable.addressable⟩,
    ⟨h.table.inodes_le, h.table.inDisk⟩, ⟨h.cache.inTable, h.cache.clean, h.cache.agrees⟩⟩,
    rfl, rfl, rfl, rfl, rfl⟩

theorem time_ensures (h : Settled fs fs') :
    Run.Ensures (time : Fs F UInt64) fs' fun _ fs'' => Settled fs fs'' :=
  Run.Ensures.of_eq (time_run fs') (h.trans (ticked h.state))

/-- **An inode is written.** -/
theorem writeInode_ensures (h : Settled fs fs') (hvalid : fs.superblock.ValidInumber v.inumber)
    (hsmall : fs.superblock.inodeTableBlocks.toNat < 2 ^ 31) :
    Run.Ensures (sfsFsWriteInode v) fs' fun ret fs'' => ret = 0 ∧ Settled fs fs'' := by
  have hvalid' : fs'.superblock.ValidInumber v.inumber := by
    rw [Superblock.ValidInumber, h.inodes]
    exact hvalid
  have hint := h.state.table.lt_int hvalid' (by rw [h.inodeTableBlocks]; exact hsmall)
  refine (sfsFsWriteInode_ensures h.state hvalid' hint).mono ?_
  rintro ret fs'' ⟨rfl, hstate, hframe, -⟩
  exact ⟨rfl, h.trans (of_tableFrame hstate hframe)⟩

/-- **A write of a data block.** -/
theorem writeBlock (h : InodeState fs) {n : UInt64} (hn : fs.superblock.inRange n = true)
    (b : Block) : Settled fs (fs.writeBlock n b) := by
  have hholds := h.reliable.holds (Superblock.lt_of_inRange hn)
  refine of_dataStep (S := (· = n)) h ⟨AllocatorFrame.of_writeBlock b hholds rfl, ?_⟩
  rintro x rfl
  exact Superblock.notInTable_of_inRange h.table.inDisk hn

/-- What a write of a logical block does once it has the block number. -/
theorem store (h : InodeState fs) (found : Option UInt64) (block : Block) :
    Settled fs (fs.store found block).2 ∧ ((fs.store found block).1 = 0 ↔
      ∃ n, found = some n ∧ fs.superblock.inRange n = true) := by
  cases found with
  | none =>
    refine ⟨refl h, fun h0 => absurd (show (-1 : ℤ) = 0 from h0) (by decide), ?_⟩
    rintro ⟨n, hn, -⟩
    cases hn
  | some n =>
    by_cases hn : fs.superblock.inRange n = true
    · rw [Filesystem.store, if_pos hn]
      exact ⟨writeBlock h hn block, fun _ => ⟨n, rfl, hn⟩, fun _ => rfl⟩
    · rw [Filesystem.store, if_neg hn]
      refine ⟨refl h, fun h0 => absurd (show (-1 : ℤ) = 0 from h0) (by decide), ?_⟩
      rintro ⟨m, hm, hrange⟩
      cases hm
      exact absurd hrange hn

end Settled

/-! ## The block that a write arrives at -/

section Plans

variable {fs fs' : Filesystem F} {nodes A X : List UInt64} {v r : Inode} {i : UInt64}
  {t : Option UInt64}

/-- The allocator has no block exactly if none is free. -/
theorem nextFree_eq_none_iff (hr : fs.Reliable) (hc : FreeChain fs nodes) :
    fs.nextFree = none ↔ poolOf fs.disk nodes = [] := by
  rcases allocate_spec hr hc with ⟨hnone, hnil, -⟩ | ⟨n, nodes', hsome, htakes⟩
  · rw [hnil, poolOf_nil]
    exact iff_of_true hnone rfl
  · refine iff_of_false (by rw [hsome]; exact Option.some_ne_none n) fun hnil => ?_
    have hperm := htakes.perm
    rw [hnil] at hperm
    exact absurd hperm.symm.eq_nil (List.cons_ne_nil _ _)

/-- **Finding or filling an entry of an index block** arrives at a data block if the entry
is one, or is zero and a block is free. -/
theorem EntryPlan.settled (hstate : InodeState fs) (hc : FreeChain fs nodes)
    (hdata : ∀ b ∈ poolOf fs.disk nodes, fs.superblock.inRange b = true) {p : UInt64}
    (hp : fs.superblock.inRange p = true) {idx : ℕ} (plan : EntryPlan fs p idx t fs') :
    Settled fs fs' ∧ ((∃ n, t = some n ∧ fs'.superblock.inRange n = true) ↔
      if Block.word (fs.disk.block p.toNat) idx = 0 then fs.nextFree ≠ none
      else fs.superblock.inRange (Block.word (fs.disk.block p.toNat) idx) = true) := by
  have hpresent : ∀ w : UInt64, (∃ n, some w = some n ∧ fs.superblock.inRange n = true) ↔
      fs.superblock.inRange w = true := by
    simp
  rcases allocate_spec hstate.reliable hc with ⟨hnone, -, hsame⟩ | ⟨n, nodes', hsome, htakes⟩
  · cases plan with
    | present h =>
      rw [if_neg h]
      exact ⟨Settled.refl hstate, hpresent _⟩
    | full h hfull =>
      rw [if_pos h, hsame]
      exact ⟨Settled.refl hstate, iff_of_false (by simp) (not_not.mpr hfull)⟩
    | fresh h m hm =>
      rw [hnone] at hm
      cases hm
  have hn : fs.superblock.inRange n = true :=
    hdata n (htakes.perm.mem_iff.mpr List.mem_cons_self)
  have hstep : DataStep (fun x => x = 0 ∨ x ∈ nodes ∧ x ≠ n) fs fs.afterAllocate := by
    refine ⟨htakes.frame, fun b hb hin => ?_⟩
    rcases hb with rfl | ⟨hb, -⟩
    · exact UInt64.lt_irrefl 0 hin.1
    · exact Superblock.notInTable_of_inRange hstate.table.inDisk
        (hdata b (mem_poolOf_of_mem hb)) hin
  have htaken := Settled.of_dataStep hstate hstep
  cases plan with
  | present h =>
    rw [if_neg h]
    exact ⟨Settled.refl hstate, hpresent _⟩
  | full h hfull =>
    rw [hsome] at hfull
    cases hfull
  | fresh h m hm =>
    rw [hsome] at hm
    cases hm
    rw [if_pos h]
    have hwritten := htaken.trans (Settled.writeBlock htaken.state
      (by rw [htaken.inRange]; exact hp) (Block.setWord (fs.disk.block p.toNat) idx n))
    refine ⟨hwritten, iff_of_true ⟨n, rfl, ?_⟩ (by rw [hsome]; exact Option.some_ne_none n)⟩
    rw [hwritten.inRange]
    exact hn

/-- Whether a write is refused, by what the lookup of the block finds. -/
theorem refuses_iff {x : UInt64} (h : fs.disk.resolve v i = some x) : fs.Refuses nodes v i ↔
    x = 0 ∧ ∀ n, fs.nextFree = some n → ¬ i < sfsNdirBlocks ∧ v.pointer 12 = 0 ∧
      (Block.word (fs.disk.block n.toNat) (i - sfsNdirBlocks).toNat = 0 ∧
          poolOf fs.disk nodes = [n] ∨
        Block.word (fs.disk.block n.toNat) (i - sfsNdirBlocks).toNat ≠ 0 ∧
          fs.superblock.inRange
            (Block.word (fs.disk.block n.toNat) (i - sfsNdirBlocks).toNat) = false) := by
  rw [Filesystem.Refuses, h]
  cases fs.nextFree with
  | none => simp
  | some n => simp

/-- **Whichever way a write goes**, it arrives at a data block unless it is refused. -/
theorem WritePlan.settled (h : Image fs nodes A X) (hv : fs.Current A v)
    (hsmall : fs.superblock.inodeTableBlocks.toNat < 2 ^ 31) (plan : WritePlan fs v i r t fs') :
    Settled fs fs' ∧ r.inumber = v.inumber ∧ r.size = v.size ∧
      ((∃ n, t = some n ∧ fs'.superblock.inRange n = true) ↔ ¬ fs.Refuses nodes v i) := by
  have hstate := h.state
  -- a block that the lookup finds is one of the file
  have hfound : ∀ {x}, fs.disk.resolve v i = some x → x ≠ 0 → fs.superblock.inRange x = true := by
    intro x hx h0
    have hleaf := mem_leaves_of_resolve hx h0
    rw [hv.leaves] at hleaf
    exact h.inRange x (Image.owned_mem hv.mem (Inode.mem_owned_of_mem_leaves hleaf))
  cases plan with
  | beyond h76 =>
    have h12 : ¬ i < sfsNdirBlocks := fun hlt => h76 (UInt64.lt_trans hlt (by decide))
    refine ⟨Settled.refl hstate, rfl, rfl, iff_of_false (by simp) (not_not.mpr ?_)⟩
    rw [Filesystem.Refuses, Disk.resolve, if_neg h12, if_neg h76]
    trivial
  | direct hi h0 =>
    have hx : fs.disk.resolve v i = some (v.pointer i.toNat) := if_pos hi
    refine ⟨Settled.refl hstate, rfl, rfl, iff_of_true ⟨_, rfl, hfound hx h0⟩ fun hrefuses => ?_⟩
    exact h0 ((refuses_iff hx).mp hrefuses).1
  | directFull hi h0 hfull =>
    have hx : fs.disk.resolve v i = some (v.pointer i.toNat) := if_pos hi
    rw [h.allocate_none hfull]
    refine ⟨Settled.refl hstate, rfl, rfl, iff_of_false (by simp) (not_not.mpr ?_)⟩
    exact (refuses_iff hx).mpr ⟨h0, fun n hn => by rw [hfull] at hn; cases hn⟩
  | directFresh hi h0 n hn =>
    have hx : fs.disk.resolve v i = some (v.pointer i.toNat) := if_pos hi
    obtain ⟨nodes', -, himage, hstep⟩ := h.allocate_some hn
    have htaken := Settled.of_dataStep hstate hstep
    have hvalid : fs.afterAllocate.superblock.ValidInumber (v.setPointer i.toNat n).inumber :=
      himage.valid _ hv.mem
    have hwritten := (htaken.writeInode_ensures (v := v.setPointer i.toNat n)
      (h.valid _ hv.mem) hsmall).post (sfsFsWriteInode_run himage.state hvalid)
    refine ⟨hwritten.2, rfl, rfl, iff_of_true ⟨n, rfl, ?_⟩ fun hrefuses => ?_⟩
    · rw [hwritten.2.inRange]
      exact h.nextFree_inRange hn
    · exact (((refuses_iff hx).mp hrefuses).2 n hn).1 hi
  | entry h12 h76 h0 t fs' plan =>
    have hx : fs.disk.resolve v i =
        some (Block.word (fs.disk.block (v.pointer 12).toNat) (i - sfsNdirBlocks).toNat) := by
      rw [Disk.resolve, if_neg h12, if_pos h76, Disk.entry, if_neg h0]
    obtain ⟨hsettled, hiff⟩ := plan.settled hstate h.chain
      (fun b hb => h.inRange b (Image.mem_census.mpr (Or.inl hb))) (hv.indexOk h h0)
    refine ⟨hsettled, rfl, rfl, hiff.trans ?_⟩
    rw [refuses_iff hx]
    by_cases hword : Block.word (fs.disk.block (v.pointer 12).toNat)
        (i - sfsNdirBlocks).toNat = 0
    · rw [if_pos hword]
      constructor
      · rintro hsome ⟨-, hnone⟩
        obtain ⟨n, hn⟩ := Option.ne_none_iff_exists'.mp hsome
        exact h0 (hnone n hn).2.1
      · intro hgoes hnone
        exact hgoes ⟨hword, fun n hn => by rw [hnone] at hn; cases hn⟩
    · rw [if_neg hword]
      exact iff_of_true (hfound hx hword) fun hrefuses => hword hrefuses.1
  | indexFull h12 h76 h0 hfull =>
    have hx : fs.disk.resolve v i = some 0 := by
      rw [Disk.resolve, if_neg h12, if_pos h76, Disk.entry, if_pos h0]
    rw [h.allocate_none hfull]
    refine ⟨Settled.refl hstate, rfl, rfl, iff_of_false (by simp) (not_not.mpr ?_)⟩
    exact (refuses_iff hx).mpr ⟨rfl, fun n hn => by rw [hfull] at hn; cases hn⟩
  | newIndex h12 h76 h0 n hn t fs' plan =>
    have hx : fs.disk.resolve v i = some 0 := by
      rw [Disk.resolve, if_neg h12, if_pos h76, Disk.entry, if_pos h0]
    obtain ⟨nodes₁, -, himage, hstep⟩ := h.allocate_some hn
    have htaken := (Settled.of_dataStep hstate hstep).trans (Settled.ticked himage.state)
    have hwritten := ((htaken.writeInode_ensures
      (v := v.withIndex n (fs.afterAllocate.host.clock 0)) (h.valid _ hv.mem) hsmall).post
        (sfsFsWriteInode_run himage.ticked.state (himage.valid _ hv.mem))).2
    have hindexed : Settled fs (fs.afterIndex v n) := hwritten
    obtain ⟨nodes', hchain, hperm, hframe, -, -⟩ := afterIndex_spec h v hn
    have hpool := fun b hb => h.inRange b (Image.mem_census.mpr (Or.inl
      (hperm.mem_iff.mpr (List.mem_cons_of_mem n hb))))
    have hrange := h.nextFree_inRange hn
    have hblock : (fs.afterIndex v n).disk.block n.toNat = fs.disk.block n.toNat :=
      hframe.block n hrange fun hS => hS.2 rfl
    obtain ⟨hsettled, hiff⟩ := plan.settled hindexed.state hchain
      (fun b hb => by rw [hindexed.inRange]; exact hpool b hb)
      (by rw [hindexed.inRange]; exact hrange)
    -- the second block is the one that is left
    have hlast : (fs.afterIndex v n).nextFree = none ↔ poolOf fs.disk nodes = [n] := by
      rw [nextFree_eq_none_iff hindexed.state.reliable hchain]
      constructor
      · intro hnil
        rw [hnil] at hperm
        exact List.perm_singleton.mp hperm
      · intro hone
        rw [hone] at hperm
        exact (List.cons.inj (List.perm_singleton.mp hperm.symm)).2
    refine ⟨hindexed.trans hsettled, rfl, rfl, hiff.trans ?_⟩
    rw [refuses_iff hx, hblock, hindexed.inRange]
    by_cases hword : Block.word (fs.disk.block n.toNat) (i - sfsNdirBlocks).toNat = 0
    · rw [if_pos hword, Ne, hlast]
      refine not_congr ⟨fun hone => ⟨rfl, fun m hm => ?_⟩, fun hrefuses => ?_⟩
      · cases hn.symm.trans hm
        exact ⟨h12, h0, Or.inl ⟨hword, hone⟩⟩
      · exact ((hrefuses.2 n hn).2.2.resolve_right fun hstale => hstale.1 hword).2
    · rw [if_neg hword, ← Bool.not_eq_false, not_iff_not]
      refine ⟨fun hstale => ⟨rfl, fun m hm => ?_⟩, fun hrefuses => ?_⟩
      · cases hn.symm.trans hm
        exact ⟨h12, h0, Or.inr ⟨hword, hstale⟩⟩
      · exact ((hrefuses.2 n hn).2.2.resolve_left fun hzero => hword hzero.1).2

/-- **`sfs_fs_inode_block_write`** fails exactly if it is refused. -/
theorem sfsFsInodeBlockWrite_ends (h : Image fs nodes A X) (hv : fs.Current A v)
    (hsmall : fs.superblock.inodeTableBlocks.toNat < 2 ^ 31) (i : UInt64) (block : Block) :
    Run.Ensures (sfsFsInodeBlockWrite v i block) fs fun answer fs' => Settled fs fs' ∧
      answer.2.inumber = v.inumber ∧ answer.2.size = v.size ∧
        (answer.1 = 0 ↔ ¬ fs.Refuses nodes v i) := by
  obtain ⟨r, t, fs', plan, hrun⟩ := sfsFsInodeBlockWrite_run h hv i
  obtain ⟨hsettled, hinumber, hsize, hiff⟩ := plan.settled h hv hsmall
  obtain ⟨hstored, hret⟩ := Settled.store hsettled.state t block
  exact Run.Ensures.of_eq (hrun block) ⟨hsettled.trans hstored, hinumber, hsize, hret.trans hiff⟩

end Plans

/-! ## Linking -/

/-- The slots before the place of a new entry are in use, and the one there is not. -/
theorem rootPlace_spec (fs : Filesystem F) : fs.rootPlace ≤ fs.rootLength ∧
    (∀ i < fs.rootPlace, (fs.rootSlot i).inumber ≠ 0) ∧
      (fs.rootPlace < fs.rootLength → (fs.rootSlot fs.rootPlace).inumber = 0) := by
  unfold Filesystem.rootPlace
  cases hfind : (List.range fs.rootLength).find? fun i => (fs.rootSlot i).inumber = 0 with
  | none =>
    rw [List.find?_range_eq_none] at hfind
    refine ⟨Nat.le_refl _, fun i hi => ?_, fun hlt => absurd hlt (Nat.lt_irrefl _)⟩
    simpa using hfind i hi
  | some i =>
    obtain ⟨hi, hmem, hbefore⟩ := List.find?_range_eq_some.mp hfind
    refine ⟨Nat.le_of_lt (List.mem_range.mp hmem), fun j hj => ?_, fun _ => ?_⟩
    · simpa using hbefore j hj
    · simpa using hi

section Link

variable {fs : Filesystem F} {nodes A L : List UInt64} {name : CString} {file : Inode}

theorem Rooted.current (h : Rooted fs nodes A L) : fs.Current A (fs.logicalInode 1) where
  mem := by
    rw [h.inumber]
    exact h.root
  pointers := by rw [h.inumber]

/-- What `sfs_dir_link` leaves. -/
def LinkEnds (fs : Filesystem F) (nodes : List UInt64) (answer : ℤ × Inode × Inode)
    (fs' : Filesystem F) : Prop :=
  Settled fs fs' ∧ (answer.1 = 0 ↔ ¬ fs.RefusesEntry nodes)

/-- **The write of the entry**, and what is done after it. -/
theorem writeEntry_ends (h : Rooted fs nodes A L) (block : Block)
    {f : ℤ × Inode → Fs F (UInt64 ⊕ (ℤ × Inode × Inode))}
    (hfail : ∀ ret directory, ret ≠ 0 → ∃ x, f (ret, directory) = pure (.inr (-1, x)))
    (hrest : ∀ (directory : Inode) fs', directory.inumber = 1 → Settled fs fs' →
      Run.Ensures (f (0, directory)) fs' fun answer fs'' =>
        Settled fs fs'' ∧ ∃ x, answer = .inr (0, x)) :
    Run.Ensures (sfsFsInodeBlockWrite (fs.logicalInode 1) (UInt64.ofNat fs.rootPlace) block >>= f)
      fs fun answer fs' => ∃ linked, answer = .inr linked ∧ LinkEnds fs nodes linked fs' := by
  refine (sfsFsInodeBlockWrite_ends h.image h.current h.small _ block).bind ?_
  rintro ⟨ret, directory⟩ fs' ⟨hsettled, hinumber, -, hiff⟩
  dsimp only at hinumber hiff
  by_cases hret : ret = 0
  · subst hret
    refine (hrest directory fs' (hinumber.trans h.inumber) hsettled).mono ?_
    rintro _ fs'' ⟨hsettled', x, rfl⟩
    exact ⟨_, rfl, hsettled', iff_of_true rfl (hiff.mp rfl)⟩
  · obtain ⟨x, hx⟩ := hfail ret directory hret
    rw [hx]
    refine Run.ensures_pure ⟨_, rfl, hsettled, iff_of_false (by simp) fun hgoes => ?_⟩
    exact hret (hiff.mpr hgoes)

/-- The step at the place of the entry ends the search. -/
theorem dirLinkStep_place (h : Rooted fs nodes A L)
    (hfile : fs.superblock.ValidInumber file.inumber) :
    Run.Ensures (dirLinkStep fsLayer name file (fs.logicalInode 1) (UInt64.ofNat fs.rootPlace)) fs
      fun answer fs' => ∃ linked, answer = .inr linked ∧ LinkEnds fs nodes linked fs' := by
  have hmapped := h.mapped
  unfold mappedBlocks at hmapped
  obtain ⟨hle, -, hunused⟩ := rootPlace_spec fs
  have hroot : fs.superblock.ValidInumber 1 := h.image.valid 1 h.root
  have hplace : (UInt64.ofNat fs.rootPlace).toNat = fs.rootPlace :=
    UInt64.toNat_ofNat_of_lt' (by show fs.rootPlace < 2 ^ 64; omega)
  have hend : ((fs.logicalInode 1).size / 512).toNat = fs.rootLength := UInt64.toNat_div _ _
  rw [dirLinkStep]
  by_cases hlt : fs.rootPlace < fs.rootLength
  · rw [if_pos (by rw [UInt64.lt_iff_toNat_lt, hplace, hend]; exact hlt)]
    obtain ⟨data, hread, hdata⟩ := h.blockRead_run hlt Block.zero
    refine Run.Ensures.bind (P := fun answer fs' => answer = (0, data) ∧ fs = fs')
      (Run.Ensures.of_eq hread ⟨rfl, rfl⟩) ?_
    rintro _ _ ⟨rfl, rfl⟩
    dsimp only
    rw [if_neg (by simp), findUnused_eq, hdata, if_pos (hunused hlt)]
    refine writeEntry_ends h _ (fun ret _ hret => ⟨_, if_pos hret⟩)
      fun directory fs' hdir hsettled => ?_
    rw [if_neg (by simp)]
    refine hsettled.time_ensures.bind fun now fs₁ h₁ => ?_
    refine (h₁.writeInode_ensures (v := { directory with modifiedTime := now })
      (hdir.symm ▸ hroot) h.small).bind ?_
    rintro _ fs₂ ⟨rfl, h₂⟩
    rw [if_neg (by simp)]
    refine (h₂.writeInode_ensures
      (v := { file with links := file.links + 1, changeTime := now }) hfile h.small).bind ?_
    rintro _ fs₃ ⟨rfl, h₃⟩
    exact Run.ensures_pure ⟨h₃, _, rfl⟩
  · have hlast : fs.rootPlace = fs.rootLength := by omega
    have hnumber : (fs.logicalInode 1).size / 512 = UInt64.ofNat fs.rootPlace :=
      UInt64.toNat_inj.mp (by rw [hend, hplace, hlast])
    rw [if_neg (by rw [UInt64.lt_iff_toNat_lt, hplace, hend]; exact hlt), hnumber]
    refine writeEntry_ends h _ (fun ret _ hret => ⟨_, if_pos hret⟩)
      fun directory fs' hdir hsettled => ?_
    dsimp only
    rw [if_neg (by simp)]
    refine hsettled.time_ensures.bind fun now fs₁ h₁ => ?_
    refine (h₁.writeInode_ensures
      (v := { directory with size := directory.size + 512, modifiedTime := now })
      (hdir.symm ▸ hroot) h.small).bind ?_
    rintro _ fs₂ ⟨rfl, h₂⟩
    rw [if_neg (by simp)]
    refine h₂.time_ensures.bind fun now' fs₃ h₃ => ?_
    refine (h₃.writeInode_ensures
      (v := { file with links := file.links + 1, changeTime := now' }) hfile h.small).bind ?_
    rintro _ fs₄ ⟨rfl, h₄⟩
    exact Run.ensures_pure ⟨h₄, _, rfl⟩

/-- A slot in use is passed over. -/
theorem dirLinkStep_used (h : Rooted fs nodes A L) {i : ℕ} (hi : i < fs.rootPlace) :
    (dirLinkStep fsLayer name file (fs.logicalInode 1) (UInt64.ofNat i)).run fs =
      .done (.inl (UInt64.ofNat (i + 1))) fs := by
  have hmapped := h.mapped
  unfold mappedBlocks at hmapped
  obtain ⟨hle, hused, -⟩ := rootPlace_spec fs
  have hnat : (UInt64.ofNat i).toNat = i :=
    UInt64.toNat_ofNat_of_lt' (by show i < 2 ^ 64; omega)
  have hend : ((fs.logicalInode 1).size / 512).toNat = fs.rootLength := UInt64.toNat_div _ _
  obtain ⟨data, hread, hdata⟩ := h.blockRead_run (Nat.lt_of_lt_of_le hi hle) Block.zero
  rw [dirLinkStep, if_pos (by rw [UInt64.lt_iff_toNat_lt, hnat, hend]; omega), Run.run_bind,
    show ((fsLayer : InodeLayer F).blockRead (fs.logicalInode 1)
      (UInt64.ofNat i) Block.zero).run fs =
      .done (0, data) fs from hread, Run.andThen_done]
  dsimp only
  rw [if_neg (by simp), findUnused_eq, hdata, if_neg (hused i hi), UInt64.ofNat_add]
  rfl

/-- **`sfs_dir_link`** fails exactly if the entry is refused. -/
theorem sfsDirLink_ends (h : Rooted fs nodes A L) (hname : name.length ≤ 255)
    (hfile : fs.superblock.ValidInumber file.inumber) :
    Run.Ensures (sfsDirLink fsLayer (fs.logicalInode 1) name file) fs (LinkEnds fs nodes) := by
  have hloop : ∀ n i, i ≤ fs.rootPlace → fs.rootPlace - i < n →
      Run.Ensures (Run.loop (dirLinkStep fsLayer name file (fs.logicalInode 1)) n
        (UInt64.ofNat i)) fs (LinkEnds fs nodes) := by
    intro n
    induction n with
    | zero => exact fun i _ hn => absurd hn (Nat.not_lt_zero _)
    | succ n ih =>
      intro i hi hn
      rcases Nat.eq_or_lt_of_le hi with rfl | hlt
      · rw [Run.loop]
        refine (dirLinkStep_place h hfile).bind ?_
        rintro _ fs' ⟨linked, rfl, hends⟩
        exact Run.ensures_pure hends
      · obtain ⟨linked, fs', hrun, hends⟩ := ih (i + 1) hlt (by omega)
        exact Run.Ensures.of_eq ((Run.loop_succ_of_inl (dirLinkStep_used h hlt)).trans hrun) hends
  have hmapped := h.mapped
  unfold mappedBlocks at hmapped
  have hle := (rootPlace_spec fs).1
  rw [sfsDirLink, if_neg (by omega)]
  exact hloop loopBound 0 (Nat.zero_le _) (by unfold loopBound; omega)

end Link

end SimpleFileSystem
