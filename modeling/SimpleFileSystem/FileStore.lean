import SimpleFileSystem.WriteFrame
import SimpleFileSystem.InodeList
import SimpleFileSystem.Library.Table

/-!
# Files as a table of blocks

What `fs.c` is for, one level below names: a table whose rows are the files and whose places
are their logical blocks.  A read answers what was written last, a new file reads as zeros,
and nothing that happens to one file is seen in another, whatever the blocks on the disk have
been through in the meantime: freed with one file, handed out again to the next, turned into
an index block.

`FileIo` lists the calls of a client of `fs.c` that has files: it reads and writes their
blocks, some of the writes being refused, it takes an inode for a new file as `sfs_create`
does, and it gives files up.  `FileIoStep.refines` is one call, and
`reads_return_last_write` every run.
-/

open ByteCodec

namespace SimpleFileSystem

variable {F : Type}

/-! ## Steps that keep off the files -/

section Frames

variable {fs fs' : Filesystem F} {nodes A X : List UInt64} {k : UInt64} {v w : Inode}

/-- **A file that a step keeps off** reads as it did. -/
theorem Image.fileBlock_of_dataFrame {S : UInt64 → Prop} (h : Image fs nodes A X) (hk : k ∈ A)
    (hframe : DataFrame S fs fs') (hS : ∀ x ∈ fs.ownedBy k, ¬ S x)
    (hinode : fs'.logicalInode k = fs.logicalInode k) (j : UInt64) :
    fs'.fileBlock k j = fs.fileBlock k j := by
  rw [Filesystem.fileBlock, hinode, fetch_eq_of_dataFrame h hk hframe hS, Filesystem.fileBlock]

/-- A step on the inode table keeps off all files. -/
theorem Image.fileBlock_of_tableFrame (h : Image fs nodes A X) (hk : k ∈ A)
    (hframe : TableFrame fs fs') (hinode : fs'.logicalInode k = fs.logicalInode k) (j : UInt64) :
    fs'.fileBlock k j = fs.fileBlock k j :=
  h.fileBlock_of_dataFrame hk (S := fun _ => False)
    (DataFrame.of_tableFrame h.state.reliable h.state.table.inDisk hframe) (fun _ _ => id) hinode j

/-- So does one that sets the head of the free inode list. -/
theorem Image.fileBlock_withInodeHead (h : Image fs nodes A X) (hk : k ∈ A) (x j : UInt64) :
    (fs.withInodeHead x).fileBlock k j = fs.fileBlock k j := by
  have hinode : (fs.withInodeHead x).logicalInode k = fs.logicalInode k :=
    logicalInode_withInodeHead x (h.valid k hk).1
  have hframe : DataFrame (fun _ => False) fs (fs.withInodeHead x) := by
    refine ⟨(inodeState_withInodeHead h.state x).reliable, Superblock.inRange_congr rfl rfl,
      fun b hb _ => ?_⟩
    exact block_withInodeHead x fun e => h.ne_zero_of_inRange hb (UInt64.toNat_inj.mp e)
  exact h.fileBlock_of_dataFrame hk hframe (fun _ _ => id) hinode j

/-- An inode without pointers has no blocks. -/
theorem Inode.owned_of_empty (hempty : ∀ i, v.pointer i = 0) (d : Disk) : v.owned d = [] := by
  have hpointers : v.pointers = [] := by
    refine List.filter_eq_nil_iff.mpr fun x hx => ?_
    obtain ⟨i, -, rfl⟩ := List.mem_map.mp hx
    simp [hempty i]
  rw [Inode.owned, hpointers, Disk.indexEntries, if_pos (hempty 12), List.append_nil]

/-- A file without blocks reads as zeros. -/
theorem fileBlock_of_empty (hempty : ∀ i, (fs.logicalInode k).pointer i = 0) (j : UInt64) :
    fs.fileBlock k j = Block.zero := by
  rw [Filesystem.fileBlock, Disk.resolve]
  split
  · rw [hempty]
    rfl
  · split
    · rw [Disk.entry, if_pos (hempty 12)]
      rfl
    · rfl

/-- **A file without blocks** is added to the files. -/
theorem Image.addFile (h : Image fs nodes A X) (hk : k ∉ A)
    (hvalid : fs.superblock.ValidInumber k) (hnone : fs.ownedBy k = []) :
    Image fs nodes (k :: A) X := by
  have hcensus : census fs nodes (k :: A) X = census fs nodes A X := by
    rw [census, List.flatMap_cons, hnone, List.nil_append, census]
  refine ⟨h.state, h.linked, List.nodup_cons.mpr ⟨hk, h.files⟩, fun j hj => ?_, ?_, ?_⟩
  · rcases List.mem_cons.mp hj with rfl | hj
    · exact hvalid
    · exact h.valid j hj
  · rw [hcensus]
    exact h.distinct
  · rw [hcensus]
    exact h.inRange

end Frames

/-! ## The functions -/

section Functions

variable {fs : Filesystem F} {nodes A L : List UInt64} {v w : Inode} {i k : UInt64}

/-- **`sfs_fs_inode_block_read`** of a block of a file. -/
theorem Image.blockRead_run (h : Image fs nodes A []) (hv : fs.Current A v)
    (hi : i < sfsNdirBlocks + sfsNindBlocks) (block : Block) :
    (sfsFsInodeBlockRead v i block).run fs = .done (0, fs.fileBlock v.inumber i) fs := by
  have hrun := sfsFsInodeBlockRead_run (i := i) h.state.reliable (hv.indexOk h) block
  rw [hrun, hv.fileBlock]
  obtain ⟨x, hx⟩ : ∃ x, fs.disk.resolve v i = some x := by
    rw [Disk.resolve, if_pos hi]
    split
    · exact ⟨_, rfl⟩
    · exact ⟨_, rfl⟩
  rw [hx]
  by_cases h0 : x = 0
  · rw [h0]
    rfl
  · rw [hv.resolve] at hx
    rw [fetch_eq_of_resolve h hv.mem hx h0, fetch_eq_of_resolve h hv.mem hx h0]

/-- **`sfs_fs_inode_allocate`** is not seen in the files. -/
theorem Image.allocateInode_kept (h : Image fs nodes A [])
    (hhead : fs.superblock.freeInodeHead = k) (hk : fs.superblock.ValidInumber k)
    (hint : (inodeBlock k).toNat < 2 ^ 31) :
    Run.Ensures sfsFsInodeAllocate fs fun answer fs' => answer = some (fs.logicalInode k) ∧
      Image fs' nodes A [] ∧ InodeAllocated fs k fs' ∧
        ∀ j ∈ A, ∀ i, fs'.fileBlock j i = fs.fileBlock j i := by
  obtain ⟨answer, fs', hrun, hanswer, himage, hdone⟩ := h.allocateInode hhead hk hint
  refine Run.Ensures.of_eq hrun ⟨hanswer, himage, hdone, fun j hj i => ?_⟩
  obtain ⟨-, fs₁, himage₁, hframe, hsame, rfl⟩ := (h.allocateInode_reads hhead hk hint).post hrun
  rw [himage₁.fileBlock_withInodeHead hj,
    h.fileBlock_of_tableFrame hj hframe (hsame j (h.valid j hj).1)]

/-- What `sfs_fs_inode_deallocate` of the file `k` leaves. -/
structure GaveUp (fs : Filesystem F) (A : List UInt64) (k : UInt64) (fs' : Filesystem F) :
    Prop where
  image : ∃ nodes', Image fs' nodes' (A.erase k) []
  layout : SameLayout fs fs'
  head : fs'.superblock.freeInodeHead = k
  own : (fs'.logicalInode k).inumber = k
  next : (fs'.logicalInode k).size = fs.superblock.freeInodeHead
  others : ∀ j, fs.superblock.ValidInumber j → j ≠ k → fs'.logicalInode j = fs.logicalInode j
  host : fs'.host = fs.host
  files : ∀ j ∈ A, j ≠ k → ∀ i, fs'.fileBlock j i = fs.fileBlock j i

/-- **A deallocation** is not seen in the other files. -/
theorem sfsFsInodeDeallocate_gaveUp (h : Image fs nodes A []) (hv : fs.Current A v)
    (hsmall : fs.superblock.inodeTableBlocks.toNat < 2 ^ 31) :
    Run.Ensures (sfsFsInodeDeallocate v) fs fun ret fs' => ret = 0 ∧ GaveUp fs A v.inumber fs' := by
  have hvalid := h.valid _ hv.mem
  refine (deallocate_loose (hv.released h) h.files.not_mem_erase hvalid
    (h.state.table.lt_int hvalid hsmall)).mono ?_
  rintro ret fs' ⟨hret, nodes', himage, hdone⟩
  have himage' : Image fs' nodes' (A.erase v.inumber) [] := himage.forget (List.nil_sublist _)
  have hlayout : SameLayout fs fs' := by
    rw [SameLayout, hdone.superblock]
  refine ⟨hret, ⟨nodes', himage'⟩, hlayout, ?_, ?_, ?_, hdone.others, hdone.host,
    fun j hj hne i => ?_⟩
  · rw [hdone.superblock]
  · rw [hdone.inode]
  · rw [hdone.inode]
  · have hframe : DataFrame (fun x => x ∈ poolOf fs.disk nodes ∨ x ∈ v.direct) fs fs' := by
      refine ⟨himage'.state.reliable, ?_, fun x hx hS => ?_⟩
      · rw [hdone.superblock]
        exact Superblock.inRange_congr rfl rfl
      · exact hdone.block x hx (fun hp => hS (Or.inl hp)) fun hd => hS (Or.inr hd)
    refine h.fileBlock_of_dataFrame hj hframe ?_ (hdone.others j (h.valid j hj) hne) i
    rintro x hx (hS | hS)
    · exact h.owned_notMem_pool hj hx hS
    · have hx0 : x ≠ 0 := h.ne_zero_of_inRange (h.inRange x (Image.owned_mem hj hx))
      obtain ⟨e, he, rfl⟩ := List.mem_map.mp hS
      have he12 : e < 12 := List.mem_range.mp he
      rw [hv.pointer] at hx hx0
      exact h.owned_disjoint hj hv.mem hne hx (Inode.pointer_mem_owned (by omega) hx0)

end Functions

/-! ## A filesystem with its files -/

/-- **A filesystem** with the files `A` and the free inodes `L`. -/
structure Shelved (fs : Filesystem F) (A : List UInt64) (L : FreeList) : Prop where
  image : ∃ nodes, Image fs nodes A []
  list : FreeInodesTo L.last fs L.inodes
  stop : ¬ fs.superblock.ValidInumber L.last
  apart : ∀ k ∈ L.inodes, k ∉ A
  /-- The number of the cached block is an `int`. -/
  small : fs.superblock.inodeTableBlocks.toNat < 2 ^ 31

namespace Shelved

variable {fs fs₁ fs₂ : Filesystem F} {A l : List UInt64} {L : FreeList} {v w : Inode}
  {i k last : UInt64} {data block : Block}

/-- The list goes on at an inode as long as there is one on it. -/
theorem ne_last (h : Shelved fs A L) (hk : fs.superblock.ValidInumber k) : k ≠ L.last :=
  fun e => h.stop (e ▸ hk)

/-- **A write**, successful or not, leaves the files and the free inodes what they are. -/
theorem write (h : Shelved fs A L) {x : ℤ × Inode} (hv : fs.Current A v)
    (hwrote : Wrote fs A v i data x fs₁) : Shelved fs₁ A L where
  image := hwrote.image
  list := by
    refine h.list.congr hwrote.settled.head hwrote.settled.inodes fun k hk => ?_
    exact hwrote.inodes.others k (h.list.valid k hk) fun e => h.apart k hk (e ▸ hv.mem)
  stop := by
    rw [Superblock.ValidInumber, hwrote.settled.inodes]
    exact h.stop
  apart := h.apart
  small := by
    rw [hwrote.settled.inodeTableBlocks]
    exact h.small

/-- **A file given up** is a free inode. -/
theorem gaveUp (h : Shelved fs A L) (hk : k ∈ A) (hgave : GaveUp fs A k fs₁) :
    Shelved fs₁ (A.erase k) ⟨k :: L.inodes, L.last⟩ where
  image := hgave.image
  list := by
    obtain ⟨nodes, himage⟩ := h.image
    have hvalid := himage.valid k hk
    refine h.list.cons hvalid (h.ne_last hvalid) hgave.head hgave.layout.inodes hgave.own hgave.next
      fun j hj => hgave.others j (h.list.valid j hj) ?_
    rintro rfl
    exact h.apart j hj hk
  stop := by
    rw [Superblock.ValidInumber, hgave.layout.inodes]
    exact h.stop
  apart j hj hmem := by
    obtain ⟨nodes, himage⟩ := h.image
    rcases List.mem_cons.mp hj with rfl | hj
    · exact himage.files.not_mem_erase hmem
    · exact h.apart j hj (List.mem_of_mem_erase hmem)
  small := by
    rw [hgave.layout.inodeTableBlocks]
    exact h.small

/-- The list ends with 0 if there is nothing on it. -/
theorem last_eq_zero (h : Shelved fs A L) (hhead : fs.superblock.HeadOk) (hnil : L.inodes = []) :
    L.last = 0 := by
  have hlinked := h.list.linked
  rw [hnil] at hlinked
  by_contra hne
  rw [← show fs.superblock.freeInodeHead = L.last from hlinked] at hne
  exact h.stop (hlinked ▸ hhead hne)

/-- **A new file** is the first of the free inodes, and reads as zeros. -/
theorem create (h : Shelved fs A L) (hhead : fs.superblock.HeadOk)
    (halloc : sfsFsInodeAllocate.run fs = .done (some v) fs₁) (hw : w.inumber = v.inumber)
    (hempty : ∀ i, w.pointer i = 0) (hrun : (sfsFsWriteInode w).run fs₁ = .done 0 fs₂) :
    ∃ l, L.inodes = w.inumber :: l ∧ Shelved fs₂ (w.inumber :: A) ⟨l, L.last⟩ ∧
      (∀ j ∈ A, ∀ i, fs₂.fileBlock j i = fs.fileBlock j i) ∧
      ∀ i, fs₂.fileBlock w.inumber i = Block.zero := by
  obtain ⟨nodes, himage⟩ := h.image
  obtain ⟨l, last⟩ := L
  cases l with
  | nil =>
    rw [sfsFsInodeAllocate_of_head_eq_zero (h.list.linked.trans (h.last_eq_zero hhead rfl))]
      at halloc
    cases halloc
  | cons k L =>
    have hk := h.list.valid k List.mem_cons_self
    have hint := himage.state.table.lt_int hk h.small
    obtain ⟨hanswer, himage₁, hdone, hsame⟩ :=
      (himage.allocateInode_kept h.list.linked.1 hk hint).post halloc
    have hown : w.inumber = k := by
      rw [hw, Option.some.inj hanswer]
      exact h.list.own k List.mem_cons_self
    subst hown
    have hnotin := h.apart w.inumber List.mem_cons_self
    have hcount : fs₁.superblock.inodes = fs.superblock.inodes := by
      rw [hdone.superblock]
    have hvalid : fs₁.superblock.ValidInumber w.inumber := by
      rw [Superblock.ValidInumber, hcount]
      exact hk
    obtain ⟨-, himage₂, hframe, hset, hothers⟩ :=
      (himage₁.writeFreed hnotin hvalid hint).post hrun
    have hempty₂ : ∀ i, (fs₂.logicalInode w.inumber).pointer i = 0 := by
      rw [hset]
      exact hempty
    have hsuper := hframe.superblock
    have hinodes : ∀ j, 0 < j → j ≠ w.inumber → fs₂.logicalInode j = fs.logicalInode j :=
      fun j hj hne => (hothers j hj hne).trans (hdone.inodes j hj)
    refine ⟨L, rfl, ⟨⟨nodes, ?_⟩, ?_, ?_, fun j hj hmem => ?_, ?_⟩, fun j hj i => ?_,
      fileBlock_of_empty hempty₂⟩
    · refine himage₂.addFile hnotin ?_ (Inode.owned_of_empty hempty₂ _)
      rw [hsuper]
      exact hvalid
    · refine h.list.tail ?_ ?_ fun j hj => hinodes j ?_ ?_
      · rw [hsuper, hdone.superblock]
      · rw [hsuper, hcount]
      · exact (h.list.valid j (List.mem_cons_of_mem _ hj)).1
      · rintro rfl
        exact (List.nodup_cons.mp h.list.nodup).1 hj
    · rw [hsuper, Superblock.ValidInumber, hcount]
      exact h.stop
    · rcases List.mem_cons.mp hmem with rfl | hmem
      · exact (List.nodup_cons.mp h.list.nodup).1 hj
      · exact h.apart j (List.mem_cons_of_mem _ hj) hmem
    · have htable : fs₁.superblock.inodeTableBlocks = fs.superblock.inodeTableBlocks := by
        rw [hdone.superblock]
      rw [hsuper, htable]
      exact h.small
    · have hne : j ≠ w.inumber := fun e => hnotin (e ▸ hj)
      rw [himage₁.fileBlock_of_tableFrame hj hframe (hothers j (himage.valid j hj).1 hne),
        hsame j hj]

end Shelved

/-! ## Calls -/

/-- A call of a client that has files, with its answer. -/
inductive FileIo where
  /-- A read that returned 0. -/
  | read (k i : UInt64) (data : Block)
  /-- A write that returned 0. -/
  | write (k i : UInt64) (data : Block)
  /-- A write that returned -1. -/
  | refused (k i : UInt64)
  /-- An inode for a new file. -/
  | create (k : UInt64)
  | delete (k : UInt64)

/-- The call as one on a table of blocks, if it is one. -/
def FileIo.onTable : FileIo → Option (TableEvent UInt64 UInt64 Block)
  | .read k i data => some (.get k i data)
  | .write k i data => some (.set k i data)
  | .refused _ _ => none
  | .create k => some (.reset k)
  | .delete _ => none

/-- What a call puts into a logical block of a file. -/
def FileIo.put (k i : UInt64) (e : FileIo) : Option Block :=
  e.onTable.bind (TableEvent.put Block.zero k i)

/-- **A call**, on a filesystem with its files.  The client has a copy of the inode of the file
that it reads, writes or gives up; a write that makes a block an index block finds a blank
one, and when an inode is taken the head of the free inode list is one, or 0. -/
inductive FileIoStep : Filesystem F × List UInt64 → FileIo → Filesystem F × List UInt64 → Prop where
  | read {fs fs' : Filesystem F} {A : List UInt64} {v : Inode} {i : UInt64} {block data : Block}
      (current : fs.Current A v)
      (run : (sfsFsInodeBlockRead v i block).run fs = .done (0, data) fs') :
      FileIoStep (fs, A) (.read v.inumber i data) (fs', A)
  | write {fs fs' : Filesystem F} {A : List UInt64} {v w : Inode} {i : UInt64} {data : Block}
      (current : fs.Current A v) (blank : fs.BlankIndex v i)
      (run : (sfsFsInodeBlockWrite v i data).run fs = .done (0, w) fs') :
      FileIoStep (fs, A) (.write v.inumber i data) (fs', A)
  | refused {fs fs' : Filesystem F} {A : List UInt64} {v w : Inode} {i : UInt64} {data : Block}
      (current : fs.Current A v) (blank : fs.BlankIndex v i)
      (run : (sfsFsInodeBlockWrite v i data).run fs = .done (-1, w) fs') :
      FileIoStep (fs, A) (.refused v.inumber i) (fs', A)
  | create {fs fs₁ fs' : Filesystem F} {A : List UInt64} {v w : Inode}
      (head : fs.superblock.HeadOk)
      (allocate : sfsFsInodeAllocate.run fs = .done (some v) fs₁) (inumber : w.inumber = v.inumber)
      (empty : ∀ i, w.pointer i = 0) (run : (sfsFsWriteInode w).run fs₁ = .done 0 fs') :
      FileIoStep (fs, A) (.create w.inumber) (fs', w.inumber :: A)
  | delete {fs fs' : Filesystem F} {A : List UInt64} {v : Inode} {ret : ℤ}
      (current : fs.Current A v) (run : (sfsFsInodeDeallocate v).run fs = .done ret fs') :
      FileIoStep (fs, A) (.delete v.inumber) (fs', A.erase v.inumber)

/-- The blocks of the files are those of a table. -/
def Tabled (s : Filesystem F × List UInt64) (f : UInt64 → UInt64 → Block) : Prop :=
  (∃ L, Shelved s.1 s.2 L) ∧
    ∀ k ∈ s.2, ∀ i, i < sfsNdirBlocks + sfsNindBlocks → f k i = s.1.fileBlock k i

section Runs

variable {s t : Filesystem F × List UInt64} {e : FileIo} {f : UInt64 → UInt64 → Block}
  {tr : List FileIo}

/-- A write that is refused, or a file given up, is not one on the table. -/
theorem FileIoStep.silent (hs : Tabled s f) (h : FileIoStep s e t) (he : e.onTable = none) :
    Tabled t f := by
  obtain ⟨⟨L, hshelved⟩, hblocks⟩ := hs
  obtain ⟨nodes, himage⟩ := hshelved.image
  cases h with
  | read => cases he
  | write => cases he
  | @refused fs fs' A v w i data current blank run =>
    have hwrote := (sfsFsInodeBlockWrite_wrote himage current hshelved.small blank data).post run
    refine ⟨⟨L, hshelved.write current hwrote⟩, fun k hk j hj => (hblocks k hk j hj).trans ?_⟩
    by_cases hkv : k = v.inumber
    · rw [hkv]
      exact (hwrote.own j fun h0 => absurd (show (-1 : ℤ) = 0 from h0) (by decide)).symm
    · exact (hwrote.files k hk hkv j).symm
  | create => cases he
  | @delete fs fs' A v ret current run =>
    obtain ⟨-, hgave⟩ := (sfsFsInodeDeallocate_gaveUp himage current hshelved.small).post run
    refine ⟨⟨_, hshelved.gaveUp current.mem hgave⟩, fun k hk j hj => ?_⟩
    have hne : k ≠ v.inumber := (himage.files.mem_erase_iff.mp hk).1
    exact (hblocks k (List.mem_of_mem_erase hk) j hj).trans
      (hgave.files k (List.mem_of_mem_erase hk) hne j).symm

/-- **A call on the table** does there what it is to do. -/
theorem FileIoStep.refines (hs : Tabled s f) (h : FileIoStep s e t)
    {e' : TableEvent UInt64 UInt64 Block} (he : e.onTable = some e') :
    ∃ g, TableStep Block.zero f e' g ∧ Tabled t g := by
  obtain ⟨⟨L, hshelved⟩, hblocks⟩ := hs
  obtain ⟨nodes, himage⟩ := hshelved.image
  cases h with
  | @read fs fs' A v i block data current run =>
    cases he
    by_cases hi : i < sfsNdirBlocks + sfsNindBlocks
    · rw [himage.blockRead_run current hi] at run
      cases run
      refine ⟨f, ?_, ⟨L, hshelved⟩, hblocks⟩
      rw [← hblocks _ current.mem i hi]
      exact TableStep.get f _ i
    · -- past the last logical block nothing is read
      rw [sfsFsInodeBlockRead_run himage.state.reliable (current.indexOk himage), Disk.resolve,
        if_neg fun hlt => hi (UInt64.lt_trans hlt (by decide)), if_neg hi] at run
      cases run
  | @write fs fs' A v w i data current blank run =>
    cases he
    have hwrote := (sfsFsInodeBlockWrite_wrote himage current hshelved.small blank data).post run
    refine ⟨_, TableStep.set f _ i data, ⟨L, hshelved.write current hwrote⟩, fun k hk j hj => ?_⟩
    by_cases hkv : k = v.inumber
    · subst hkv
      rw [Function.update_self]
      by_cases hji : j = i
      · rw [hji, Function.update_self]
        exact (hwrote.written rfl).2.symm
      · rw [Function.update_of_ne hji]
        exact (hblocks _ hk j hj).trans (hwrote.own j fun _ => hji).symm
    · rw [Function.update_of_ne hkv]
      exact (hblocks k hk j hj).trans (hwrote.files k hk hkv j).symm
  | refused => cases he
  | @create fs fs₁ fs' A v w head allocate inumber empty run =>
    cases he
    obtain ⟨l, hl, hshelved', hsame, hzero⟩ := hshelved.create head allocate inumber empty run
    refine ⟨_, TableStep.reset f w.inumber, ⟨_, hshelved'⟩, fun k hk j hj => ?_⟩
    rcases List.mem_cons.mp hk with rfl | hk
    · rw [Function.update_self]
      exact (hzero j).symm
    · have hne : k ≠ w.inumber := fun e =>
        hshelved.apart w.inumber (hl ▸ List.mem_cons_self) (e ▸ hk)
      rw [Function.update_of_ne hne]
      exact (hblocks k hk j hj).trans (hsame k hk j).symm
  | delete => cases he

/-- What was put there last, in the calls on the table. -/
theorem findSome_put (tr : List FileIo) (k i : UInt64) :
    (tr.filterMap FileIo.onTable).reverse.findSome? (TableEvent.put Block.zero k i) =
      tr.reverse.findSome? (FileIo.put k i) := by
  rw [← List.filterMap_reverse, ← List.head?_filterMap, List.filterMap_filterMap,
    List.head?_filterMap]
  rfl

/-- **Every read returns what was written last.**  Whatever calls a client has made on files,
and whatever became of the blocks on the disk: a logical block of a file reads as what the last
successful write put there, as zeros if the file has been created since, and as what it read as
at the start if neither happened. -/
theorem reads_return_last_write (h : ∃ L, Shelved s.1 s.2 L) (hexec : Exec FileIoStep s tr t)
    {v : Inode} (hv : t.1.Current t.2 v) {i : UInt64} (hi : i < sfsNdirBlocks + sfsNindBlocks)
    (block : Block) :
    (sfsFsInodeBlockRead v i block).run t.1 = .done (0,
      (tr.reverse.findSome? (FileIo.put v.inumber i)).getD (s.1.fileBlock v.inumber i)) t.1 := by
  have hstart : Tabled s s.1.fileBlock := ⟨h, fun _ _ _ _ => rfl⟩
  obtain ⟨g, hrun, ⟨L, hshelved⟩, hblocks⟩ := hexec.project FileIo.onTable
    (fun _ _ _ _ hs hstep he => hstep.silent hs he)
    (fun _ _ _ _ _ hs hstep he => hstep.refines hs he) hstart
  obtain ⟨nodes, himage⟩ := hshelved.image
  have hlast := TableStep.apply_eq_last hrun v.inumber i
  rw [findSome_put] at hlast
  rw [himage.blockRead_run hv hi, ← hblocks _ hv.mem i hi, hlast]

/-- On the disk with one free block, a file that has just been created. -/
theorem exists_created_oneFreeBlock :
    ∃ fs fs' : Filesystem Unit, Shelved fs [] ⟨[2], 0⟩ ∧
      FileIoStep (fs, []) (.create 2) (fs', [2]) ∧ Image fs' [3] [2] [] ∧ fs'.Current [2] emptyTwo ∧
      fs'.superblock.inodeTableBlocks.toNat < 2 ^ 31 := by
  obtain ⟨fs, hmounted, -⟩ := exists_mounted_oneFreeBlock
  have hshelved : Shelved fs [] ⟨[2], 0⟩ :=
    ⟨⟨_, hmounted.image⟩, hmounted.list, fun h0 => absurd h0.1 (UInt64.lt_irrefl 0),
      fun _ _ => List.not_mem_nil, hmounted.small⟩
  have hhead : fs.superblock.HeadOk := by
    rw [Superblock.HeadOk, hmounted.list.linked.1]
    intro _
    exact hmounted.list.valid 2 List.mem_cons_self
  have hint := hmounted.lt_int (hmounted.list.valid 2 List.mem_cons_self)
  obtain ⟨answer, fs₁, halloc, hanswer, himage₁, hdone, -⟩ :=
    hmounted.image.allocateInode_kept hmounted.list.linked.1
      (hmounted.list.valid 2 List.mem_cons_self) hint
  subst hanswer
  have hown : (fs.logicalInode 2).inumber = 2 := hmounted.list.own 2 List.mem_cons_self
  have hvalid : fs₁.superblock.ValidInumber emptyTwo.inumber := by
    have hcount : fs₁.superblock.inodes = fs.superblock.inodes := by
      rw [hdone.superblock]
    rw [Superblock.ValidInumber, hcount]
    exact hmounted.list.valid 2 List.mem_cons_self
  obtain ⟨ret, fs₂, hrun, rfl, himage₂, hframe, hset, -⟩ :=
    himage₁.writeFreed List.not_mem_nil hvalid hint
  have hstep : FileIoStep (fs, []) (.create 2) (fs₂, [2]) :=
    FileIoStep.create hhead halloc hown.symm emptyTwo_pointer hrun
  have hcurrent : fs₂.Current [2] emptyTwo := by
    refine ⟨List.mem_cons_self, ?_⟩
    rw [hset]
  have himage : Image fs₂ [3] [2] [] := by
    refine himage₂.addFile List.not_mem_nil ?_ (Inode.owned_of_empty (fun j => ?_) _)
    · rw [hframe.superblock]
      exact hvalid
    · rw [show fs₂.logicalInode 2 = emptyTwo from hset, emptyTwo_pointer]
  have hsmall : fs₂.superblock.inodeTableBlocks.toNat < 2 ^ 31 := by
    rw [hframe.superblock, hdone.superblock]
    exact hmounted.small
  exact ⟨fs, fs₂, hshelved, hstep, himage, hcurrent, hsmall⟩

/-- **A block is written to it and read back**, and another one reads as zeros. -/
theorem reads_return_last_write_oneFreeBlock :
    ∃ (s t : Filesystem Unit × List UInt64) (v : Inode) (data : Block),
      Exec FileIoStep s [.create 2, .write 2 0 data, .read 2 0 data] t ∧ data ≠ Block.zero ∧
      v.inumber = 2 ∧ (sfsFsInodeBlockRead v 0 Block.zero).run t.1 = .done (0, data) t.1 := by
  obtain ⟨fs, fs₁, hshelved, hcreate, himage, hcurrent, hsmall⟩ := exists_created_oneFreeBlock
  have hblank : fs₁.BlankIndex emptyTwo 0 := fun hnew => absurd hnew.1 (by decide)
  obtain ⟨⟨ret, w⟩, fs₂, hrun, -, hinumber, -, hret⟩ :=
    sfsFsInodeBlockWrite_ends himage hcurrent hsmall 0 (Block.zero.setWord 0 1)
  have hwrote := (sfsFsInodeBlockWrite_wrote himage hcurrent hsmall hblank _).post hrun
  -- the chain has a node, so there is a block for it
  have hspec := allocate_spec himage.state.reliable himage.chain
  have hzero : ret = 0 := by
    refine hret.mpr ?_
    have hresolve : fs₁.disk.resolve emptyTwo 0 = some 0 := rfl
    rw [Filesystem.Refuses, hresolve]
    rintro ⟨-, hrefused⟩
    obtain ⟨-, hnil, -⟩ | ⟨n, nodes', hnext, -⟩ := hspec
    · exact absurd hnil (List.cons_ne_nil 3 [])
    · rw [hnext] at hrefused
      exact hrefused.1 (by decide)
  subst hzero
  obtain ⟨nodes, himage₂⟩ := hwrote.image
  have hread : (sfsFsInodeBlockRead w 0 Block.zero).run fs₂ =
      .done (0, Block.zero.setWord 0 1) fs₂ := by
    rw [himage₂.blockRead_run hwrote.current (by decide), hinumber, (hwrote.written rfl).2]
  have hstep : FileIoStep (fs₂, [2]) (.read w.inumber 0 (Block.zero.setWord 0 1)) (fs₂, [2]) :=
    FileIoStep.read hwrote.current hread
  rw [hinumber] at hstep
  have hexec : Exec FileIoStep (fs, [])
      [.create 2, .write 2 0 (Block.zero.setWord 0 1), .read 2 0 (Block.zero.setWord 0 1)]
      (fs₂, [2]) :=
    .cons hcreate (.cons (FileIoStep.write hcurrent hblank hrun) (.cons hstep (.nil _)))
  refine ⟨_, _, w, _, hexec, fun h => absurd (congrArg (Block.word · 0) h) (by decide +kernel),
    hinumber, ?_⟩
  rw [reads_return_last_write ⟨_, hshelved⟩ hexec hwrote.current (by decide), hinumber]
  rfl

end Runs

end SimpleFileSystem
