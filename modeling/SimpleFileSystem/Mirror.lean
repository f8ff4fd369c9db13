import SimpleFileSystem.FileStore
import SimpleFileSystem.LeftAlone
import SimpleFileSystem.LinkCounts
import SimpleFileSystem.Library.Agreement

/-!
# The disk and the faithful array

The requests on names were specified over a faithful array of blocks (`loggedLayer`).  Below
them is `fs.c` in fact, with block pointers, an index block, a chain of free blocks, and
inodes that are freed with the blocks of their files.  `Mirrors` says that a filesystem on
the disk shows what a view of the array does: the inodes are the same but for their times
and their block pointers (`Inode.Shadow`), which the array has no use for, the free inode
list is the same, and the blocks of the root directory read as the array has them.

Between two writes of blocks the blocks of the files stay where they are (`Still`), so what
an iterator holds stays good.  Each function of `fs.c` that the requests call is matched by
the one of the array: this module has one lemma for each.
-/

namespace SimpleFileSystem

variable {F : Type}

/-! ## The relation -/

/-- **The same inode**, but for its times and its blocks, of which the other one has none. -/
structure Inode.Shadow (v u : Inode) : Prop where
  inumber : u.inumber = v.inumber
  mode : u.mode = v.mode
  uid : u.uid = v.uid
  gid : u.gid = v.gid
  links : u.links = v.links
  size : u.size = v.size
  empty : ∀ i, u.pointer i = 0

/-- **The blocks of the files** are where they were, and hold what they held. -/
structure Still (A : List UInt64) (base fs : Filesystem F) : Prop where
  freeHead : fs.superblock.freeBlocksHead = base.superblock.freeBlocksHead
  inRange : fs.superblock.inRange = base.superblock.inRange
  block : ∀ b, base.superblock.inRange b = true → fs.disk.block b.toNat = base.disk.block b.toNat
  pointers : ∀ k ∈ A, (fs.logicalInode k).blockPointers = (base.logicalInode k).blockPointers
  size : (fs.logicalInode 1).size = (base.logicalInode 1).size

/-- **A filesystem on the disk that shows what a view does**, with the files `A`, the free
inodes `L`, and the blocks of the files as in `base`. -/
structure Mirrors (A : List UInt64) (L : FreeList) (base fs : Filesystem F) (w : View) : Prop where
  shelved : Shelved fs A L
  still : Still A base fs
  root : 1 ∈ A
  own : ∀ k, fs.superblock.ValidInumber k → (fs.logicalInode k).inumber = k
  /-- What has links is a file. -/
  alive : ∀ k, fs.superblock.ValidInumber k → (fs.logicalInode k).links ≠ 0 → k ∈ A
  memory : ∀ i, fs.host.mallocs i = true
  inodes : fs.superblock.inodes = w.inodes
  head : fs.superblock.freeInodeHead = w.head
  table : ∀ k, fs.superblock.ValidInumber k → (fs.logicalInode k).Shadow (w.table k)
  blocks : ∀ i, i < sfsNdirBlocks + sfsNindBlocks → w.files.blocks 1 i = base.fileBlock 1 i
  freed : fs.host.freed = w.freed

section Relation

variable {base fs fs' : Filesystem F} {A : List UInt64} {L : FreeList} {w : View} {v u : Inode}
  {k : UInt64}

theorem Still.refl (A : List UInt64) (fs : Filesystem F) : Still A fs fs :=
  ⟨rfl, rfl, fun _ _ => rfl, fun _ _ => rfl, rfl⟩

theorem Still.trans {fs'' : Filesystem F} (h : Still A fs fs') (h' : Still A fs' fs'') :
    Still A fs fs'' where
  freeHead := h'.freeHead.trans h.freeHead
  inRange := h'.inRange.trans h.inRange
  block b hb := (h'.block b (by rw [h.inRange]; exact hb)).trans (h.block b hb)
  pointers k hk := (h'.pointers k hk).trans (h.pointers k hk)
  size := h'.size.trans h.size

/-- The root directory is found where it was. -/
theorem Still.sameRoot (h : Still A base fs) (hroot : 1 ∈ A) : SameRoot base fs :=
  ⟨h.freeHead, h.inRange, h.block, h.pointers 1 hroot, h.size⟩

/-- A step on the inode table that keeps the pointers. -/
theorem Still.of_tableFrame {nodes : List UInt64} (himage : Image fs nodes A [])
    (hframe : TableFrame fs fs')
    (hpointers : ∀ k ∈ A, (fs'.logicalInode k).blockPointers = (fs.logicalInode k).blockPointers)
    (hsize : (fs'.logicalInode 1).size = (fs.logicalInode 1).size) : Still A fs fs' where
  freeHead := by rw [hframe.superblock]
  inRange := by rw [hframe.superblock]
  block _ hb := himage.block_of_tableFrame hframe hb
  pointers := hpointers
  size := hsize

/-- **The files** read as they did. -/
theorem Still.fileBlock {nodes : List UInt64} (h : Still A base fs) (himage : Image fs nodes A [])
    (hk : k ∈ A) (j : UInt64) : fs.fileBlock k j = base.fileBlock k j := by
  have hpointer : ∀ i, (fs.logicalInode k).pointer i = (base.logicalInode k).pointer i := by
    intro i
    rw [Inode.pointer, h.pointers k hk, Inode.pointer]
  have hresolve : fs.disk.resolve (fs.logicalInode k) j =
      base.disk.resolve (base.logicalInode k) j := by
    have hentry : ∀ i, fs.disk.entry ((base.logicalInode k).pointer 12) i =
        base.disk.entry ((base.logicalInode k).pointer 12) i := by
      intro i
      unfold Disk.entry
      split
      · rfl
      · next h0 =>
        rw [h.block]
        rw [← hpointer] at h0 ⊢
        rw [← h.inRange]
        exact himage.index_inRange hk h0
    simp only [Disk.resolve, hentry, hpointer]
  rw [Filesystem.fileBlock, Filesystem.fileBlock, hresolve]
  cases base.disk.resolve (base.logicalInode k) j with
  | none => rfl
  | some n =>
    simp only [Filesystem.fetch, h.inRange]
    split
    · rfl
    split
    · next hn => rw [h.block n hn]
    · rfl

/-- A file whose inode is written with the same pointers. -/
theorem Image.fileBlock_of_pointers {nodes : List UInt64} (h : Image fs nodes A []) (hk : k ∈ A)
    (hframe : TableFrame fs fs')
    (hpointers : (fs'.logicalInode k).blockPointers = (fs.logicalInode k).blockPointers)
    (j : UInt64) : fs'.fileBlock k j = fs.fileBlock k j := by
  have hpointer : ∀ i, (fs'.logicalInode k).pointer i = (fs.logicalInode k).pointer i := by
    intro i
    rw [Inode.pointer, hpointers, Inode.pointer]
  have hdata : DataFrame (fun _ => False) fs fs' :=
    DataFrame.of_tableFrame h.state.reliable h.state.table.inDisk hframe
  have hresolve : fs'.disk.resolve (fs'.logicalInode k) j =
      fs'.disk.resolve (fs.logicalInode k) j := by
    simp only [Disk.resolve, hpointer]
  rw [Filesystem.fileBlock, hresolve, fetch_eq_of_dataFrame h hk hdata fun _ _ => id,
    Filesystem.fileBlock]

theorem Inode.Shadow.direct (h : v.Shadow u) : ∀ p ∈ u.direct, p = 0 := by
  intro p hp
  obtain ⟨i, -, rfl⟩ := List.mem_map.mp hp
  exact h.empty i

namespace Mirrors

theorem valid (h : Mirrors A L base fs w) (hk : fs.superblock.ValidInumber k) : w.Valid k := by
  obtain ⟨nodes, himage⟩ := h.shelved.image
  exact ⟨hk.1, by rw [← h.inodes]; exact hk.2, himage.state.table.lt_int hk h.shelved.small⟩

theorem validInumber (h : Mirrors A L base fs w) (hk : w.Valid k) :
    fs.superblock.ValidInumber k :=
  ⟨hk.pos, by rw [h.inodes]; exact hk.le⟩

theorem mem_valid (h : Mirrors A L base fs w) (hk : k ∈ A) : fs.superblock.ValidInumber k := by
  obtain ⟨nodes, himage⟩ := h.shelved.image
  exact himage.valid k hk

/-- With the blocks as they are now. -/
theorem rebase (h : Mirrors A L base fs w) : Mirrors A L fs fs w := by
  obtain ⟨nodes, himage⟩ := h.shelved.image
  refine ⟨h.shelved, Still.refl A fs, h.root, h.own, h.alive, h.memory, h.inodes, h.head, h.table,
    fun i hi => ?_, h.freed⟩
  rw [h.blocks i hi, h.still.fileBlock himage h.root]

end Mirrors

end Relation

/-! ## Functions that leave the blocks where they are -/

section Functions

variable {base fs fs' : Filesystem F} {A : List UInt64} {L : FreeList} {w : View} {v u : Inode}
  {k : UInt64}

/-- A step on the host. -/
theorem Mirrors.of_host (h : Mirrors A L base fs w) (host : Host)
    (hfaults : host.faults = fs.host.faults) (hmemory : ∀ i, host.mallocs i = true) :
    Mirrors A L base { fs with host := host } { w with freed := host.freed } where
  shelved := by
    obtain ⟨nodes, himage⟩ := h.shelved.image
    exact ⟨⟨nodes, himage.of_host hfaults⟩,
      ⟨h.shelved.list.linked, h.shelved.list.valid, h.shelved.list.own⟩, h.shelved.stop,
      h.shelved.apart, h.shelved.small⟩
  still := ⟨h.still.freeHead, h.still.inRange, h.still.block, h.still.pointers, h.still.size⟩
  root := h.root
  own := h.own
  alive := h.alive
  memory := hmemory
  inodes := h.inodes
  head := h.head
  table := h.table
  blocks := h.blocks
  freed := rfl

/-- **A step on the inode table** that keeps the pointers of the files. -/
theorem Mirrors.of_tableFrame {table : UInt64 → Inode} {nodes : List UInt64}
    (h : Mirrors A L base fs w) (himage : Image fs' nodes A []) (hframe : TableFrame fs fs')
    (hfree : ∀ k ∈ L.inodes, fs'.logicalInode k = fs.logicalInode k)
    (hpointers : ∀ k ∈ A, (fs'.logicalInode k).blockPointers = (fs.logicalInode k).blockPointers)
    (htable : ∀ k, fs.superblock.ValidInumber k → (fs'.logicalInode k).inumber = k ∧
      ((fs'.logicalInode k).links ≠ 0 → k ∈ A) ∧ (fs'.logicalInode k).Shadow (table k)) :
    Mirrors A L fs' fs' { w with table := table } where
  shelved := by
    refine ⟨⟨nodes, himage⟩, h.shelved.list.congr ?_ ?_ hfree, ?_, h.shelved.apart, ?_⟩
    · rw [hframe.superblock]
    · rw [hframe.superblock]
    · rw [hframe.superblock]
      exact h.shelved.stop
    · rw [hframe.superblock]
      exact h.shelved.small
  still := Still.refl A fs'
  root := h.root
  own k hk := by
    rw [hframe.superblock] at hk
    exact (htable k hk).1
  alive k hk := by
    rw [hframe.superblock] at hk
    exact (htable k hk).2.1
  memory := by
    rw [hframe.host]
    exact h.memory
  inodes := by
    rw [hframe.superblock]
    exact h.inodes
  head := by
    rw [hframe.superblock]
    exact h.head
  table k hk := by
    rw [hframe.superblock] at hk
    exact (htable k hk).2.2
  blocks i hi := by
    obtain ⟨nodes₀, himage₀⟩ := h.shelved.image
    rw [h.blocks i hi, ← h.still.fileBlock himage₀ h.root]
    exact (himage₀.fileBlock_of_pointers h.root hframe (hpointers 1 h.root) i).symm
  freed := by
    rw [hframe.host]
    exact h.freed

/-- Where the blocks are still those of `base`. -/
theorem Mirrors.on (h : Mirrors A L fs' fs' w) (hstill : Still A base fs')
    (hblocks : ∀ i, i < sfsNdirBlocks + sfsNindBlocks → w.files.blocks 1 i = base.fileBlock 1 i) :
    Mirrors A L base fs' w :=
  { h with still := hstill, blocks := hblocks }

/-- **`sfs_fs_read_inode`** -/
theorem Mirrors.readInode (h : Mirrors A L base fs w) (hk : fs.superblock.ValidInumber k) :
    Run.Ensures (sfsFsReadInode k) fs fun answer fs' => answer = some (fs.logicalInode k) ∧
      Mirrors A L base fs' w ∧ fs'.host = fs.host ∧
        ∀ j, 0 < j → fs'.logicalInode j = fs.logicalInode j := by
  obtain ⟨nodes, himage⟩ := h.shelved.image
  refine (himage.readInode hk (himage.state.table.lt_int hk h.shelved.small)).mono ?_
  rintro answer fs' ⟨hanswer, himage', hframe, hsame⟩
  have hpointers : ∀ j ∈ A, (fs'.logicalInode j).blockPointers =
      (fs.logicalInode j).blockPointers := fun j hj => by
    rw [hsame j (himage.valid j hj).1]
  have hstill := Still.of_tableFrame himage hframe hpointers
    (by rw [hsame 1 (himage.valid 1 h.root).1])
  have hread : Mirrors A L fs' fs' { w with table := w.table } := by
    refine h.of_tableFrame himage' hframe (fun j hj => hsame j (h.shelved.list.valid j hj).1)
      hpointers fun j hj => ?_
    rw [hsame j hj.1]
    exact ⟨h.own j hj, h.alive j hj, h.table j hj⟩
  exact ⟨hanswer, hread.on (h.still.trans hstill) h.blocks, hframe.host, hsame⟩

/-- **`sfs_fs_write_inode`** of a file. -/
theorem Mirrors.writeInode_moved (h : Mirrors A L base fs w) (hv : fs.Current A v)
    (hu : v.Shadow u) :
    Run.Ensures (sfsFsWriteInode v) fs fun ret fs' => ret = 0 ∧
      Mirrors A L fs' fs' (w.setInode u) ∧ fs'.host = fs.host ∧
        fs'.logicalInode v.inumber = v ∧
        (∀ j, 0 < j → j ≠ v.inumber → fs'.logicalInode j = fs.logicalInode j) ∧
        ((v.inumber = 1 → v.size = (fs.logicalInode 1).size) → Still A fs fs') ∧
        ∀ j ∈ A, ∀ i, fs'.fileBlock j i = fs.fileBlock j i := by
  obtain ⟨nodes, himage⟩ := h.shelved.image
  have hvalid := himage.valid _ hv.mem
  refine (himage.writeInode [] hv.mem (himage.state.table.lt_int hvalid h.shelved.small)
    (by rw [hv.owned]) (hv.indexOk himage)).mono ?_
  rintro ret fs' ⟨hret, himage', hframe, hset, hsame⟩
  have hpointers : ∀ j ∈ A, (fs'.logicalInode j).blockPointers =
      (fs.logicalInode j).blockPointers := by
    intro j hj
    by_cases hjv : j = v.inumber
    · rw [hjv, hset, hv.pointers]
    · rw [hsame j (himage.valid j hj).1 hjv]
  have hwritten : Mirrors A L fs' fs' (w.setInode u) := by
    refine h.of_tableFrame himage' hframe (fun j hj => ?_) hpointers fun j hj => ?_
    · refine hsame j (h.shelved.list.valid j hj).1 ?_
      rintro rfl
      exact h.shelved.apart _ hj hv.mem
    · by_cases hjv : j = v.inumber
      · subst hjv
        rw [hset, hu.inumber, Function.update_self]
        exact ⟨rfl, fun _ => hv.mem, hu⟩
      · rw [hsame j hj.1 hjv, hu.inumber, Function.update_of_ne hjv]
        exact ⟨h.own j hj, h.alive j hj, h.table j hj⟩
  refine ⟨hret, hwritten, hframe.host, hset, hsame, fun hsize => ?_, fun j hj i =>
    himage.fileBlock_of_pointers hj hframe (hpointers j hj) i⟩
  refine Still.of_tableFrame himage hframe hpointers ?_
  by_cases h1 : v.inumber = 1
  · rw [← h1, hset, hsize h1, h1]
  · rw [hsame 1 (himage.valid 1 h.root).1 (Ne.symm h1)]

/-- One that keeps the length of the root directory. -/
theorem Mirrors.writeInode (h : Mirrors A L base fs w) (hv : fs.Current A v)
    (hsize : v.inumber = 1 → v.size = (fs.logicalInode 1).size) (hu : v.Shadow u) :
    Run.Ensures (sfsFsWriteInode v) fs fun ret fs' => ret = 0 ∧
      Mirrors A L base fs' (w.setInode u) ∧ fs'.host = fs.host ∧
        fs'.logicalInode v.inumber = v ∧
        ∀ j, 0 < j → j ≠ v.inumber → fs'.logicalInode j = fs.logicalInode j := by
  refine (h.writeInode_moved hv hu).mono ?_
  rintro ret fs' ⟨hret, hwritten, hhost, hset, hsame, hstill, -⟩
  exact ⟨hret, hwritten.on (h.still.trans (hstill hsize)) h.blocks, hhost, hset, hsame⟩

end Functions

/-! ## Memory that was freed -/

section Freed

/-- What `free` will do to the memory that it is given. -/
def Filesystem.freed (fs : Filesystem F) : ℕ → Block → Block :=
  fs.host.freed

/-- **Reading and writing** free no memory. -/
theorem spared_freed : Spared (Filesystem.freed (F := F)) where
  read n block := by
    intro fs a fs' hrun
    cases hrun
    rfl
  write n block := by
    intro fs a fs' hrun
    cases hrun
    rfl
  time := by
    intro fs a fs' hrun
    cases hrun
    rfl
  cache f := Run.keeps_modify fun _ => rfl
  blocksHead n := Run.keeps_modify fun _ => rfl

end Freed

/-! ## Functions that move blocks -/

section Moves

variable {base fs fs' : Filesystem F} {A l nodes : List UInt64} {L : FreeList} {w : View}
  {v u : Inode} {i k last : UInt64} {block : Block}

/-- A write past the last logical block. -/
theorem sfsFsInodeBlockWrite_past (fs : Filesystem F) (v : Inode)
    (hi : ¬ i < sfsNdirBlocks + sfsNindBlocks) (block : Block) :
    (sfsFsInodeBlockWrite v i block).run fs = .done (-1, v) fs := by
  have h12 : ¬ i < sfsNdirBlocks := fun hlt => hi (UInt64.lt_trans hlt (by decide))
  rw [sfsFsInodeBlockWrite, blockNumberForWrite, if_neg h12, if_neg hi]
  rfl

/-- **`sfs_fs_inode_block_write`** to the root directory, if it is not refused. -/
theorem Mirrors.blockWrite (h : Mirrors A L base fs w) (himage : Image fs nodes A [])
    (hblank : fs.BlankIndex (fs.logicalInode 1) i)
    (hgoes : ¬ fs.Refuses nodes (fs.logicalInode 1) i) (block : Block) :
    Run.Ensures (sfsFsInodeBlockWrite (fs.logicalInode 1) i block) fs fun answer fs' =>
      answer = (0, fs'.logicalInode 1) ∧ Mirrors A L fs' fs' (w.setBlock 1 i block) ∧
        (fs'.logicalInode 1).size = (fs.logicalInode 1).size ∧
        ∀ j ∈ A, j ≠ 1 → fs'.logicalInode j = fs.logicalInode j ∧
          ∀ i, fs'.fileBlock j i = fs.fileBlock j i := by
  have hvalid := h.mem_valid h.root
  have hown := h.own 1 hvalid
  have hcurrent : fs.Current A (fs.logicalInode 1) := ⟨by rw [hown]; exact h.root, by rw [hown]⟩
  obtain ⟨⟨ret, r⟩, fs', hrun, hwrote⟩ :=
    sfsFsInodeBlockWrite_wrote himage hcurrent h.shelved.small hblank block
  obtain ⟨hsettled, -, -, hiff⟩ :=
    (sfsFsInodeBlockWrite_ends himage hcurrent h.shelved.small i block).post hrun
  have hret : ret = 0 := hiff.mpr hgoes
  subst hret
  obtain ⟨hi, hwritten⟩ := hwrote.written rfl
  have hself : fs'.logicalInode 1 = r := by
    rw [← hown]
    exact hwrote.inodes.stored (by rw [hown])
  have hremapped := hwrote.inodes.remapped
  dsimp only at hremapped
  have hothers : ∀ j, fs.superblock.ValidInumber j → j ≠ 1 →
      fs'.logicalInode j = fs.logicalInode j := fun j hj hne =>
    hwrote.inodes.others j hj (by rw [hown]; exact hne)
  have hcount : fs'.superblock.inodes = fs.superblock.inodes := hsettled.inodes
  have hfiles := hwrote.files
  rw [hown] at hwritten hfiles
  refine Run.Ensures.of_eq hrun ⟨by rw [hself], ⟨h.shelved.write hcurrent hwrote, Still.refl A fs',
    h.root, fun j hj => ?_, fun j hj => ?_, ?_, ?_, ?_, fun j hj => ?_, fun j hj => ?_, ?_⟩, ?_,
    fun j hj hne => ⟨hothers j (himage.valid j hj) hne, hfiles j hj hne⟩⟩
  · rw [Superblock.ValidInumber, hcount] at hj
    by_cases h1 : j = 1
    · rw [h1, hself, hremapped.inumber, hown]
    · rw [hothers j hj h1]
      exact h.own j hj
  · rw [Superblock.ValidInumber, hcount] at hj
    by_cases h1 : j = 1
    · rw [h1]
      exact fun _ => h.root
    · rw [hothers j hj h1]
      exact h.alive j hj
  · rw [hsettled.mallocs]
    exact h.memory
  · rw [hcount]
    exact h.inodes
  · rw [hsettled.head]
    exact h.head
  · rw [Superblock.ValidInumber, hcount] at hj
    by_cases h1 : j = 1
    · have hshadow := h.table 1 hvalid
      rw [h1, hself, hremapped]
      exact ⟨hshadow.inumber, hshadow.mode, hshadow.uid, hshadow.gid, hshadow.links, hshadow.size,
        hshadow.empty⟩
    · rw [hothers j hj h1]
      exact h.table j hj
  · show Function.update w.files.blocks 1 (Function.update (w.files.blocks 1) i block) 1 j = _
    rw [Function.update_self]
    by_cases hji : j = i
    · rw [hji, Function.update_self, hwritten]
    · have hkept := hwrote.own j fun _ => hji
      rw [hown] at hkept
      rw [Function.update_of_ne hji, h.blocks j hj, hkept, h.still.fileBlock himage h.root]
  · exact (spared_freed.inodeBlockWrite _ _ _ _ _ _ hrun).trans h.freed
  · rw [hself, hremapped.size]

/-- **`sfs_fs_inode_allocate`** hands out the first of the free inodes. -/
theorem Mirrors.allocate (h : Mirrors A ⟨k :: l, last⟩ base fs w) :
    Run.Ensures sfsFsInodeAllocate fs fun answer fs' => answer = some (fs.logicalInode k) ∧
      Mirrors A ⟨l, last⟩ base fs' (w.withHead (fs.logicalInode k).size) ∧
        ∀ j, 0 < j → fs'.logicalInode j = fs.logicalInode j := by
  obtain ⟨nodes, himage⟩ := h.shelved.image
  have hk := h.shelved.list.valid k List.mem_cons_self
  obtain ⟨answer, fs', hrun, hanswer, himage', hdone⟩ := himage.allocateInode
    h.shelved.list.linked.1 hk (himage.state.table.lt_int hk h.shelved.small)
  obtain ⟨-, fs₁, -, hframe, hsame₁, hlast⟩ := (himage.allocateInode_reads
    h.shelved.list.linked.1 hk (himage.state.table.lt_int hk h.shelved.small)).post hrun
  have hsame := hdone.inodes
  have hcount : fs'.superblock.inodes = fs.superblock.inodes := by
    rw [hdone.superblock]
  have htable : fs'.superblock.inodeTableBlocks = fs.superblock.inodeTableBlocks := by
    rw [hdone.superblock]
  have hhead : fs'.superblock.freeInodeHead = (fs.logicalInode k).size := by
    rw [hdone.superblock]
  have hblock : ∀ b, fs.superblock.inRange b = true →
      fs'.disk.block b.toNat = fs.disk.block b.toNat := fun b hb => by
    rw [hlast, block_withInodeHead _ fun e => himage.ne_zero_of_inRange hb (UInt64.toNat_inj.mp e)]
    exact himage.block_of_tableFrame hframe hb
  have hstill : Still A fs fs' := by
    refine ⟨?_, ?_, hblock, fun j hj => ?_, ?_⟩
    · rw [hdone.superblock]
    · rw [hdone.superblock]
      exact Superblock.inRange_congr rfl rfl
    · rw [hsame j (himage.valid j hj).1]
    · rw [hsame 1 (himage.valid 1 h.root).1]
  have hlist : FreeInodesTo last fs' l := h.shelved.list.tail hhead hcount fun j hj =>
    hsame j (h.shelved.list.valid j (List.mem_cons_of_mem k hj)).1
  refine Run.Ensures.of_eq hrun ⟨hanswer, ?_, hsame⟩
  clear hlast
  generalize (fs.logicalInode k).size = next at hhead
  refine ⟨⟨⟨nodes, himage'⟩, hlist, ?_, fun j hj => ?_, ?_⟩, h.still.trans hstill, h.root,
    fun j hj => ?_, fun j hj => ?_, ?_, ?_, hhead, fun j hj => ?_, h.blocks, ?_⟩
  · rw [Superblock.ValidInumber, hcount]
    exact h.shelved.stop
  · exact h.shelved.apart j (List.mem_cons_of_mem k hj)
  · rw [htable]
    exact h.shelved.small
  · rw [Superblock.ValidInumber, hcount] at hj
    rw [hsame j hj.1]
    exact h.own j hj
  · rw [Superblock.ValidInumber, hcount] at hj
    rw [hsame j hj.1]
    exact h.alive j hj
  · rw [hdone.host]
    exact h.memory
  · rw [hcount]
    exact h.inodes
  · rw [Superblock.ValidInumber, hcount] at hj
    rw [hsame j hj.1]
    exact h.table j hj
  · rw [hdone.host]
    exact h.freed

/-- **The inode of a new file** is written, which has no blocks yet. -/
theorem Mirrors.writeNew (h : Mirrors A L base fs w) (hk : v.inumber ∉ A)
    (hfree : v.inumber ∉ L.inodes) (hvalid : fs.superblock.ValidInumber v.inumber)
    (hempty : ∀ i, v.pointer i = 0) (hu : v.Shadow u) :
    Run.Ensures (sfsFsWriteInode v) fs fun ret fs' => ret = 0 ∧
      Mirrors (v.inumber :: A) L fs' fs' (w.setInode u) ∧ fs'.logicalInode v.inumber = v ∧
        Still A fs fs' ∧ (∀ j ∈ A, ∀ i, fs'.fileBlock j i = fs.fileBlock j i) ∧
        (∀ j, 0 < j → j ≠ v.inumber → fs'.logicalInode j = fs.logicalInode j) ∧
        ∀ i, fs'.fileBlock v.inumber i = Block.zero := by
  obtain ⟨nodes, himage⟩ := h.shelved.image
  refine (himage.writeFreed hk hvalid
    (himage.state.table.lt_int hvalid h.shelved.small)).mono ?_
  rintro ret fs' ⟨hret, himage', hframe, hset, hsame⟩
  have hne : ∀ j ∈ A, j ≠ v.inumber := fun j hj e => hk (e ▸ hj)
  have hfiles : ∀ j ∈ A, fs'.logicalInode j = fs.logicalInode j := fun j hj =>
    hsame j (himage.valid j hj).1 (hne j hj)
  have hkept : ∀ j ∈ A, ∀ i, fs'.fileBlock j i = fs.fileBlock j i := fun j hj i =>
    himage.fileBlock_of_tableFrame hj hframe (hfiles j hj) i
  have hempty' : ∀ i, (fs'.logicalInode v.inumber).pointer i = 0 := by
    rw [hset]
    exact hempty
  have hsuper := hframe.superblock
  refine ⟨hret, ⟨⟨⟨nodes, ?_⟩, h.shelved.list.congr ?_ ?_ fun j hj => ?_, ?_, fun j hj => ?_, ?_⟩,
    Still.refl _ fs', List.mem_cons_of_mem _ h.root, fun j hj => ?_, fun j hj => ?_, ?_, ?_, ?_,
    fun j hj => ?_, fun j hj => ?_, ?_⟩, hset, ?_, hkept, hsame, fileBlock_of_empty hempty'⟩
  · refine himage'.addFile hk ?_ (Inode.owned_of_empty hempty' _)
    rw [hsuper]
    exact hvalid
  · rw [hsuper]
  · rw [hsuper]
  · exact hsame j (h.shelved.list.valid j hj).1 fun e => hfree (e ▸ hj)
  · rw [hsuper]
    exact h.shelved.stop
  · intro hmem
    rcases List.mem_cons.mp hmem with rfl | hmem
    · exact hfree hj
    · exact h.shelved.apart j hj hmem
  · rw [hsuper]
    exact h.shelved.small
  · rw [hsuper] at hj
    by_cases hjv : j = v.inumber
    · rw [hjv, hset]
    · rw [hsame j hj.1 hjv]
      exact h.own j hj
  · rw [hsuper] at hj
    by_cases hjv : j = v.inumber
    · exact fun _ => hjv ▸ List.mem_cons_self
    · rw [hsame j hj.1 hjv]
      exact fun hlinks => List.mem_cons_of_mem _ (h.alive j hj hlinks)
  · rw [hframe.host]
    exact h.memory
  · rw [hsuper]
    exact h.inodes
  · rw [hsuper]
    exact h.head
  · rw [hsuper] at hj
    show (fs'.logicalInode j).Shadow (Function.update w.table u.inumber u j)
    rw [hu.inumber]
    by_cases hjv : j = v.inumber
    · subst hjv
      rw [hset, Function.update_self]
      exact hu
    · rw [hsame j hj.1 hjv, Function.update_of_ne hjv]
      exact h.table j hj
  · rw [hkept 1 h.root, h.still.fileBlock himage h.root]
    exact h.blocks j hj
  · rw [hframe.host]
    exact h.freed
  · exact Still.of_tableFrame himage hframe (fun j hj => by rw [hfiles j hj])
      (by rw [hfiles 1 h.root])

/-- **`sfs_fs_inode_deallocate`** of a file without links. -/
theorem Mirrors.deallocate (h : Mirrors A L base fs w) (hv : fs.Current A v) (h1 : v.inumber ≠ 1)
    (hlinks : v.links = 0) (hu : v.Shadow u) :
    Run.Ensures (sfsFsInodeDeallocate v) fs fun ret fs' => ret = 0 ∧
      Mirrors (A.erase v.inumber) ⟨v.inumber :: L.inodes, L.last⟩ fs' fs'
        (((w.logged u.inumber).setInode { u with size := w.head }).withHead u.inumber) ∧
        fs'.host = fs.host ∧
        (∀ j, fs.superblock.ValidInumber j → j ≠ v.inumber →
          fs'.logicalInode j = fs.logicalInode j) ∧
        ∀ j ∈ A, j ≠ v.inumber → ∀ i, fs'.fileBlock j i = fs.fileBlock j i := by
  obtain ⟨nodes, himage⟩ := h.shelved.image
  have hvalid := himage.valid _ hv.mem
  obtain ⟨ret, fs', hrun, hret, hgave⟩ :=
    sfsFsInodeDeallocate_gaveUp himage hv h.shelved.small
  obtain ⟨-, nodes', -, hdone⟩ := (deallocate_loose (hv.released himage)
    himage.files.not_mem_erase hvalid
      (himage.state.table.lt_int hvalid h.shelved.small)).post hrun
  have hroot : 1 ∈ A.erase v.inumber := (List.mem_erase_of_ne (Ne.symm h1)).mpr h.root
  have hcount := hgave.layout.inodes
  have hself : fs'.logicalInode v.inumber =
      { v with size := fs.superblock.freeInodeHead } := hdone.inode
  obtain ⟨freed, hfreed, hshadow⟩ : ∃ freed : Inode, freed = { u with size := w.head } ∧
      Inode.Shadow { v with size := fs.superblock.freeInodeHead } freed :=
    ⟨_, rfl, hu.inumber, hu.mode, hu.uid, hu.gid, hu.links, h.head.symm, hu.empty⟩
  rw [← hfreed]
  refine Run.Ensures.of_eq hrun ⟨hret, ⟨h.shelved.gaveUp hv.mem hgave, Still.refl _ fs', hroot,
    fun j hj => ?_, fun j hj => ?_, ?_, ?_, ?_, fun j hj => ?_, fun j hj => ?_, ?_⟩, hgave.host,
    hgave.others, hgave.files⟩
  · rw [Superblock.ValidInumber, hcount] at hj
    by_cases hjv : j = v.inumber
    · rw [hjv, hgave.own]
    · rw [hgave.others j hj hjv]
      exact h.own j hj
  · rw [Superblock.ValidInumber, hcount] at hj
    by_cases hjv : j = v.inumber
    · rw [hjv, hself]
      exact fun hne => absurd hlinks hne
    · rw [hgave.others j hj hjv]
      exact fun hne => (List.mem_erase_of_ne hjv).mpr (h.alive j hj hne)
  · rw [hgave.host]
    exact h.memory
  · rw [hcount]
    exact h.inodes
  · rw [hgave.head]
    exact hu.inumber.symm
  · rw [Superblock.ValidInumber, hcount] at hj
    show (fs'.logicalInode j).Shadow (Function.update w.table freed.inumber freed j)
    by_cases hjv : j = v.inumber
    · subst hjv
      have hset : Function.update w.table freed.inumber freed v.inumber = freed := by
        rw [hshadow.inumber, Function.update_self]
      rw [hself, hset]
      exact hshadow
    · rw [hgave.others j hj hjv, Function.update_of_ne (by rw [hshadow.inumber]; exact hjv)]
      exact h.table j hj
  · rw [hgave.files 1 h.root (Ne.symm h1), h.still.fileBlock himage h.root]
    exact h.blocks j hj
  · rw [hgave.host]
    exact h.freed

end Moves

end SimpleFileSystem
