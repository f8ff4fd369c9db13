import SimpleFileSystem.FileBytes
import SimpleFileSystem.Ownership

/-!
# What the requests on names see of a filesystem

The requests on names read and write inodes, take inodes off the free inode list and put
them back, and read and write the blocks of the root directory.  On a reliable disk with a
coherent cache nothing else of the filesystem shows, and `View` is what does: the inode
table, the head of the free list, the blocks, and what `free` will do to the memory it is
given.  `Shows` says that a filesystem looks like that, and there is one lemma for each
function that the requests call.

The blocks are those of `loggedLayer`, an array of blocks that also keeps a record of the
inode numbers that `sfs_fs_inode_deallocate` is called on.
-/

namespace SimpleFileSystem

/-! ## The layer -/

/-- The logical blocks of the files, and the calls of `sfs_fs_inode_deallocate`. -/
structure DirFiles where
  blocks : Files
  /-- The inode numbers that it was called on, the last one first. -/
  deallocated : List UInt64

/-- Record a call. -/
def DirFiles.logged (files : DirFiles) (k : UInt64) : DirFiles :=
  { files with deallocated := k :: files.deallocated }

/-- A block of a file replaced. -/
def DirFiles.setBlock (files : DirFiles) (k i : UInt64) (block : Block) : DirFiles :=
  { files with blocks := files.blocks.setBlock k i block }

/-- **A faithful array of logical blocks** over `sfs_fs_inode_deallocate`, whose calls are
recorded, and any function that allocates inodes. -/
def loggedLayer (allocate : Fs DirFiles (Option Inode)) : InodeLayer DirFiles where
  allocate := allocate
  deallocate inode := do
    modify fun fs => { fs with files := fs.files.logged inode.inumber }
    sfsFsInodeDeallocate inode
  blockRead inode iblock block :=
    if iblock < sfsNdirBlocks + sfsNindBlocks then do
      let fs ← get
      return (0, fs.files.blocks inode.inumber iblock)
    else return (-1, block)
  blockWrite inode iblock block :=
    if iblock < sfsNdirBlocks + sfsNindBlocks then do
      modify fun fs => { fs with files := fs.files.setBlock inode.inumber iblock block }
      return (0, inode)
    else return (-1, inode)

/-! ## Views -/

/-- What the requests see of a filesystem. -/
structure View where
  /-- The number of inodes. -/
  inodes : UInt64
  table : UInt64 → Inode
  /-- The first inode of the free inode list. -/
  head : UInt64
  files : DirFiles
  freed : ℕ → Block → Block

namespace View

/-- An inode number of the table, in a block whose number the inode cache can hold. -/
structure Valid (w : View) (k : UInt64) : Prop where
  pos : 0 < k
  le : k ≤ w.inodes
  lt_int : (inodeBlock k).toNat < 2 ^ 31

theorem Valid.congr {w w' : View} {k : UInt64} (h : w.Valid k) (hinodes : w'.inodes = w.inodes) :
    w'.Valid k :=
  ⟨h.pos, by rw [hinodes]; exact h.le, h.lt_int⟩

/-- After a write of an inode. -/
def setInode (w : View) (v : Inode) : View :=
  { w with table := Function.update w.table v.inumber v }

/-- With another head of the free inode list. -/
def withHead (w : View) (x : UInt64) : View :=
  { w with head := x }

/-- After a write of a block of a file. -/
def setBlock (w : View) (k i : UInt64) (block : Block) : View :=
  { w with files := w.files.setBlock k i block }

/-- After a call of `sfs_fs_inode_deallocate`, before what it does. -/
def logged (w : View) (k : UInt64) : View :=
  { w with files := w.files.logged k }

/-- After a call of `free`. -/
def released (w : View) : View :=
  { w with freed := fun i => w.freed (i + 1) }

variable (w : View) (v : Inode) (x k i : UInt64) (block : Block)

@[simp] theorem setInode_inodes : (w.setInode v).inodes = w.inodes := rfl
@[simp] theorem setInode_head : (w.setInode v).head = w.head := rfl
@[simp] theorem setInode_files : (w.setInode v).files = w.files := rfl
@[simp] theorem setInode_freed : (w.setInode v).freed = w.freed := rfl

@[simp] theorem setInode_table_self : (w.setInode v).table v.inumber = v :=
  Function.update_self _ _ _

theorem setInode_table_of_ne {w : View} {v : Inode} {k : UInt64} (h : k ≠ v.inumber) :
    (w.setInode v).table k = w.table k :=
  Function.update_of_ne h _ _

end View

/-- **A filesystem that looks like that**, on a disk on which nothing fails. -/
structure Looks (fs : Filesystem DirFiles) (w : View) : Prop where
  state : InodeState fs
  inodes : fs.superblock.inodes = w.inodes
  table : ∀ k, w.Valid k → fs.logicalInode k = w.table k
  head : fs.superblock.freeInodeHead = w.head
  files : fs.files = w.files
  freed : fs.host.freed = w.freed

/-- **A step that keeps off the data blocks** and the superblock, and asks for no memory. -/
structure Keeps (fs fs' : Filesystem DirFiles) : Prop where
  superblock : fs'.superblock = fs.superblock
  mallocs : fs'.host.mallocs = fs.host.mallocs
  size : fs'.disk.size = fs.disk.size
  block : ∀ m : ℕ, (∀ n, fs.superblock.InTable n → n.toNat ≠ m) →
    fs'.disk.block m = fs.disk.block m

theorem TableFrame.keeps {fs fs' : Filesystem DirFiles} (h : TableFrame fs fs') : Keeps fs fs' :=
  ⟨h.superblock, by rw [h.host], h.size, h.block⟩

namespace Looks

variable {fs fs' : Filesystem DirFiles} {w : View} {k : UInt64} {v : Inode}

theorem valid (h : Looks fs w) (hk : w.Valid k) : fs.superblock.ValidInumber k :=
  ⟨hk.pos, by rw [h.inodes]; exact hk.le⟩

/-- A step that leaves all but the inodes alone. -/
theorem of_tableFrame {table : UInt64 → Inode} (h : Looks fs w) (hstate : InodeState fs')
    (hframe : TableFrame fs fs') (htable : ∀ k, w.Valid k → fs'.logicalInode k = table k) :
    Looks fs' { w with table := table } where
  state := hstate
  inodes := by rw [hframe.superblock]; exact h.inodes
  table k hk := htable k (hk.congr rfl)
  head := by rw [hframe.superblock]; exact h.head
  files := hframe.files.trans h.files
  freed := by rw [hframe.host]; exact h.freed

/-- A step on the host, on which still nothing fails. -/
theorem of_host (h : Looks fs w) (host : Host) (hfaults : host.faults = fs.host.faults) :
    Looks { fs with host := host } { w with freed := host.freed } where
  state := ⟨⟨fun i => by rw [hfaults]; exact h.state.reliable.noFaults i,
      h.state.reliable.covers, h.state.reliable.addressable⟩,
    ⟨h.state.table.inodes_le, h.state.table.inDisk⟩,
    ⟨h.state.cache.inTable, h.state.cache.clean, h.state.cache.agrees⟩⟩
  inodes := h.inodes
  table k hk := h.table k (hk.congr rfl)
  head := h.head
  files := h.files
  freed := rfl

/-- A step on the files. -/
theorem withFiles (h : Looks fs w) (files : DirFiles) :
    Looks { fs with files := files } { w with files := files } where
  state := ⟨⟨h.state.reliable.noFaults, h.state.reliable.covers, h.state.reliable.addressable⟩,
    ⟨h.state.table.inodes_le, h.state.table.inDisk⟩,
    ⟨h.state.cache.inTable, h.state.cache.clean, h.state.cache.agrees⟩⟩
  inodes := h.inodes
  table k hk := h.table k (hk.congr rfl)
  head := h.head
  files := rfl
  freed := h.freed

/-- A new head of the free inode list, written to the superblock. -/
theorem withInodeHead (h : Looks fs w) (x : UInt64) :
    Looks (fs.withInodeHead x) (w.withHead x) where
  state := inodeState_withInodeHead h.state x
  inodes := h.inodes
  table k hk := (logicalInode_withInodeHead x hk.pos).trans (h.table k (hk.congr rfl))
  head := rfl
  files := h.files
  freed := h.freed

end Looks

/-! ## What serves a directory -/

/-- **What the functions on directories rely on**: a relation of filesystems and views that
each function they call conserves, and that says what it answers. -/
structure Serves (L : InodeLayer DirFiles) (R : Filesystem DirFiles → View → Prop) : Prop where
  time_ensures : ∀ {fs w}, R fs w → Run.Ensures (time : Fs DirFiles UInt64) fs fun _ fs' => R fs' w
  free_ensures : ∀ {fs w}, R fs w → ∀ block, Run.Ensures (free block : Fs DirFiles Block) fs
    fun found fs' => found = w.freed 0 block ∧ R fs' w.released
  readInode_ensures : ∀ {fs w}, R fs w → ∀ {k}, w.Valid k → Run.Ensures (sfsFsReadInode k) fs
    fun answer fs' => answer = some (w.table k) ∧ R fs' w
  writeInode_ensures : ∀ {fs w}, R fs w → ∀ {v : Inode}, w.Valid v.inumber →
    Run.Ensures (sfsFsWriteInode v) fs fun ret fs' => ret = 0 ∧ R fs' (w.setInode v)
  blockRead_ensures : ∀ {fs w}, R fs w → ∀ {v : Inode} {k i}, v.inumber = k →
    i < sfsNdirBlocks + sfsNindBlocks → ∀ block, Run.Ensures (L.blockRead v i block) fs
      fun answer fs' => answer = (0, w.files.blocks k i) ∧ R fs' w
  blockWrite_ensures : ∀ {fs w}, R fs w → ∀ {v : Inode} {k i}, v.inumber = k →
    i < sfsNdirBlocks + sfsNindBlocks → ∀ block, Run.Ensures (L.blockWrite v i block) fs
      fun answer fs' => answer = (0, v) ∧ R fs' (w.setBlock k i block)
  blockWrite_past : ∀ (fs) (v : Inode) {i}, ¬ i < sfsNdirBlocks + sfsNindBlocks → ∀ block,
    (L.blockWrite v i block).run fs = .done (-1, v) fs

/-- **The layer serves**, and conserves what such steps keep. -/
theorem serves_loggedLayer (allocate : Fs DirFiles (Option Inode))
    {I : Filesystem DirFiles → Prop}
    (hI : ∀ fs fs', I fs → InodeState fs' → Keeps fs fs' → I fs') :
    Serves (loggedLayer allocate) fun fs w => Looks fs w ∧ I fs where
  time_ensures {fs w} h := by
    have hticked := h.1.of_host fs.ticked.host rfl
    rw [show fs.ticked.host.freed = w.freed from h.1.freed] at hticked
    exact Run.Ensures.of_eq (time_run fs)
      ⟨hticked, hI _ _ h.2 hticked.state ⟨rfl, rfl, rfl, fun _ _ => rfl⟩⟩
  free_ensures {fs w} h block := by
    refine ⟨fs.host.freed 0 block, _, rfl, by rw [h.1.freed], ?_⟩
    rw [View.released, ← h.1.freed]
    have hreleased := h.1.of_host { fs.host with freed := fun i => fs.host.freed (i + 1) } rfl
    exact ⟨hreleased, hI _ _ h.2 hreleased.state ⟨rfl, rfl, rfl, fun _ _ => rfl⟩⟩
  readInode_ensures {fs w} h k hk := by
    refine (sfsFsReadInode_ensures h.1.state (h.1.valid hk) hk.lt_int).mono ?_
    rintro _ fs' ⟨rfl, hstate, hframe, hsame⟩
    exact ⟨congrArg some (h.1.table k hk), h.1.of_tableFrame hstate hframe fun j hj =>
      (hsame j hj.pos).trans (h.1.table j hj), hI _ _ h.2 hstate hframe.keeps⟩
  writeInode_ensures {fs w} h v hv := by
    refine (sfsFsWriteInode_ensures h.1.state (h.1.valid hv) hv.lt_int).mono ?_
    rintro _ fs' ⟨rfl, hstate, hframe, hset, hsame⟩
    refine ⟨rfl, h.1.of_tableFrame hstate hframe fun j hj => ?_, hI _ _ h.2 hstate hframe.keeps⟩
    by_cases hjv : j = v.inumber
    · rw [hjv, hset, Function.update_self]
    · rw [hsame j hj.pos hjv, h.1.table j hj, Function.update_of_ne hjv]
  blockRead_ensures {fs w} h v k i hv hi block := by
    subst hv
    refine ⟨(0, fs.files.blocks v.inumber i), fs, ?_, by rw [h.1.files], h⟩
    exact congrArg (fun x : Fs DirFiles (ℤ × Block) => x.run fs) (if_pos hi)
  blockWrite_ensures {fs w} h v k i hv hi block := by
    subst hv
    refine ⟨(0, v), { fs with files := fs.files.setBlock v.inumber i block }, ?_, rfl, ?_⟩
    · exact congrArg (fun x : Fs DirFiles (ℤ × Inode) => x.run fs) (if_pos hi)
    · rw [View.setBlock, ← h.1.files]
      have hfiles := h.1.withFiles (fs.files.setBlock v.inumber i block)
      exact ⟨hfiles, hI _ _ h.2 hfiles.state ⟨rfl, rfl, rfl, fun _ _ => rfl⟩⟩
  blockWrite_past fs v i hi block :=
    congrArg (fun x : Fs DirFiles (ℤ × Inode) => x.run fs) (if_neg hi)

/-! ## Hosts with memory -/

/-- **A filesystem that looks like that**, on a host on which nothing fails. -/
structure Shows (fs : Filesystem DirFiles) (w : View) : Prop extends Looks fs w where
  memory : ∀ i, fs.host.mallocs i = true

theorem shows_iff (fs : Filesystem DirFiles) (w : View) :
    Shows fs w ↔ Looks fs w ∧ ∀ i, fs.host.mallocs i = true :=
  ⟨fun h => ⟨h.toLooks, h.memory⟩, fun h => ⟨h.1, h.2⟩⟩

theorem serves_shows (allocate : Fs DirFiles (Option Inode)) :
    Serves (loggedLayer allocate) Shows := by
  have hserves := serves_loggedLayer allocate
    (I := fun fs => ∀ i, fs.host.mallocs i = true) fun fs fs' h _ hkeeps i => by
      rw [hkeeps.mallocs]
      exact h i
  have hshows : Shows = fun fs w => Looks fs w ∧ ∀ i, fs.host.mallocs i = true := by
    funext fs w
    exact propext (shows_iff fs w)
  rw [hshows]
  exact hserves

namespace Shows

variable {fs fs' : Filesystem DirFiles} {w : View} {k : UInt64} {v : Inode}

theorem withInodeHead (h : Shows fs w) (x : UInt64) : Shows (fs.withInodeHead x) (w.withHead x) :=
  ⟨h.toLooks.withInodeHead x, h.memory⟩

theorem withFiles (h : Shows fs w) (files : DirFiles) :
    Shows { fs with files := files } { w with files := files } :=
  ⟨h.toLooks.withFiles files, h.memory⟩

theorem time_ensures (h : Shows fs w) :
    Run.Ensures (time : Fs DirFiles UInt64) fs fun _ fs' => Shows fs' w :=
  (serves_shows sfsFsInodeAllocate).time_ensures h

theorem malloc_ensures (h : Shows fs w) :
    Run.Ensures (malloc : Fs DirFiles Bool) fs fun got fs' => got = true ∧ Shows fs' w := by
  have hmalloced := h.of_host fs.malloced.host rfl
  rw [show fs.malloced.host.freed = w.freed from h.freed] at hmalloced
  exact Run.Ensures.of_eq (malloc_run fs) ⟨h.memory 0, hmalloced, fun i => h.memory (i + 1)⟩

/-- What is found in memory that was freed is the host's choice. -/
theorem free_ensures (h : Shows fs w) (block : Block) :
    Run.Ensures (free block : Fs DirFiles Block) fs fun found fs' =>
      found = w.freed 0 block ∧ Shows fs' w.released :=
  (serves_shows sfsFsInodeAllocate).free_ensures h block

theorem readInode_ensures (h : Shows fs w) (hk : w.Valid k) :
    Run.Ensures (sfsFsReadInode k) fs fun answer fs' =>
      answer = some (w.table k) ∧ Shows fs' w :=
  (serves_shows sfsFsInodeAllocate).readInode_ensures h hk

theorem writeInode_ensures (h : Shows fs w) (hv : w.Valid v.inumber) :
    Run.Ensures (sfsFsWriteInode v) fs fun ret fs' => ret = 0 ∧ Shows fs' (w.setInode v) :=
  (serves_shows sfsFsInodeAllocate).writeInode_ensures h hv

/-! ### The free inode list -/

theorem allocate_empty (h : Shows fs w) (h0 : w.head = 0) :
    Run.Ensures sfsFsInodeAllocate fs fun answer fs' => answer = none ∧ Shows fs' w := by
  refine ⟨none, fs, ?_, rfl, h⟩
  rw [sfsFsInodeAllocate, Run.run_bind, Run.run_get, Run.andThen_done]
  exact congrArg (fun x : Fs DirFiles (Option Inode) => x.run fs) (if_pos (h.head.trans h0))

/-- **`sfs_fs_inode_allocate`** hands out the first inode of the list. -/
theorem allocate_ensures (h : Shows fs w) (hk : w.Valid w.head) :
    Run.Ensures sfsFsInodeAllocate fs fun answer fs' =>
      answer = some (w.table w.head) ∧ Shows fs' (w.withHead (w.table w.head).size) := by
  rw [sfsFsInodeAllocate]
  refine Run.Ensures.bind (P := fun s t => fs = s ∧ fs = t) ⟨fs, fs, rfl, rfl, rfl⟩ ?_
  rintro _ _ ⟨rfl, rfl⟩
  rw [h.head, if_neg (Ne.symm (UInt64.ne_of_lt hk.pos))]
  refine (h.readInode_ensures hk).bind ?_
  rintro _ fs' ⟨rfl, h'⟩
  refine ⟨some (w.table w.head), fs'.withInodeHead (w.table w.head).size, ?_, rfl,
    h'.withInodeHead _⟩
  dsimp only
  rw [setInodeHead_run h'.state.reliable (blocks_pos h'.state.table.inDisk), if_neg (by simp),
    Run.run_pure]

/-- Of an inode without blocks none are freed. -/
theorem freePointers_of_zero {l : List UInt64} (hl : ∀ p ∈ l, p = 0) :
    (freePointers l : Fs DirFiles ℤ) = pure 0 := by
  induction l with
  | nil => rfl
  | cons p l ih =>
    rw [freePointers, if_pos (hl p List.mem_cons_self)]
    exact ih fun q hq => hl q (List.mem_cons_of_mem p hq)

/-- **`sfs_fs_inode_deallocate`** of an inode without blocks puts it in front of the
list. -/
theorem deallocate_ensures (h : Shows fs w) (allocate : Fs DirFiles (Option Inode))
    (hv : w.Valid v.inumber) (hblocks : ∀ p ∈ v.direct, p = 0) :
    Run.Ensures ((loggedLayer allocate).deallocate v) fs fun ret fs' => ret = 0 ∧
      Shows fs' (((w.logged v.inumber).setInode { v with size := w.head }).withHead v.inumber) := by
  have hlogged : Shows { fs with files := fs.files.logged v.inumber } (w.logged v.inumber) := by
    rw [View.logged, ← h.files]
    exact h.withFiles _
  refine Run.Ensures.bind (P := fun _ fs' => Shows fs' (w.logged v.inumber))
    ⟨(), _, rfl, hlogged⟩ ?_
  rintro _ fs₁ h₁
  rw [sfsFsInodeDeallocate]
  refine Run.Ensures.bind (P := fun s t => fs₁ = s ∧ fs₁ = t) ⟨fs₁, fs₁, rfl, rfl, rfl⟩ ?_
  rintro _ _ ⟨rfl, rfl⟩
  rw [h₁.head]
  refine (h₁.writeInode_ensures (v := { v with size := w.head }) (hv.congr rfl)).bind ?_
  rintro _ fs₂ ⟨rfl, h₂⟩
  refine ⟨0, fs₂.withInodeHead v.inumber, ?_, rfl, h₂.withInodeHead _⟩
  rw [if_neg (by simp), setInodeHead_run h₂.state.reliable (blocks_pos h₂.state.table.inDisk),
    if_neg (by simp)]
  exact congrArg (fun x : Fs DirFiles ℤ => x.run _) (freePointers_of_zero hblocks)

end Shows

end SimpleFileSystem
