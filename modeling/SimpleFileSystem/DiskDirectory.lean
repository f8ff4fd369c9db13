import SimpleFileSystem.Directories
import SimpleFileSystem.InodeList
import SimpleFileSystem.WriteLaw

/-!
# The root directory on the disk

What an iterator finds in the root directory when `fs.c` itself is below it: the slot `i`
is what the logical block `i` of inode 1 holds, on the disk, in a hole or nowhere
(`Filesystem.rootSlot`).  On a well-formed filesystem (`Rooted`) nothing on the way fails,
and all that a search changes is the access time of the directory (`Browsed`), so
`searchRoot_ensures` says what the search of a request ends with and that the directory, the
inodes and the free lists are then what they were.
-/

namespace SimpleFileSystem

variable {F : Type}

/-! ## Slots and names -/

/-- The slot `i` of the root directory. -/
def Filesystem.rootSlot (fs : Filesystem F) (i : ℕ) : DirEntry :=
  Block.dirEntry
    (fs.fetch (fs.disk.resolve (fs.logicalInode 1) (UInt64.ofNat i)) Block.zero).2 0

/-- The number of its slots. -/
def Filesystem.rootLength (fs : Filesystem F) : ℕ :=
  (fs.logicalInode 1).size.toNat / 512

/-- **The name-to-inode map** of the root directory, as a relation. -/
def Filesystem.Names (fs : Filesystem F) (name : CString) (k : UInt64) : Prop :=
  ∃ i < fs.rootLength, (fs.rootSlot i).inumber = k ∧ k ≠ 0 ∧ cString (fs.rootSlot i).name = name

/-- The root directory has the name. -/
def Filesystem.HasName (fs : Filesystem F) (name : CString) : Prop :=
  ∃ k, fs.Names name k

/-- **A well-formed filesystem** with the index nodes `nodes` of the free block chain, the
allocated inodes `A` and the free inodes `L`. -/
structure Rooted (fs : Filesystem F) (nodes A L : List UInt64) : Prop where
  image : Image fs nodes A []
  list : FreeInodes fs L
  apart : ∀ k ∈ L, k ∉ A
  /-- The number of the cached block is an `int`. -/
  small : fs.superblock.inodeTableBlocks.toNat < 2 ^ 31
  root : 1 ∈ A
  inumber : (fs.logicalInode 1).inumber = 1
  directory : (fs.logicalInode 1).mode &&& sIfdir ≠ 0
  size : (fs.logicalInode 1).size.toNat = 512 * fs.rootLength
  mapped : fs.rootLength ≤ mappedBlocks
  named : ∀ name k, fs.Names name k → k ∈ A ∧ (fs.logicalInode k).inumber = k

/-- The image of a disk with a root directory. -/
structure RootImage (fs : Filesystem F) (nodes A : List UInt64) : Prop where
  image : Image fs nodes A []
  root : 1 ∈ A

theorem Rooted.rootImage {fs : Filesystem F} {nodes A L : List UInt64}
    (h : Rooted fs nodes A L) : RootImage fs nodes A :=
  ⟨h.image, h.root⟩

/-! ## What does not change the directory -/

/-- **The root directory and the free blocks** are found where they were. -/
structure SameRoot (fs fs' : Filesystem F) : Prop where
  head : fs'.superblock.freeBlocksHead = fs.superblock.freeBlocksHead
  inRange : fs'.superblock.inRange = fs.superblock.inRange
  block : ∀ b, fs.superblock.inRange b = true → fs'.disk.block b.toNat = fs.disk.block b.toNat
  pointers : (fs'.logicalInode 1).blockPointers = (fs.logicalInode 1).blockPointers
  size : (fs'.logicalInode 1).size = (fs.logicalInode 1).size

namespace SameRoot

variable {fs fs' fs'' : Filesystem F} {nodes A L : List UInt64}

theorem trans (h : SameRoot fs fs') (h' : SameRoot fs' fs'') : SameRoot fs fs'' where
  head := h'.head.trans h.head
  inRange := h'.inRange.trans h.inRange
  block b hb := (h'.block b (by rw [h.inRange]; exact hb)).trans (h.block b hb)
  pointers := h'.pointers.trans h.pointers
  size := h'.size.trans h.size

theorem pointer (h : SameRoot fs fs') (i : ℕ) :
    (fs'.logicalInode 1).pointer i = (fs.logicalInode 1).pointer i := by
  rw [Inode.pointer, h.pointers, Inode.pointer]

theorem rootLength (h : SameRoot fs fs') : fs'.rootLength = fs.rootLength := by
  rw [Filesystem.rootLength, h.size, Filesystem.rootLength]

/-- The logical blocks of the directory are found where they were. -/
theorem resolve (h : SameRoot fs fs') (hr : RootImage fs nodes A) (i : UInt64) :
    fs'.disk.resolve (fs'.logicalInode 1) i = fs.disk.resolve (fs.logicalInode 1) i := by
  have hentry : ∀ j, fs'.disk.entry ((fs.logicalInode 1).pointer 12) j =
      fs.disk.entry ((fs.logicalInode 1).pointer 12) j := by
    intro j
    unfold Disk.entry
    split
    · rfl
    · next h0 => rw [h.block _ (hr.image.index_inRange hr.root h0)]
  simp only [Disk.resolve, h.pointer, hentry]

theorem fetch (h : SameRoot fs fs') (found : Option UInt64) (block : Block) :
    fs'.fetch found block = fs.fetch found block := by
  cases found with
  | none => rfl
  | some n =>
    simp only [Filesystem.fetch, h.inRange]
    split
    · rfl
    split
    · next hn => rw [h.block n hn]
    · rfl

/-- **The slots are the same.** -/
theorem rootSlot (h : SameRoot fs fs') (hr : RootImage fs nodes A) (i : ℕ) :
    fs'.rootSlot i = fs.rootSlot i := by
  rw [Filesystem.rootSlot, h.resolve hr, h.fetch, Filesystem.rootSlot]

theorem names (h : SameRoot fs fs') (hr : RootImage fs nodes A) (name : CString) (k : UInt64) :
    fs'.Names name k ↔ fs.Names name k := by
  simp only [Filesystem.Names, h.rootLength, h.rootSlot hr]

/-- **The filesystem stays well formed**, with other free inodes maybe. -/
theorem rooted (h : SameRoot fs fs') (hr : Rooted fs nodes A L) {L' : List UInt64}
    (himage : Image fs' nodes A []) (hlist : FreeInodes fs' L') (hsub : ∀ k ∈ L', k ∈ L)
    (htable : fs'.superblock.inodeTableBlocks = fs.superblock.inodeTableBlocks)
    (hmode : (fs'.logicalInode 1).mode = (fs.logicalInode 1).mode)
    (hown : ∀ k ∈ A, (fs'.logicalInode k).inumber = (fs.logicalInode k).inumber) :
    Rooted fs' nodes A L' where
  image := himage
  list := hlist
  apart k hk := hr.apart k (hsub k hk)
  small := by
    rw [htable]
    exact hr.small
  root := hr.root
  inumber := (hown 1 hr.root).trans hr.inumber
  directory := by
    rw [hmode]
    exact hr.directory
  size := by
    rw [h.rootLength, h.size]
    exact hr.size
  mapped := by
    rw [h.rootLength]
    exact hr.mapped
  named name k hname := by
    obtain ⟨hk, hk'⟩ := hr.named name k ((h.names hr.rootImage name k).mp hname)
    exact ⟨hk, (hown k hk).trans hk'⟩

end SameRoot

/-- **The access time of the root directory** is another one, and nothing else that shows. -/
structure Browsed (fs fs' : Filesystem F) : Prop where
  superblock : fs'.superblock = fs.superblock
  block : ∀ b, fs.superblock.inRange b = true → fs'.disk.block b.toNat = fs.disk.block b.toNat
  root : ∃ t, fs'.logicalInode 1 = { fs.logicalInode 1 with accessTime := t }
  others : ∀ k, 0 < k → k ≠ 1 → fs'.logicalInode k = fs.logicalInode k

namespace Browsed

variable {fs fs' fs'' : Filesystem F} {nodes A L : List UInt64} {k : UInt64}

theorem trans (h : Browsed fs fs') (h' : Browsed fs' fs'') : Browsed fs fs'' where
  superblock := h'.superblock.trans h.superblock
  block b hb := (h'.block b (by rw [h.superblock]; exact hb)).trans (h.block b hb)
  root := by
    obtain ⟨t, ht⟩ := h.root
    obtain ⟨t', ht'⟩ := h'.root
    exact ⟨t', by rw [ht', ht]⟩
  others k hk hk1 := (h'.others k hk hk1).trans (h.others k hk hk1)

theorem of_host (fs : Filesystem F) (host : Host) : Browsed fs { fs with host := host } :=
  ⟨rfl, fun _ _ => rfl, ⟨_, rfl⟩, fun _ _ _ => rfl⟩

theorem of_tableFrame (hr : Rooted fs nodes A L) (hframe : TableFrame fs fs')
    (hroot : ∃ t, fs'.logicalInode 1 = { fs.logicalInode 1 with accessTime := t })
    (hsame : ∀ j, 0 < j → j ≠ 1 → fs'.logicalInode j = fs.logicalInode j) : Browsed fs fs' :=
  ⟨hframe.superblock, fun _ hb => hr.image.block_of_tableFrame hframe hb, hroot, hsame⟩

theorem sameRoot (h : Browsed fs fs') : SameRoot fs fs' := by
  obtain ⟨t, ht⟩ := h.root
  exact ⟨by rw [h.superblock], by rw [h.superblock], h.block, by rw [ht], by rw [ht]⟩

/-- Of an inode the access time at most is another one. -/
theorem inode (h : Browsed fs fs') (hk : 0 < k) :
    ∃ t, fs'.logicalInode k = { fs.logicalInode k with accessTime := t } := by
  by_cases hk1 : k = 1
  · subst hk1
    exact h.root
  · exact ⟨(fs.logicalInode k).accessTime, h.others k hk hk1⟩

theorem links (h : Browsed fs fs') (hk : 0 < k) :
    (fs'.logicalInode k).links = (fs.logicalInode k).links := by
  obtain ⟨t, ht⟩ := h.inode hk
  rw [ht]

theorem inumber (h : Browsed fs fs') (hk : 0 < k) :
    (fs'.logicalInode k).inumber = (fs.logicalInode k).inumber := by
  obtain ⟨t, ht⟩ := h.inode hk
  rw [ht]

theorem nextInode (h : Browsed fs fs') (hk : 0 < k) : fs'.nextInode k = fs.nextInode k := by
  obtain ⟨t, ht⟩ := h.inode hk
  rw [Filesystem.nextInode, ht, Filesystem.nextInode]

/-- A list is the free inode list or not, as before. -/
theorem freeInodes_iff (h : Browsed fs fs') : FreeInodes fs' L ↔ FreeInodes fs L := by
  constructor
  · rintro ⟨hlinked, hvalid, hown⟩
    rw [h.superblock] at hlinked hvalid
    refine ⟨hlinked.congr fun k hk => (h.nextInode (hvalid k hk).1).symm, hvalid, fun k hk => ?_⟩
    rw [← h.inumber (hvalid k hk).1]
    exact hown k hk
  · rintro ⟨hlinked, hvalid, hown⟩
    refine ⟨?_, ?_, fun k hk => ?_⟩
    · rw [h.superblock]
      exact hlinked.congr fun k hk => h.nextInode (hvalid k hk).1
    · rw [h.superblock]
      exact hvalid
    · rw [h.inumber (hvalid k hk).1]
      exact hown k hk

/-- **The filesystem stays well formed.** -/
theorem rooted (h : Browsed fs fs') (hr : Rooted fs nodes A L) (himage : Image fs' nodes A []) :
    Rooted fs' nodes A L := by
  obtain ⟨t, ht⟩ := h.root
  refine h.sameRoot.rooted hr himage (h.freeInodes_iff.mpr hr.list) (fun _ hk => hk) ?_ ?_ ?_
  · rw [h.superblock]
  · rw [ht]
  · exact fun k hk => h.inumber (hr.image.valid k hk).1

end Browsed

/-- The same, and no memory is taken. -/
structure Walked (fs fs' : Filesystem F) : Prop extends Browsed fs fs' where
  mallocs : fs'.host.mallocs = fs.host.mallocs

namespace Walked

variable {fs fs' fs'' : Filesystem F}

theorem trans (h : Walked fs fs') (h' : Walked fs' fs'') : Walked fs fs'' :=
  ⟨h.toBrowsed.trans h'.toBrowsed, h'.mallocs.trans h.mallocs⟩

end Walked

/-! ## What an iterator calls -/

section Calls

variable {fs : Filesystem F} {nodes A L : List UInt64}

theorem Rooted.lt_int (h : Rooted fs nodes A L) {k : UInt64} (hk : fs.superblock.ValidInumber k) :
    (inodeBlock k).toNat < 2 ^ 31 :=
  h.image.state.table.lt_int hk h.small

/-- A step on the host. -/
theorem Rooted.of_host (h : Rooted fs nodes A L) {host : Host}
    (hfaults : host.faults = fs.host.faults) : Rooted { fs with host := host } nodes A L :=
  ⟨h.image.of_host hfaults, ⟨h.list.linked, h.list.valid, h.list.own⟩, h.apart, h.small, h.root,
    h.inumber, h.directory, h.size, h.mapped, h.named⟩

theorem Rooted.time_ensures (h : Rooted fs nodes A L) :
    Run.Ensures (time : Fs F UInt64) fs fun _ fs' =>
      Rooted fs' nodes A L ∧ Walked fs fs' ∧ fs'.logicalInode 1 = fs.logicalInode 1 :=
  Run.Ensures.of_eq (time_run fs) ⟨h.of_host rfl, ⟨Browsed.of_host fs _, rfl⟩, rfl⟩

theorem Rooted.free_ensures (h : Rooted fs nodes A L) (block : Block) :
    Run.Ensures (free block : Fs F Block) fs fun _ fs' =>
      Rooted fs' nodes A L ∧ Walked fs fs' ∧ fs'.logicalInode 1 = fs.logicalInode 1 :=
  ⟨fs.host.freed 0 block, _, rfl, h.of_host rfl, ⟨Browsed.of_host fs _, rfl⟩, rfl⟩

/-- **The inode of an allocated file** is read, or that of the directory. -/
theorem Rooted.readInode_ensures (h : Rooted fs nodes A L) {k : UInt64} (hk : k ∈ A) :
    Run.Ensures (sfsFsReadInode k) fs fun answer fs' => answer = some (fs.logicalInode k) ∧
      Rooted fs' nodes A L ∧ Walked fs fs' ∧ fs'.logicalInode k = fs.logicalInode k := by
  have hvalid := h.image.valid k hk
  refine (h.image.readInode hvalid (h.lt_int hvalid)).mono ?_
  rintro answer fs' ⟨hanswer, himage, hframe, hsame⟩
  have hbrowsed := Browsed.of_tableFrame h hframe
    ⟨(fs.logicalInode 1).accessTime, hsame 1 (h.image.valid 1 h.root).1⟩ fun j hj _ => hsame j hj
  exact ⟨hanswer, hbrowsed.rooted h himage, ⟨hbrowsed, by rw [hframe.host]⟩, hsame k hvalid.1⟩

/-- **A slot is read.** -/
theorem Rooted.blockRead_run (h : Rooted fs nodes A L) {i : ℕ} (hi : i < fs.rootLength)
    (block : Block) :
    ∃ data, (sfsFsInodeBlockRead (fs.logicalInode 1) (UInt64.ofNat i) block).run fs =
      .done (0, data) fs ∧ Block.dirEntry data 0 = fs.rootSlot i := by
  have hrun := sfsFsInodeBlockRead_run (i := UInt64.ofNat i) h.image.state.reliable
    (fun h0 => h.image.index_inRange h.root h0) block
  have h76 : UInt64.ofNat i < sfsNdirBlocks + sfsNindBlocks := by
    have hlt := Nat.lt_of_lt_of_le hi h.mapped
    unfold mappedBlocks at hlt
    rw [mapped_iff, UInt64.toNat_ofNat_of_lt' (by show i < 2 ^ 64; omega)]
    exact hlt
  obtain ⟨x, hx⟩ : ∃ x, fs.disk.resolve (fs.logicalInode 1) (UInt64.ofNat i) = some x := by
    rw [Disk.resolve, if_pos h76]
    split
    · exact ⟨_, rfl⟩
    · exact ⟨_, rfl⟩
  rw [Filesystem.rootSlot, hx]
  rw [hx] at hrun
  by_cases h0 : x = 0
  · exact ⟨Block.zero, by rw [hrun, h0]; rfl, by rw [h0]; rfl⟩
  · rw [fetch_eq_of_resolve h.image h.root hx h0] at hrun ⊢
    exact ⟨_, hrun, rfl⟩

/-- **The access time is written.** -/
theorem Rooted.touch_ensures (h : Rooted fs nodes A L) {v : Inode} {t : UInt64}
    (hv : v = { fs.logicalInode 1 with accessTime := t }) :
    Run.Ensures (sfsFsWriteInode v) fs fun ret fs' =>
      ret = 0 ∧ Rooted fs' nodes A L ∧ Walked fs fs' ∧ fs'.logicalInode 1 = v := by
  have hnumber : v.inumber = 1 := by
    rw [hv]
    exact h.inumber
  have hpointers : v.blockPointers = (fs.logicalInode 1).blockPointers := by
    rw [hv]
  have hpointer : v.pointer 12 = (fs.logicalInode 1).pointer 12 := by
    rw [Inode.pointer, hpointers, Inode.pointer]
  have howned : v.owned fs.disk = fs.ownedBy v.inumber := by
    rw [hnumber, Filesystem.ownedBy]
    exact Inode.owned_congr hpointers fun _ => rfl
  have hroot : v.inumber ∈ A := by
    rw [hnumber]
    exact h.root
  refine (h.image.writeInode [] hroot (h.lt_int (h.image.valid _ hroot)) (by rw [howned])
    fun h0 => ?_).mono ?_
  · rw [hpointer] at h0 ⊢
    exact h.image.index_inRange h.root h0
  rintro ret fs' ⟨rfl, himage, hframe, hset, hsame⟩
  rw [hnumber] at hset hsame
  have hbrowsed := Browsed.of_tableFrame h hframe ⟨t, hset.trans hv⟩ hsame
  exact ⟨rfl, hbrowsed.rooted h himage, ⟨hbrowsed, by rw [hframe.host]⟩, hset⟩

end Calls

/-! ## Iterators -/

/-- **An iterator of the root directory** that has passed the first `i` slots. -/
structure Passes (fs : Filesystem F) (it : DirIterator) (i : ℕ) : Prop where
  inode : it.inode = fs.logicalInode 1
  le : i ≤ fs.rootLength
  place : it.entry = 0 ∧ it.iblock.toNat = i ∨ it.entry = 1 ∧ it.iblock.toNat + 1 = i

/-- What `sfs_dir_iternext` answers. -/
def NextSlot (fs : Filesystem F) (i : ℕ) (answer : IterNext) (fs' : Filesystem F) : Prop :=
  match answer with
  | .stop directory => directory = fs'.logicalInode 1 ∧
      ∀ m, i ≤ m → m < fs.rootLength → (fs.rootSlot m).inumber = 0
  | .entry it j _ => ∃ m, i ≤ m ∧ m < fs.rootLength ∧
      (∀ l, i ≤ l → l < m → (fs.rootSlot l).inumber = 0) ∧ (fs.rootSlot m).inumber ≠ 0 ∧
      Block.dirEntry it.cachedBlock j = fs.rootSlot m ∧ Passes fs' it (m + 1)

section Iteration

variable {fs : Filesystem F} {nodes A L : List UInt64} {it : DirIterator} {i : ℕ}

/-- The end of the directory, as the iterator looks for it. -/
theorem Rooted.past_iff (h : Rooted fs nodes A L) {iblock : UInt64}
    (hle : iblock.toNat ≤ fs.rootLength) :
    iblock * 512 ≥ (fs.logicalInode 1).size ↔ fs.rootLength ≤ iblock.toNat := by
  have hmapped := h.mapped
  unfold mappedBlocks at hmapped
  have hmul : (iblock * 512).toNat = 512 * iblock.toNat := by
    rw [UInt64.toNat_mul]
    show iblock.toNat * 512 % 2 ^ 64 = _
    omega
  rw [ge_iff_le, UInt64.le_iff_toNat_le, h.size, hmul]
  omega

/-- An iterator at the end stops. -/
theorem iternextStep_rootEnd (h : Rooted fs nodes A L) (hit : Passes fs it fs.rootLength)
    (hentry : it.entry = 0) :
    Run.Ensures (iternextStep fsLayer false it) fs fun answer fs' =>
      Rooted fs' nodes A L ∧ Walked fs fs' ∧ answer = .inr (.stop (fs'.logicalInode 1)) := by
  obtain ⟨-, hplace⟩ | ⟨hone, -⟩ := hit.place
  · have hend : it.iblock * 512 ≥ it.inode.size := by
      rw [hit.inode, h.past_iff (Nat.le_of_eq hplace), hplace]
    rw [iternextStep, if_pos hend, iterEnd]
    refine (h.free_ensures it.cachedBlock).bind ?_
    rintro _ fs' ⟨h', hwalked, hsame⟩
    exact Run.ensures_pure ⟨h', hwalked, by rw [hit.inode, hsame]⟩
  · rw [hentry] at hone
    exact absurd hone (by decide)

/-- An iterator past its block goes on to the next. -/
theorem iternextStep_rootPast (h : Rooted fs nodes A L) (hit : Passes fs it i)
    (hentry : it.entry = 1) :
    ∃ it', (iternextStep fsLayer false it).run fs = .done (.inl it') fs ∧ it'.entry = 0 ∧
      Passes fs it' i := by
  obtain ⟨hzero, -⟩ | ⟨-, hplace⟩ := hit.place
  · rw [hentry] at hzero
    exact absurd hzero (by decide)
  have hle := hit.le
  have hmapped := h.mapped
  unfold mappedBlocks at hmapped
  have hin : ¬ it.iblock * 512 ≥ it.inode.size := by
    rw [hit.inode, h.past_iff (by omega)]
    omega
  refine ⟨{ it with iblock := it.iblock + 1, entry := 0 }, ?_, rfl, hit.inode, hle,
    Or.inl ⟨rfl, ?_⟩⟩
  · rw [iternextStep, if_neg hin]
    dsimp only
    rw [if_neg (by rw [hentry]; decide), hentry]
    rfl
  · show (it.iblock + 1).toNat = i
    rw [toNat_succ_iblock (by omega), hplace]

/-- **An iterator in front of a slot** reads its block, and stops there if the slot is in
use. -/
theorem iternextStep_rootSlot (h : Rooted fs nodes A L) (hit : Passes fs it i)
    (hentry : it.entry = 0) (hi : i < fs.rootLength) :
    Run.Ensures (iternextStep fsLayer false it) fs fun answer fs' =>
      Rooted fs' nodes A L ∧ Walked fs fs' ∧ ∃ it', Passes fs' it' (i + 1) ∧
        ((fs.rootSlot i).inumber = 0 → answer = .inl it' ∧ it'.entry = 0) ∧
        ((fs.rootSlot i).inumber ≠ 0 → answer = .inr (.entry it' 0 Inode.zero) ∧
          Block.dirEntry it'.cachedBlock 0 = fs.rootSlot i) := by
  obtain ⟨-, hplace⟩ | ⟨hone, -⟩ := hit.place
  swap
  · rw [hentry] at hone
    exact absurd hone (by decide)
  have hmapped := h.mapped
  unfold mappedBlocks at hmapped
  have hin : ¬ it.iblock * 512 ≥ it.inode.size := by
    rw [hit.inode, h.past_iff (by omega)]
    omega
  obtain ⟨data, hread, hdata⟩ := h.blockRead_run hi it.cachedBlock
  rw [← hplace, UInt64.ofNat_toNat, ← hit.inode] at hread
  rw [iternextStep, if_neg hin]
  dsimp only
  rw [if_pos hentry]
  refine Run.Ensures.bind (P := fun answer fs' => answer = (0, data) ∧ fs = fs')
    (Run.Ensures.of_eq hread ⟨rfl, rfl⟩) ?_
  rintro _ _ ⟨rfl, rfl⟩
  rw [if_neg (by simp)]
  refine h.time_ensures.bind ?_
  rintro t fs₁ ⟨h₁, hw₁, hinode₁⟩
  refine (h₁.touch_ensures (v := { it.inode with accessTime := t })
    (by rw [hinode₁, hit.inode])).bind ?_
  rintro _ fs₂ ⟨rfl, h₂, hw₂, hset⟩
  have hwalked := hw₁.trans hw₂
  have hlength := hwalked.sameRoot.rootLength
  rw [if_neg (by simp), hentry]
  dsimp only
  rw [show (0 : UInt64).toNat = 0 from rfl, findEntry_zero, hdata]
  by_cases hused : (fs.rootSlot i).inumber = 0
  · rw [if_neg (not_not.mpr hused)]
    refine Run.ensures_pure ⟨h₂, hwalked, ⟨{ it.inode with accessTime := t }, it.iblock + 1, 0,
      data⟩, ⟨hset.symm, by omega, Or.inl ⟨rfl, ?_⟩⟩, fun _ => ⟨rfl, rfl⟩,
      fun hne => absurd hused hne⟩
    show (it.iblock + 1).toNat = i + 1
    rw [toNat_succ_iblock (by omega), hplace]
  · rw [if_pos hused]
    refine Run.ensures_pure ⟨h₂, hwalked, ⟨{ it.inode with accessTime := t }, it.iblock, 1, data⟩,
      ⟨hset.symm, by omega, Or.inr ⟨rfl, by rw [hplace]⟩⟩, fun he => absurd he hused,
      fun _ => ⟨rfl, hdata⟩⟩

/-- From a slot whose block has not been read. -/
theorem iternextLoop_root (h : Rooted fs nodes A L) (hit : Passes fs it i) (hentry : it.entry = 0)
    {n : ℕ} (hn : fs.rootLength - i < n) :
    Run.Ensures (Run.loop (iternextStep fsLayer false) n it) fs fun answer fs' =>
      Rooted fs' nodes A L ∧ Walked fs fs' ∧ NextSlot fs i answer fs' := by
  induction n generalizing fs it i with
  | zero => exact absurd hn (Nat.not_lt_zero _)
  | succ n ih =>
    rw [Run.loop]
    by_cases hi : i = fs.rootLength
    · subst hi
      refine (iternextStep_rootEnd h hit hentry).bind ?_
      rintro _ fs' ⟨h', hwalked, rfl⟩
      exact Run.ensures_pure ⟨h', hwalked, rfl, fun m hm hlt => absurd hm (Nat.not_le.mpr hlt)⟩
    have hlt := Nat.lt_of_le_of_ne hit.le hi
    refine (iternextStep_rootSlot h hit hentry hlt).bind ?_
    rintro answer fs₁ ⟨h₁, hw₁, it₁, hit₁, hgoes, hstops⟩
    by_cases hused : (fs.rootSlot i).inumber = 0
    · obtain ⟨rfl, hentry₁⟩ := hgoes hused
      -- an unused slot is passed over
      refine (ih h₁ hit₁ hentry₁ (by rw [hw₁.sameRoot.rootLength]; omega)).mono ?_
      rintro answer fs₂ ⟨h₂, hw₂, hnext⟩
      have hunused : ∀ {m}, (∀ l, i + 1 ≤ l → l < m → (fs₁.rootSlot l).inumber = 0) →
          ∀ l, i ≤ l → l < m → (fs.rootSlot l).inumber = 0 := by
        intro m hrest l hle hlt
        rcases Nat.eq_or_lt_of_le hle with rfl | hle
        · exact hused
        · rw [← hw₁.sameRoot.rootSlot h.rootImage]
          exact hrest l hle hlt
      refine ⟨h₂, hw₁.trans hw₂, ?_⟩
      cases answer with
      | stop directory =>
        refine ⟨hnext.1, hunused fun l hle hlt => hnext.2 l hle ?_⟩
        rw [hw₁.sameRoot.rootLength]
        exact hlt
      | entry it₂ j v =>
        obtain ⟨m, hm, hmlt, hrest, hstops, hentry₂, hit₂⟩ := hnext
        rw [hw₁.sameRoot.rootLength] at hmlt
        rw [hw₁.sameRoot.rootSlot h.rootImage] at hstops hentry₂
        exact ⟨m, Nat.le_of_succ_le hm, hmlt, hunused hrest, hstops, hentry₂, hit₂⟩
    · obtain ⟨rfl, hdata⟩ := hstops hused
      exact Run.ensures_pure ⟨h₁, hw₁, i, Nat.le_refl i, hlt,
        fun l hle hlt => absurd hle (Nat.not_le.mpr hlt), hused, hdata, hit₁⟩

/-- **`sfs_dir_iternext`** goes on to the next slot in use. -/
theorem sfsDirIternext_root (h : Rooted fs nodes A L) (hit : Passes fs it i) :
    Run.Ensures (sfsDirIternext fsLayer false it) fs fun answer fs' =>
      Rooted fs' nodes A L ∧ Walked fs fs' ∧ NextSlot fs i answer fs' := by
  have hmapped := h.mapped
  unfold mappedBlocks at hmapped
  rw [sfsDirIternext]
  obtain ⟨hentry, -⟩ | ⟨hentry, -⟩ := hit.place
  · exact iternextLoop_root h hit hentry (by unfold loopBound; omega)
  · obtain ⟨it₁, hrun, hentry₁, hit₁⟩ := iternextStep_rootPast h hit hentry
    have hbound : loopBound = (loopBound - 1) + 1 := rfl
    rw [hbound]
    obtain ⟨answer, fs', hloop, hpost⟩ :=
      iternextLoop_root h hit₁ hentry₁ (n := loopBound - 1) (by unfold loopBound; omega)
    exact Run.Ensures.of_eq ((Run.loop_succ_of_inl hrun).trans hloop) hpost

/-! ## The search for a name -/

/-- What the search of a request ends with. -/
def FoundSlot (fs : Filesystem F) (name : CString) (i : ℕ) (answer : Search)
    (fs' : Filesystem F) : Prop :=
  match answer with
  | .stop directory => directory = fs'.logicalInode 1 ∧
      ∀ m, i ≤ m → m < fs.rootLength → (fs.rootSlot m).inumber ≠ 0 →
        cString (fs.rootSlot m).name ≠ name
  | .found it j => ∃ m < fs.rootLength, (fs.rootSlot m).inumber ≠ 0 ∧
      cString (fs.rootSlot m).name = name ∧ Block.dirEntry it.cachedBlock j = fs.rootSlot m

theorem searchLoop_root (h : Rooted fs nodes A L) (hit : Passes fs it i) {name : CString}
    (hname : name.length ≤ 255) {n : ℕ} (hn : fs.rootLength - i < n) :
    Run.Ensures (Run.loop (searchStep fsLayer name) n it) fs fun answer fs' =>
      Rooted fs' nodes A L ∧ Walked fs fs' ∧ FoundSlot fs name i answer fs' := by
  -- one iteration passes at least the slot that it stops at
  induction n generalizing fs it i with
  | zero => exact absurd hn (Nat.not_lt_zero _)
  | succ n ih =>
    rw [Run.loop, searchStep, Run.bind_assoc']
    refine (sfsDirIternext_root h hit).bind ?_
    rintro answer fs₁ ⟨h₁, hw₁, hnext⟩
    cases answer with
    | stop directory =>
      exact Run.ensures_pure ⟨h₁, hw₁, hnext.1, fun m hm hlt hne =>
        absurd (hnext.2 m hm hlt) hne⟩
    | entry it₁ j v =>
      obtain ⟨m, hm, hmlt, hunused, hused, hentry, hit₁⟩ := hnext
      dsimp only
      rw [hentry]
      by_cases hfound : cString (fs.rootSlot m).name = name
      · rw [if_pos ((strncmp256_iff _ hname).mpr hfound)]
        exact Run.ensures_pure ⟨h₁, hw₁, m, hmlt, hused, hfound, hentry⟩
      rw [if_neg fun hcmp => hfound ((strncmp256_iff _ hname).mp hcmp)]
      refine (ih h₁ hit₁ (by rw [hw₁.sameRoot.rootLength]; omega)).mono ?_
      rintro answer fs₂ ⟨h₂, hw₂, hpost⟩
      refine ⟨h₂, hw₁.trans hw₂, ?_⟩
      cases answer with
      | stop directory =>
        refine ⟨hpost.1, fun l hle hlt hne => ?_⟩
        rcases Nat.lt_trichotomy l m with hlm | rfl | hlm
        · exact absurd (hunused l hle hlm) hne
        · exact hfound
        · rw [← hw₁.sameRoot.rootSlot h.rootImage] at hne ⊢
          exact hpost.2 l hlm (by rw [hw₁.sameRoot.rootLength]; exact hlt) hne
      | found it₂ j =>
        obtain ⟨l, hlt, hne, hname', hentry₂⟩ := hpost
        rw [hw₁.sameRoot.rootLength] at hlt
        rw [hw₁.sameRoot.rootSlot h.rootImage] at hne hname' hentry₂
        exact ⟨l, hlt, hne, hname', hentry₂⟩

/-- A new iterator has passed no slot. -/
theorem Passes.fresh (fs : Filesystem F) (block : Block) :
    Passes fs ⟨fs.logicalInode 1, 0, 0, block⟩ 0 :=
  ⟨rfl, Nat.zero_le _, Or.inl ⟨rfl, rfl⟩⟩

/-- **The search** finds the name if the directory has it. -/
theorem searchRoot_ensures (h : Rooted fs nodes A L) (hit : Passes fs it 0) {name : CString}
    (hname : name.length ≤ 255) :
    Run.Ensures (search fsLayer name it) fs fun answer fs' =>
      Rooted fs' nodes A L ∧ Walked fs fs' ∧
      match answer with
      | .stop directory => directory = fs'.logicalInode 1 ∧ ¬ fs.HasName name
      | .found it j => fs.Names name (Block.dirEntry it.cachedBlock j).inumber := by
  have hmapped := h.mapped
  unfold mappedBlocks at hmapped
  refine (searchLoop_root h hit hname (by unfold loopBound; omega)).mono ?_
  rintro answer fs' ⟨h', hwalked, hfound⟩
  refine ⟨h', hwalked, ?_⟩
  cases answer with
  | stop directory =>
    refine ⟨hfound.1, ?_⟩
    rintro ⟨k, m, hlt, rfl, hne, hname'⟩
    exact hfound.2 m (Nat.zero_le m) hlt hne hname'
  | found it j =>
    obtain ⟨m, hlt, hne, hname', hentry⟩ := hfound
    show fs.Names name (Block.dirEntry it.cachedBlock j).inumber
    rw [hentry]
    exact ⟨m, hlt, rfl, hne, hname'⟩

end Iteration

end SimpleFileSystem
