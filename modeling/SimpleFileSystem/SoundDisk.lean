import SimpleFileSystem.MirrorRequests

/-!
# Disks in order

What a check of the disk between two requests would look for (`Session.Sound`): no block is
free and in a file, or in two files; the free inodes are not those of files; the entries of
the root directory have distinct names, and the links of every file are its entries and open
handles.

Such a disk stands for an array, with the same inodes less their block pointers and the
same contents of the root directory (`Filesystem.array`), and what is sound on the disk is
balanced there (`Session.Sound.describes`).  So nothing has to be remembered from one request
to the next but that the disk is sound: the array can be made anew in front of each.
-/

namespace SimpleFileSystem

variable {F : Type}

/-! ## The disk -/

/-- **A disk in order**, with the files `A` and the free inodes `L`. -/
structure SoundDisk (fs : Filesystem F) (A : List UInt64) (L : FreeList) : Prop where
  shelved : Shelved fs A L
  root : 1 ∈ A
  own : ∀ k, fs.superblock.ValidInumber k → (fs.logicalInode k).inumber = k
  /-- What has links is a file. -/
  alive : ∀ k, fs.superblock.ValidInumber k → (fs.logicalInode k).links ≠ 0 → k ∈ A
  memory : ∀ i, fs.host.mallocs i = true

theorem Mirrors.soundDisk {base fs : Filesystem F} {A : List UInt64} {L : FreeList} {w : View}
    (h : Mirrors A L base fs w) : SoundDisk fs A L :=
  ⟨h.shelved, h.root, h.own, h.alive, h.memory⟩

/-! ## Its array -/

/-- The inode without its blocks. -/
def Inode.stripped (v : Inode) : Inode :=
  { v with blockPointers := fun _ => 0 }

theorem Inode.plain_stripped (v : Inode) : v.stripped.Plain v.inumber :=
  ⟨rfl, rfl⟩

theorem Inode.shadow_stripped (v : Inode) : v.Shadow v.stripped := by
  refine ⟨rfl, rfl, rfl, rfl, rfl, rfl, fun i => ?_⟩
  rw [Inode.pointer]
  split <;> rfl

theorem Inode.Shadow.plain {v u : Inode} (h : v.Shadow u) : u.Plain v.inumber := by
  refine ⟨h.inumber, funext fun i => ?_⟩
  have hpointer := h.empty i
  rw [Inode.pointer, dif_pos i.isLt] at hpointer
  exact hpointer

/-- The inodes of the table, without their blocks. -/
def Filesystem.strippedInodes (fs : Filesystem F) : List Inode :=
  (List.range fs.superblock.inodes.toNat).map fun i =>
    (fs.logicalInode (UInt64.ofNat (i + 1))).stripped

/-- **The array that a disk stands for.** -/
def Filesystem.array (fs : Filesystem F) : Filesystem DirFiles :=
  ((Filesystem.blank fs.superblock ⟨fs.fileBlock, []⟩).putInodes fs.strippedInodes).onHost fs.host

section Array

variable {fs : Filesystem F} {A : List UInt64} {L : FreeList} {k : UInt64}

theorem toNat_ofNat_succ {n : UInt64} {i : ℕ} (hi : i < n.toNat) :
    (UInt64.ofNat (i + 1)).toNat = i + 1 :=
  UInt64.toNat_ofNat_of_lt' (Nat.lt_of_le_of_lt hi n.toNat_lt)

theorem validInumber_succ (fs : Filesystem F) {i : ℕ} (hi : i < fs.superblock.inodes.toNat) :
    fs.superblock.ValidInumber (UInt64.ofNat (i + 1)) := by
  have hnat := toNat_ofNat_succ hi
  have h0 : (0 : UInt64).toNat = 0 := rfl
  constructor
  · rw [UInt64.lt_iff_toNat_lt, hnat]
    omega
  · rw [UInt64.le_iff_toNat_le, hnat]
    omega

theorem mem_strippedInodes (hk : fs.superblock.ValidInumber k) :
    (fs.logicalInode k).stripped ∈ fs.strippedInodes := by
  have hpos := UInt64.lt_iff_toNat_lt.mp hk.1
  have hle := UInt64.le_iff_toNat_le.mp hk.2
  have h0 : (0 : UInt64).toNat = 0 := rfl
  refine List.mem_map.mpr ⟨k.toNat - 1, List.mem_range.mpr (by omega), ?_⟩
  rw [show k.toNat - 1 + 1 = k.toNat by omega, UInt64.ofNat_toNat]

theorem files_putInodes (fs : Filesystem DirFiles) (l : List Inode) :
    (fs.putInodes l).files = fs.files := by
  induction l with
  | nil => rfl
  | cons v l ih => exact ih

namespace SoundDisk

theorem valid_strippedInodes (h : SoundDisk fs A L) :
    ∀ v ∈ fs.strippedInodes, fs.superblock.ValidInumber v.inumber := by
  intro v hv
  obtain ⟨i, hi, rfl⟩ := List.mem_map.mp hv
  have hvalid := validInumber_succ fs (List.mem_range.mp hi)
  rw [(Inode.plain_stripped _).inumber, h.own _ hvalid]
  exact hvalid

theorem nodup_strippedInodes (h : SoundDisk fs A L) :
    (fs.strippedInodes.map Inode.inumber).Nodup := by
  rw [Filesystem.strippedInodes, List.map_map]
  refine List.Nodup.map_on (fun i hi j hj hij => ?_) List.nodup_range
  have hi := List.mem_range.mp hi
  have hj := List.mem_range.mp hj
  have hinumber : UInt64.ofNat (i + 1) = UInt64.ofNat (j + 1) := by
    rw [← h.own _ (validInumber_succ fs hi), ← h.own _ (validInumber_succ fs hj)]
    exact hij
  have hnat := congrArg UInt64.toNat hinumber
  rw [toNat_ofNat_succ hi, toNat_ofNat_succ hj] at hnat
  exact Nat.succ.inj hnat

/-- The empty disk for the inodes. -/
theorem inodeState_blank (h : SoundDisk fs A L) (files : DirFiles) :
    InodeState (Filesystem.blank fs.superblock files) := by
  obtain ⟨nodes, himage⟩ := h.shelved.image
  have hblocks := UInt64.lt_iff_toNat_lt.mp himage.state.table.inDisk
  refine ⟨reliable_blank (Nat.lt_of_le_of_lt (Nat.zero_le _) hblocks) ?_,
    ⟨himage.state.table.inodes_le, himage.state.table.inDisk⟩,
    ⟨Or.inl rfl, fun _ => rfl, fun h => absurd rfl h⟩⟩
  exact Nat.lt_of_le_of_lt himage.state.reliable.covers himage.state.reliable.addressable

/-- **The disk mirrors its array.** -/
theorem paired (h : SoundDisk fs A L) : Paired A L fs fs fs.array fs.array.view := by
  obtain ⟨nodes, himage⟩ := h.shelved.image
  obtain ⟨hstate, -, hsuperblock⟩ := inodeState_putInodes
    (h.inodeState_blank ⟨fs.fileBlock, []⟩) rfl h.valid_strippedInodes
  have hsuper : fs.array.superblock = fs.superblock := hsuperblock
  have hfiles : fs.array.files = ⟨fs.fileBlock, []⟩ := files_putInodes _ _
  have htable : ∀ k, fs.superblock.ValidInumber k →
      fs.array.logicalInode k = (fs.logicalInode k).stripped := by
    intro k hk
    have hput := logicalInode_putInodes (h.inodeState_blank ⟨fs.fileBlock, []⟩) rfl
      h.valid_strippedInodes h.nodup_strippedInodes (mem_strippedInodes hk)
    rw [(Inode.plain_stripped _).inumber, h.own k hk] at hput
    rw [Filesystem.array, onHost_logicalInode]
    exact hput
  have harray : InodeState fs.array := ((looks_view hstate).of_host fs.host
    (funext fun i => (himage.state.reliable.noFaults i).trans
      (hstate.reliable.noFaults i).symm)).state
  refine ⟨⟨h.shelved, Still.refl A fs, h.root, h.own, h.alive, h.memory, ?_, ?_, fun k hk => ?_,
    fun i _ => ?_, rfl⟩, looks_view harray, h.memory⟩
  · exact congrArg Superblock.inodes hsuper.symm
  · exact congrArg Superblock.freeInodeHead hsuper.symm
  · show (fs.logicalInode k).Shadow (fs.array.logicalInode k)
    rw [htable k hk]
    exact Inode.shadow_stripped _
  · show fs.array.files.blocks 1 i = _
    rw [hfiles]

end SoundDisk

end Array

/-! ## Sessions on it -/

/-- The slots of the root directory, as `fs.c` reads them. -/
def Filesystem.diskSlots (fs : Filesystem F) : List DirEntry :=
  (List.range fs.rootLength).map fs.rootSlot

/-- How many entries in use and open files there are of an inode. -/
def Session.diskRefs (x : Session) (k : UInt64) : ℕ :=
  ((live x.state.fs.diskSlots).map DirEntry.inumber).count k + x.handlesOf k

/-- **The disk is sound between two requests**, with the files `A` and the free inodes `L`. -/
structure Session.Sound (x : Session) (A : List UInt64) (L : FreeList) : Prop where
  disk : SoundDisk x.state.fs A L
  idle : ¬ x.state.Locked
  directory : (x.state.fs.logicalInode 1).mode &&& sIfdir ≠ 0
  size : (x.state.fs.logicalInode 1).size.toNat = 512 * x.state.fs.rootLength
  mapped : x.state.fs.rootLength ≤ mappedBlocks
  distinct : ((live x.state.fs.diskSlots).map fun e => cString e.name).Nodup
  named : ∀ e ∈ live x.state.fs.diskSlots, e.inumber ≠ 1 ∧ cString e.name ≠ []
  pool : ∃ free, x.state.fdPool.Handles (x.files ++ x.dirs) free
  held : ∀ n ∈ x.files, (x.state.fdPool.slot n).inumber ≠ 1
  heldDirs : ∀ n ∈ x.dirs, (x.state.fdPool.slot n).inumber = 1
  counted : ∀ k, k ≠ 1 → 0 < x.diskRefs k → x.state.fs.superblock.ValidInumber k ∧
    (x.state.fs.logicalInode k).links.toNat = x.diskRefs k

/-- The session on the array of the disk. -/
def Session.onArray (x : Session) : Session :=
  ⟨⟨x.state.mu, x.state.fdPool, x.state.fs.array⟩, x.files, x.dirs⟩

/-- The ledger of the disk. -/
def Session.diskLedger (x : Session) : Ledger :=
  ⟨x.state.fs.array.view, x.state.fs.diskSlots, x.state.fdPool, x.files ++ x.dirs⟩

section Sessions

variable {x y : Session} {A : List UInt64} {L : FreeList} {k : UInt64} {b : Ledger} {w : View}

/-- A slot of the directory is in a mapped block. -/
theorem ofNat_lt_mapped {i n : ℕ} (hi : i < n) (hn : n ≤ mappedBlocks) :
    UInt64.ofNat i < sfsNdirBlocks + sfsNindBlocks := by
  refine mapped_iff.mpr ?_
  unfold mappedBlocks at hn ⊢
  rw [UInt64.toNat_ofNat_of_lt' (show i < 2 ^ 64 by omega)]
  omega

theorem length_diskSlots (fs : Filesystem F) : fs.diskSlots.length = fs.rootLength := by
  rw [Filesystem.diskSlots, List.length_map, List.length_range]

theorem getElem_diskSlots (fs : Filesystem F) {i : ℕ} (hi : i < fs.diskSlots.length) :
    fs.diskSlots[i] = fs.rootSlot i := by
  simp only [Filesystem.diskSlots, List.getElem_map, List.getElem_range]

namespace Session.Sound

/-- What is counted is a file. -/
theorem mem_files (h : x.Sound A L) (hk1 : k ≠ 1) (hk : 0 < x.diskRefs k) : k ∈ A := by
  obtain ⟨hvalid, hlinks⟩ := h.counted k hk1 hk
  refine h.disk.alive k hvalid fun h0 => ?_
  rw [h0] at hlinks
  exact absurd hlinks (Nat.ne_of_lt hk)

theorem mem_of_entry (h : x.Sound A L) {e : DirEntry} (he : e ∈ live x.state.fs.diskSlots) :
    e.inumber ∈ A :=
  h.mem_files (h.named e he).1
    (Nat.add_pos_left (List.count_pos_iff.mpr (List.mem_map_of_mem he)) _)

theorem mem_of_handle (h : x.Sound A L) {n : ℕ} (hn : n ∈ x.files) :
    (x.state.fdPool.slot n).inumber ∈ A :=
  h.mem_files (h.held n hn)
    (Nat.add_pos_right _ (List.count_pos_iff.mpr (List.mem_map.mpr ⟨n, hn, rfl⟩)))

/-- The entries are those of files. -/
theorem entries (h : x.Sound A L) : Entries A x.state.fs := by
  refine ⟨h.size, h.mapped, fun i hi hused => ?_⟩
  have hlive : x.state.fs.rootSlot i ∈ live x.state.fs.diskSlots :=
    mem_live.mpr ⟨List.mem_map_of_mem (List.mem_range.mpr hi), hused⟩
  exact ⟨h.mem_of_entry hlive, (h.named _ hlive).1⟩

/-- **The disk and its array**, side by side. -/
theorem beside (h : x.Sound A L) :
    Beside (fun fs t => Paired A L fs fs t x.state.fs.array.view) x.state x.onArray.state :=
  ⟨rfl, rfl, h.disk.paired⟩

theorem table (h : x.Sound A L) (hk : x.state.fs.superblock.ValidInumber k) :
    (x.state.fs.logicalInode k).Shadow (x.state.fs.array.view.table k) :=
  h.disk.paired.mirrors.table k hk

theorem valid (h : x.Sound A L) (hk : x.state.fs.superblock.ValidInumber k) :
    x.state.fs.array.view.Valid k :=
  h.disk.paired.mirrors.valid hk

/-- The handles of the root directory count for no file. -/
theorem refs (h : x.Sound A L) (hk1 : k ≠ 1) : x.diskLedger.refs k = x.diskRefs k := by
  have hdirs : (x.dirs.map fun n => (x.state.fdPool.slot n).inumber).count k = 0 := by
    refine List.count_eq_zero.mpr fun hk => ?_
    obtain ⟨n, hn, rfl⟩ := List.mem_map.mp hk
    exact hk1 (h.heldDirs n hn)
  rw [Ledger.refs, Ledger.held, Session.diskLedger, List.map_append, List.count_append, hdirs,
    Nat.add_zero]
  rfl

/-- **The ledger of the disk** describes the session on the array. -/
theorem describes (h : x.Sound A L) : x.onArray.Describes x.diskLedger := by
  have hroot := h.disk.paired.mirrors.mem_valid h.disk.root
  have hshadow := h.table hroot
  refine ⟨⟨h.idle, h.disk.paired.shows, rfl, ?_, h.distinct, h.named, h.pool, fun k hk => ?_,
    fun k hk1 hk => ?_⟩, List.Perm.refl _, h.held, h.heldDirs⟩
  · refine ⟨h.valid hroot, hshadow.inumber.trans (h.disk.own 1 hroot), ?_, ?_, ?_, fun i hi => ?_⟩
    · show (x.state.fs.array.view.table 1).mode &&& sIfdir ≠ 0
      rw [hshadow.mode]
      exact h.directory
    · show (x.state.fs.array.view.table 1).size.toNat = 512 * x.state.fs.diskSlots.length
      rw [hshadow.size, length_diskSlots]
      exact h.size
    · show x.state.fs.diskSlots.length ≤ mappedBlocks
      rw [length_diskSlots]
      exact h.mapped
    · have hi' : i < x.state.fs.rootLength := (length_diskSlots x.state.fs).symm ▸ hi
      have hmapped := ofNat_lt_mapped hi' h.mapped
      have hblock := h.disk.paired.mirrors.blocks _ hmapped
      have hslot : x.state.fs.array.view.slot 1 i = x.state.fs.rootSlot i := by
        rw [View.slot, hblock, Filesystem.fileBlock, Filesystem.rootSlot]
      exact hslot.trans (getElem_diskSlots x.state.fs hi).symm
  · by_cases hk1 : k = 1
    · rw [hk1]
      exact h.valid hroot
    · rw [h.refs hk1] at hk
      exact h.valid (h.counted k hk1 hk).1
  · rw [h.refs hk1] at hk ⊢
    obtain ⟨hvalid, hlinks⟩ := h.counted k hk1 hk
    have hshadow := h.table hvalid
    have hplain := hshadow.plain
    rw [h.disk.own k hvalid] at hplain
    refine ⟨hplain, ?_⟩
    show (x.state.fs.array.view.table k).links.toNat = x.diskRefs k
    rw [hshadow.links]
    exact hlinks

/-- The free inodes of the disk are those of the array. -/
theorem listed (h : x.Sound A L) : x.diskLedger.Listed L.last L.inodes := by
  have hlist := h.disk.shelved.list
  refine ⟨?_, fun hlast => h.disk.shelved.stop (h.disk.paired.mirrors.validInumber hlast),
    fun k hk => ⟨h.valid (hlist.valid k hk), ?_, ?_⟩, fun k hk => ?_⟩
  · have hlinked : Linked L.last (fun k => (x.state.fs.array.view.table k).size)
        x.state.fs.superblock.freeInodeHead L.inodes :=
      hlist.linked.congr fun k hk => (h.table (hlist.valid k hk)).size
    rw [h.disk.paired.mirrors.head] at hlinked
    exact hlinked
  · rintro rfl
    exact h.disk.shelved.apart 1 hk h.disk.root
  · by_contra hrefs
    have hk1 : k ≠ 1 := by
      rintro rfl
      exact h.disk.shelved.apart 1 hk h.disk.root
    rw [h.refs hk1] at hrefs
    exact h.disk.shelved.apart k hk (h.mem_files hk1 (Nat.pos_of_ne_zero hrefs))
  · exact (h.table (hlist.valid k hk)).inumber.trans (h.disk.own k (hlist.valid k hk))

end Session.Sound

/-- **The disk is sound, and has the ledger.** -/
structure Session.Bears (x : Session) (A : List UInt64) (L : FreeList) (b : Ledger) : Prop where
  sound : x.Sound A L
  slots : x.state.fs.diskSlots = b.slots
  refs : ∀ k, k ≠ 1 → x.diskRefs k = b.refs k
  inodes : x.state.fs.superblock.inodes = b.view.inodes
  head : x.state.fs.superblock.freeInodeHead = b.view.head
  table : ∀ k, x.state.fs.superblock.ValidInumber k →
    (x.state.fs.logicalInode k).Shadow (b.view.table k)

/-- **The disk that mirrors a balanced array is sound.** -/
theorem Session.Describes.bears (hb : y.Describes b)
    (h : Beside (fun fs t => Paired A L fs fs t w) x.state y.state) (hfiles : x.files = y.files)
    (hdirs : x.dirs = y.dirs) : x.Bears A L b := by
  have hmirrors := h.fs.mirrors
  have hbalanced := hb.books.balanced
  have hroot := hmirrors.mem_valid hmirrors.root
  have htable : ∀ k, x.state.fs.superblock.ValidInumber k →
      (x.state.fs.logicalInode k).Shadow (b.view.table k) := by
    intro k hk
    have hvalid := hmirrors.valid hk
    have hvalid' : b.view.Valid k :=
      hvalid.congr (hb.books.shows.inodes.symm.trans h.fs.shows.inodes)
    rw [← hb.books.shows.table k hvalid', h.fs.shows.table k hvalid]
    exact hmirrors.table k hk
  have hsize := hbalanced.root.size
  rw [(htable 1 hroot).size] at hsize
  have hlength : x.state.fs.rootLength = b.slots.length := by
    rw [Filesystem.rootLength, hsize, Nat.mul_div_cancel_left _ (by decide)]
  have hslots : x.state.fs.diskSlots = b.slots := by
    refine List.ext_getElem ((length_diskSlots _).trans hlength) fun i hi hi' => ?_
    have hmapped := ofNat_lt_mapped hi' hbalanced.root.mapped
    have hfiles : b.view.files = w.files := hb.books.shows.files.symm.trans h.fs.shows.files
    rw [getElem_diskSlots, ← hbalanced.root.slot i hi', View.slot, hfiles,
      hmirrors.blocks _ hmapped, Filesystem.fileBlock, Filesystem.rootSlot]
  have hopened : b.opened.Perm (x.files ++ x.dirs) := by
    rw [hfiles, hdirs]
    exact hb.opened
  have hpool : x.state.fdPool = b.pool := h.fdPool.symm.trans hb.books.pool
  have hrefs : ∀ k, k ≠ 1 → x.diskRefs k = b.refs k := by
    intro k hk1
    rw [hb.refs hk1, Session.diskRefs, hslots, Session.entriesOf, hb.slots, Session.handlesOf,
      Session.handlesOf, hfiles, h.fdPool]
  refine ⟨⟨hmirrors.soundDisk, ?_, ?_, ?_, ?_, ?_, ?_, ?_, fun n hn => ?_, fun n hn => ?_,
    fun k hk1 hk => ?_⟩, hslots, hrefs, ?_, ?_, htable⟩
  · have hidle := hb.books.idle
    rw [SfsState.Locked, h.mu] at hidle
    exact hidle
  · rw [← (htable 1 hroot).mode]
    exact hbalanced.root.directory
  · rw [hlength]
    exact hsize
  · rw [hlength]
    exact hbalanced.root.mapped
  · rw [hslots]
    exact hbalanced.distinct
  · rw [hslots]
    exact hbalanced.files
  · obtain ⟨free, hfree⟩ := hbalanced.pool
    rw [hpool]
    exact ⟨free, hfree.of_perm hopened.symm⟩
  · rw [hpool]
    exact hb.files n (hfiles ▸ hn)
  · rw [hpool]
    exact hb.dirs n (hdirs ▸ hn)
  · rw [hrefs k hk1] at hk ⊢
    have hvalid : x.state.fs.superblock.ValidInumber k := by
      refine hmirrors.validInumber ((hbalanced.valid k hk).congr ?_)
      exact h.fs.shows.inodes.symm.trans hb.books.shows.inodes
    exact ⟨hvalid, (congrArg UInt32.toNat (htable k hvalid).links).symm.trans
      (hbalanced.counted k hk1 hk).2⟩
  · exact hmirrors.inodes.trans (h.fs.shows.inodes.symm.trans hb.books.shows.inodes)
  · exact hmirrors.head.trans (h.fs.shows.head.symm.trans hb.books.shows.head)

end Sessions

end SimpleFileSystem
