import SimpleFileSystem.Sessions

/-!
# Memory that was freed

`sfs_getattr` reads the number of an inode from the block of an iterator that it has closed.
On a host that leaves the same bytes in all memory that is freed (`Filesystem.FreedAs`, which
a request keeps) the number is the same for every name, and `sfsGetattr_bound` says what
becomes of the request: it reads the inode with that number.
-/

namespace SimpleFileSystem

/-- All memory that is freed holds these bytes. -/
def Filesystem.FreedAs {F : Type} (freed : Block) (fs : Filesystem F) : Prop :=
  ∀ i block, fs.host.freed i block = freed

/-! ## What keeps it -/

section Maintains

variable {F α : Type} {freed : Block}

theorem maintains_time : Run.Maintains (Filesystem.FreedAs freed) (time : Fs F UInt64) := by
  intro fs a fs' hfs hrun
  cases hrun
  exact hfs

theorem maintains_malloc : Run.Maintains (Filesystem.FreedAs freed) (malloc : Fs F Bool) := by
  intro fs a fs' hfs hrun
  cases hrun
  exact hfs

/-- An assignment to a field of the filesystem. -/
theorem maintains_update {f : Filesystem F → Filesystem F} (h : ∀ fs, (f fs).host = fs.host) :
    Run.Maintains (Filesystem.FreedAs freed) (modify f : Fs F PUnit) :=
  Run.maintains_modify fun fs hfs i block => by rw [h fs, hfs i block]

/-- What is freed later is what is left to be found. -/
theorem maintains_free (block : Block) :
    Run.Maintains (Filesystem.FreedAs freed) (free block : Fs F Block) := by
  intro fs a fs' hfs hrun
  cases hrun
  exact fun i => hfs (i + 1)

theorem maintains_blockRead (n : UInt64) (block : Block) :
    Run.Maintains (Filesystem.FreedAs freed) (blockRead n block : Fs F (ℤ × Block)) := by
  intro fs a fs' hfs hrun
  rw [blockRead_run] at hrun
  cases hrun
  exact hfs

theorem maintains_blockWrite (n : UInt64) (block : Block) :
    Run.Maintains (Filesystem.FreedAs freed) (blockWrite n block : Fs F ℤ) := by
  intro fs a fs' hfs hrun
  rw [blockWrite_run] at hrun
  cases hrun
  exact hfs

theorem maintains_cacheInodeBlock (clearDirty : Bool) (n : UInt64) :
    Run.Maintains (Filesystem.FreedAs freed) (cacheInodeBlock clearDirty n : Fs F ℤ) := by
  have hback : Run.Maintains (Filesystem.FreedAs freed) (writeBack : Fs F ℤ) :=
    Run.maintains_get.bind fun _ =>
      ((maintains_blockWrite _ _).bind fun _ => Run.maintains_pure _).ite (Run.maintains_pure _)
  refine Run.maintains_get.bind fun _ => (Run.maintains_pure _).ite (hback.bind fun _ => ?_)
  refine (Run.maintains_pure _).ite ((maintains_update fun _ => by rfl).bind fun _ => ?_)
  refine Run.maintains_get.bind fun _ => (maintains_blockRead _ _).bind fun _ => ?_
  exact (maintains_update fun _ => by rfl).bind fun _ => Run.maintains_pure _

theorem maintains_readInode (k : UInt64) :
    Run.Maintains (Filesystem.FreedAs freed) (sfsFsReadInode k : Fs F (Option Inode)) :=
  (Run.maintains_assert _).bind fun _ => (maintains_cacheInodeBlock _ _).bind fun _ =>
    (Run.maintains_pure _).ite (Run.maintains_get.bind fun _ => Run.maintains_pure _)

/-- A read of an inode, and what follows. -/
theorem maintains_readInode_bind {k : UInt64} {f : Option Inode → Fs F α}
    (hnone : Run.Maintains (Filesystem.FreedAs freed) (f none))
    (hsome : ∀ v, Run.Maintains (Filesystem.FreedAs freed) (f (some v))) :
    Run.Maintains (Filesystem.FreedAs freed) (sfsFsReadInode k >>= f) := by
  refine (maintains_readInode k).bind fun inode => ?_
  cases inode with
  | none => exact hnone
  | some inode => exact hsome inode

theorem maintains_writeInode (v : Inode) :
    Run.Maintains (Filesystem.FreedAs freed) (sfsFsWriteInode v : Fs F ℤ) :=
  (Run.maintains_assert _).bind fun _ => (maintains_cacheInodeBlock _ _).bind fun _ =>
    (Run.maintains_pure _).ite
      ((maintains_update fun _ => by rfl).bind fun _ => Run.maintains_pure _)

theorem maintains_allocate :
    Run.Maintains (Filesystem.FreedAs freed) (sfsFsInodeAllocate : Fs F (Option Inode)) := by
  refine Run.maintains_get.bind fun _ => (Run.maintains_pure _).ite ?_
  refine maintains_readInode_bind (Run.maintains_pure _) fun inode => ?_
  refine (maintains_update fun _ => by rfl).bind fun _ => ?_
  refine (Run.maintains_get.bind fun _ => (maintains_blockWrite _ _).bind fun _ =>
    (Run.maintains_pure _).ite (Run.maintains_pure _)).bind fun _ => ?_
  exact (Run.maintains_pure _).ite (Run.maintains_pure _)

theorem maintains_splitPath (path : CString) :
    Run.Maintains (Filesystem.FreedAs freed) (splitPath path : Fs F (ℤ ⊕ CString)) :=
  maintains_malloc.bind fun _ => (Run.maintains_pure _).ite <|
    (Run.maintains_pure _).ite <| (Run.maintains_pure _).ite (Run.maintains_pure _)

theorem maintains_addLink (k : UInt64) :
    Run.Maintains (Filesystem.FreedAs freed) (addLink k : Fs F (Option Inode)) := by
  refine maintains_readInode_bind (Run.maintains_pure _) fun inode => ?_
  exact maintains_time.bind fun _ => (maintains_writeInode _).bind fun _ =>
    (Run.maintains_pure _).ite (Run.maintains_pure _)

/-- A layer of blocks that keeps it. -/
structure InodeLayer.Maintains (L : InodeLayer F) (I : Filesystem F → Prop) : Prop where
  allocate : Run.Maintains I L.allocate
  blockRead : ∀ v i block, Run.Maintains I (L.blockRead v i block)
  blockWrite : ∀ v i block, Run.Maintains I (L.blockWrite v i block)

variable {L : InodeLayer F} (hL : L.Maintains (Filesystem.FreedAs freed))

include hL

theorem maintains_iternext (wantInode : Bool) (it : DirIterator) :
    Run.Maintains (Filesystem.FreedAs freed) (sfsDirIternext L wantInode it) := by
  refine Run.Maintains.loop (fun it => ?_) _ _
  have hend : ∀ it : DirIterator,
      Run.Maintains (Filesystem.FreedAs freed) (iterEnd it : Fs F (DirIterator ⊕ IterNext)) :=
    fun it => (maintains_free _).bind fun _ => Run.maintains_pure _
  refine Run.Maintains.ite ((hend it).bind fun _ => Run.maintains_pure _) ?_
  dsimp only
  split
  · refine (hL.blockRead _ _ _).bind fun _ => (hend _).ite ?_
    refine maintains_time.bind fun _ => (maintains_writeInode _).bind fun _ => (hend _).ite ?_
    split
    · refine Run.Maintains.ite (maintains_readInode_bind ?_ fun _ => ?_) (Run.maintains_pure _)
      · exact hend _
      · exact Run.maintains_pure _
    · exact Run.maintains_pure _
  · split
    · refine Run.Maintains.ite (maintains_readInode_bind ?_ fun _ => ?_) (Run.maintains_pure _)
      · exact hend _
      · exact Run.maintains_pure _
    · exact Run.maintains_pure _

theorem maintains_search (name : CString) (it : DirIterator) :
    Run.Maintains (Filesystem.FreedAs freed) (search L name it) := by
  refine Run.Maintains.loop (fun it => ?_) _ _
  refine (maintains_iternext hL false it).bind fun answer => ?_
  cases answer with
  | stop directory => exact Run.maintains_pure _
  | entry it j inode => exact (Run.maintains_pure _).ite (Run.maintains_pure _)

theorem maintains_dirLink (directory : Inode) (name : CString) (inode : Inode) :
    Run.Maintains (Filesystem.FreedAs freed) (sfsDirLink L directory name inode) := by
  refine (Run.maintains_pure _).ite (Run.Maintains.loop (fun i => ?_) _ _)
  refine Run.Maintains.ite ((hL.blockRead _ _ _).bind fun _ => (Run.maintains_pure _).ite ?_) ?_
  · split
    · refine (hL.blockWrite _ _ _).bind fun _ => (Run.maintains_pure _).ite ?_
      refine maintains_time.bind fun _ => (maintains_writeInode _).bind fun _ => ?_
      refine (Run.maintains_pure _).ite ((maintains_writeInode _).bind fun _ => ?_)
      exact (Run.maintains_pure _).ite (Run.maintains_pure _)
    · exact Run.maintains_pure _
  · refine (hL.blockWrite _ _ _).bind fun _ => (Run.maintains_pure _).ite ?_
    refine maintains_time.bind fun _ => (maintains_writeInode _).bind fun _ => ?_
    refine (Run.maintains_pure _).ite (maintains_time.bind fun _ => ?_)
    refine (maintains_writeInode _).bind fun _ => ?_
    exact (Run.maintains_pure _).ite (Run.maintains_pure _)

end Maintains

/-! ## `sfs_create` keeps it -/

section Create

variable {α : Type} {freed : Block}

theorem maintains_onFs {x : Fs DirFiles α} (hx : Run.Maintains (Filesystem.FreedAs freed) x) :
    Run.Maintains (fun s : SfsState DirFiles => s.fs.FreedAs freed) (onFs x) := by
  intro s a s' hs hrun
  rw [onFs, Run.run_zoom] at hrun
  cases hfs : x.run s.fs with
  | done b fs =>
    rw [hfs, Outcome.onState_done] at hrun
    cases hrun
    exact hx _ _ _ hs hfs
  | halt e =>
    rw [hfs, Outcome.onState_halt] at hrun
    cases hrun

/-- The mutex and the pool are other parts of the state. -/
theorem maintains_assign {f : SfsState DirFiles → SfsState DirFiles} (h : ∀ s, (f s).fs = s.fs) :
    Run.Maintains (fun s : SfsState DirFiles => s.fs.FreedAs freed)
      (modify f : Sfs DirFiles PUnit) :=
  Run.maintains_modify fun s hs => by rw [h s]; exact hs

theorem maintains_return (a : α) : Run.Maintains (fun s : SfsState DirFiles => s.fs.FreedAs freed)
    (do unlock; return a : Sfs DirFiles α) :=
  (maintains_assign fun _ => by rfl).bind fun _ => Run.maintains_pure a

theorem maintains_fdAllocate :
    Run.Maintains (fun s : SfsState DirFiles => s.fs.FreedAs freed) sfsFiledescriptorAllocate := by
  intro s a s' hs hrun
  rcases allocate_fs hrun with h | h
  · rw [h]
    exact hs
  · rw [h]
    exact hs

theorem maintains_openHandle (k flags : UInt64) :
    Run.Maintains (fun s : SfsState DirFiles => s.fs.FreedAs freed)
      (openHandle k flags : Sfs DirFiles (ℤ × Option UInt64)) := by
  refine maintains_fdAllocate.bind fun fd => ?_
  cases fd with
  | none => exact maintains_return _
  | some fd =>
    refine (maintains_assign fun _ => by rfl).bind fun _ => ?_
    refine (maintains_assign fun _ => by rfl).bind fun _ => ?_
    exact Run.maintains_get.bind fun s => maintains_return _

/-- **`sfs_create`** leaves what is found in freed memory as it is. -/
theorem maintains_create {L : InodeLayer DirFiles} (hL : L.Maintains (Filesystem.FreedAs freed))
    (context : FuseContext) (path : CString) (mode : UInt32) (flags : UInt64) :
    Run.Maintains (fun s : SfsState DirFiles => s.fs.FreedAs freed)
      (sfsCreate L context path mode flags) := by
  have hlock : Run.Maintains (fun s : SfsState DirFiles => s.fs.FreedAs freed) lock := by
    intro s a s' hs hrun
    obtain ⟨-, rfl⟩ := lock_run hrun
    exact hs
  refine hlock.bind fun _ => (maintains_onFs (maintains_splitPath path)).bind fun answer => ?_
  cases answer with
  | inl ret => exact maintains_return _
  | inr name =>
  refine (maintains_onFs (maintains_readInode 1)).bind fun directory => ?_
  cases directory with
  | none => exact maintains_return _
  | some directory =>
  have hiterate : Run.Maintains (Filesystem.FreedAs freed)
      (sfsDirIterate directory : Fs DirFiles (Option DirIterator)) :=
    (Run.maintains_assert _).bind fun _ => maintains_malloc.bind fun _ =>
      (Run.maintains_pure _).ite (Run.maintains_pure _)
  refine (maintains_onFs hiterate).bind fun it => ?_
  cases it with
  | none => exact maintains_return _
  | some it =>
  refine (maintains_onFs (maintains_search hL name it)).bind fun found => ?_
  cases found with
  | found it j =>
    refine (maintains_onFs (maintains_free _)).bind fun _ => (maintains_return _).ite ?_
    refine (maintains_onFs (maintains_addLink _)).bind fun file => ?_
    cases file with
    | none => exact maintains_return _
    | some file => exact maintains_openHandle _ _
  | stop directory =>
    refine (maintains_onFs hL.allocate).bind fun file => ?_
    cases file with
    | none => exact maintains_return _
    | some file =>
      have hnew : Run.Maintains (Filesystem.FreedAs freed)
          (newFile context mode directory file : Fs DirFiles Inode) :=
        maintains_time.bind fun _ => maintains_time.bind fun _ => maintains_time.bind fun _ =>
          Run.maintains_pure _
      refine (maintains_onFs hnew).bind fun file => ?_
      refine (maintains_onFs (maintains_writeInode file)).bind fun _ => (maintains_return _).ite ?_
      refine (maintains_onFs (maintains_dirLink hL _ _ _)).bind fun _ => ?_
      exact (maintains_return _).ite (maintains_openHandle _ _)

end Create

/-- The blocks of that layer are not the host's. -/
theorem maintains_loggedLayer (freed : Block) :
    (loggedLayer sfsFsInodeAllocate).Maintains (Filesystem.FreedAs freed) where
  allocate := maintains_allocate
  blockRead _ _ _ := (Run.maintains_get.bind fun _ => Run.maintains_pure _).ite
    (Run.maintains_pure _)
  blockWrite _ _ _ := ((maintains_update fun _ => by rfl).bind fun _ => Run.maintains_pure _).ite
    (Run.maintains_pure _)

/-! ## `sfs_getattr` of a name -/

section Getattr

variable {b : Ledger} {s : SfsState DirFiles} {path name : CString} {e : DirEntry}
  {freed : Block} {allocate : Fs DirFiles (Option Inode)}

/-- **`sfs_getattr` of a name that is there** comes to read the inode whose number is found in
the memory that it freed. -/
theorem sfsGetattr_bound (h : b.Books s) (hpath : pathName path = .inr name)
    (hslash : path ≠ [slash]) (he : e ∈ live b.slots) (hname : cString e.name = name)
    (hfreed : s.fs.FreedAs freed) :
    ∃ t w, Shows t.fs w ∧ DirTouched 1 b.view w ∧ t.fdPool = s.fdPool ∧
      (sfsGetattr (loggedLayer allocate) path).run s = (do
        let some file ← onFs (sfsFsReadInode (Block.dirEntry freed 0).inumber) |
          unlock
          return (-1, none)
        unlock
        return (0, some (sfsFsInodeToStat file)) : Sfs DirFiles (ℤ × Option Stat)).run t := by
  have hroot := h.balanced.root
  rw [sfsGetattr]
  obtain ⟨_, s₁, ⟨hfs, hp₁⟩, hrun₁⟩ := (lock_ensures h.idle).goes_on
  have h₁ : Shows s₁.fs b.view := by
    rw [hfs]
    exact h.shows
  obtain ⟨_, s₂, ⟨⟨rfl, h₂⟩, hp₂⟩, hrun₂⟩ := (onFs_ensures (splitPath_ensures h₁ path)).goes_on
  rw [hrun₁, hrun₂, hpath]
  dsimp only
  obtain ⟨_, s₃, ⟨⟨rfl, h₃⟩, hp₃⟩, hrun₃⟩ := (onFs_ensures (sfsDirRoot_ensures h₂ hroot)).goes_on
  rw [hrun₃]
  dsimp only
  rw [if_neg hslash]
  obtain ⟨_, s₄, ⟨⟨h₄, it, rfl, hahead⟩, hp₄⟩, hrun₄⟩ :=
    (onFs_ensures (sfsDirIterate_ensures h₃ hroot)).goes_on
  rw [hrun₄]
  dsimp only
  obtain ⟨found, s₅, ⟨⟨w₅, haccess, h₅, hfound⟩, hp₅⟩, hrun₅⟩ := (onFs_ensures
    (search_ensures (serves_shows allocate) h₄ hahead (pathName_short hpath))).goes_on
  rw [hrun₅]
  cases found with
  | stop directory => exact absurd hname (hfound.2 e (mem_live.mp he).1 (mem_live.mp he).2)
  | found it j =>
    obtain ⟨hkept, -, before, e', after, -, -, hstops⟩ := hfound
    dsimp only
    obtain ⟨_, s₆, ⟨⟨rfl, h₆⟩, hp₆⟩, hrun₆⟩ :=
      (onFs_ensures (h₅.free_ensures it.cachedBlock)).goes_on
    have hj := hstops.first
    subst hj
    have hfound : w₅.freed 0 it.cachedBlock = freed := by
      rw [hkept, ← h.shows.freed]
      exact hfreed 0 it.cachedBlock
    rw [hfound] at hrun₆
    exact ⟨s₆, _, h₆, haccess.released.touched,
      hp₆.trans (hp₅.trans (hp₄.trans (hp₃.trans (hp₂.trans hp₁)))), hrun₆ _⟩

/-- No inode has the number 0. -/
theorem sfsGetattr_aborts (h : b.Books s) (hpath : pathName path = .inr name)
    (hslash : path ≠ [slash]) (he : e ∈ live b.slots) (hname : cString e.name = name)
    (hfreed : s.fs.FreedAs freed) (hzero : (Block.dirEntry freed 0).inumber = 0) :
    (sfsGetattr (loggedLayer allocate) path).run s = .halt .assertion := by
  obtain ⟨t, w, -, -, -, hrun⟩ := sfsGetattr_bound h hpath hslash he hname hfreed
  rw [hrun, hzero]
  rfl

/-- The number of an inode whose block is past the end of every disk.  As an `int` the number
of the block is 1. -/
def strayInumber : UInt64 :=
  UInt64.ofNat (3 * 2 ^ 54 + 1)

/-- The number of its block. -/
def strayBlock : UInt64 :=
  UInt64.ofNat (2 ^ 54 + 1)

/-- **A read of that inode** fails, and leaves a cache in which the first block of the table is
all zeros. -/
theorem readInode_stray {fs : Filesystem DirFiles} (h : InodeState fs) :
    ∃ fs', (sfsFsReadInode strayInumber).run fs = .done none fs' ∧
      fs'.superblock = fs.superblock ∧ ∀ k, inodeBlock k = 1 → fs'.logicalInode k = Inode.zero := by
  have hflush : fs.flush.1 = 512 := by
    have hrun := (writeBack_run_flush fs).symm.trans (writeBack_run h)
    by_contra hne
    rw [if_neg hne] at hrun
    exact absurd (Outcome.done.inj hrun).1 (by decide)
  have hblock : inodeBlock strayInumber = strayBlock := by decide
  have hoffset : 2 ^ 63 ≤ (strayBlock * 512).toNat := by decide
  have hmiss : fs.cachedBlock ≠ strayBlock := by
    intro e
    have hcovers := h.reliable.covers
    have haddressable := h.reliable.addressable
    have hinDisk := UInt64.lt_iff_toNat_lt.mp h.table.inDisk
    have hnat : strayBlock.toNat = 2 ^ 54 + 1 := by decide
    rcases h.cache.inTable with h0 | hin
    · rw [h0] at e
      exact absurd e (by decide)
    · have hle := UInt64.le_iff_toNat_le.mp hin.2
      rw [e] at hle
      omega
  have hload : fs.flush.2.load strayBlock = (-1, Block.zero) := by
    rw [Filesystem.load, Disk.pread, if_pos hoffset]
    rfl
  refine ⟨fs.flush.2.reloaded false strayBlock, ?_, flush_superblock fs, fun k hk => ?_⟩
  · rw [sfsFsReadInode, decide_eq_true (by decide), Run.assert_true, Run.pure_bind', Run.run_bind,
      hblock, cacheInodeBlock_of_miss hmiss hflush, hload, if_neg (by decide), Run.andThen_done,
      if_pos (by decide), Run.run_pure]
    rfl
  · have hcached : (fs.flush.2.reloaded false strayBlock).cachedBlock = inodeBlock k := by
      rw [hk]
      show ofCInt (toCInt strayBlock) = 1
      decide
    rw [Filesystem.logicalInode, Filesystem.tableBlock, if_pos hcached, Filesystem.reloaded, hload,
      Block.inode_zero]

/-- `sfs_getattr` then fails. -/
theorem sfsGetattr_forgets (h : b.Books s) (hpath : pathName path = .inr name)
    (hslash : path ≠ [slash]) (he : e ∈ live b.slots) (hname : cString e.name = name)
    (hfreed : s.fs.FreedAs freed) (hstray : (Block.dirEntry freed 0).inumber = strayInumber) :
    ∃ s', (sfsGetattr (loggedLayer allocate) path).run s = .done (-1, none) s' ∧
      s'.fdPool = s.fdPool ∧ s'.fs.superblock.inodes = s.fs.superblock.inodes ∧
      ∀ k, inodeBlock k = 1 → s'.fs.logicalInode k = Inode.zero := by
  obtain ⟨t, w, ht, htouched, hpool, hrun⟩ := sfsGetattr_bound h hpath hslash he hname hfreed
  obtain ⟨fs', hread, hsuperblock, hzeros⟩ := readInode_stray ht.state
  refine ⟨{ t with fs := fs', mu := .unlock :: t.mu }, ?_, hpool, ?_, hzeros⟩
  · rw [hrun, hstray, Run.run_bind, onFs_run hread]
    rfl
  · show fs'.superblock.inodes = s.fs.superblock.inodes
    rw [hsuperblock, ht.inodes, htouched.inodes, h.shows.inodes]

end Getattr

/-! ## A file in the sample -/

/-- `sfs_create` of a file `a`. -/
def createA : Request :=
  .create ⟨0, 0, 0⟩ [slash, 97] 0 0

/-- `sfs_getattr` of it. -/
def getattrA : Request :=
  .getattr [slash, 97]

section Sample

variable (freed : Block)

theorem fileName_a : FileName [97] where
  nonempty := by decide
  short := by decide
  noSlash := by decide
  noZero := by decide

/-- **The file is created**, and gets inode 2. -/
theorem createA_freshSession : ∃ n s b,
    (createA.reply (loggedLayer sfsFsInodeAllocate)).run (freshSession freed).state =
      .done (.handle (0, some (ofCInt (n : ℕ)))) s ∧
    (freshSession freed).after s (.handle (0, some (ofCInt n))) createA = ⟨s, [n], []⟩ ∧
    Session.Describes ⟨s, [n], []⟩ b ∧ s.fs.FreedAs freed ∧ (b.pool.slot n).inumber = 2 ∧
    ∃ e ∈ live b.slots, cString e.name = [97] ∧ e.inumber = 2 := by
  have hfresh := fresh_freshSession freed
  have hx := hfresh.describes
  have hslots : (freshSession freed).ledger.slots = [] := rootSlots_freshFilesystem freed
  have hunbound : (freshSession freed).ledger.Unbound [97] := by
    intro e he
    rw [hslots] at he
    exact absurd he List.not_mem_nil
  have hhead : (freshSession freed).ledger.view.head = 2 :=
    congrArg Superblock.freeInodeHead (superblock_freshFilesystem freed)
  have htable : (freshSession freed).ledger.view.table 2 = freeInode 2 3 :=
    logicalInode_freeInode freed (by simp [freshInodes])
  have hinodes : (freshSession freed).ledger.view.inodes = 4 :=
    congrArg Superblock.inodes (superblock_freshFilesystem freed)
  have hunused : (freshSession freed).ledger.Unused (freshSession freed).ledger.view.head := by
    rw [hhead]
    exact ⟨⟨by decide, by rw [hinodes]; decide, by decide⟩, by decide, hfresh.refs 2⟩
  have hinumber : ((freshSession freed).ledger.view.table
      (freshSession freed).ledger.view.head).inumber = (freshSession freed).ledger.view.head := by
    rw [hhead, htable]
    rfl
  have hroom : ¬ ((freshSession freed).ledger.slots.length = mappedBlocks ∧
      ∀ e ∈ (freshSession freed).ledger.slots, e.inumber ≠ 0) := by
    rw [hslots]
    exact fun hfull => absurd hfull.1 (by decide)
  have hfew : (freshSession freed).ledger.opened.length + slotsPerSlab < 2 ^ 31 := by
    show 0 + slotsPerSlab < 2 ^ 31
    decide
  have hcreates : Run.Ensures (sfsCreate (loggedLayer sfsFsInodeAllocate) ⟨0, 0, 0⟩ [slash, 97] 0 0)
      (freshSession freed).state (Answers (fun _ _ _ => True)
        (freshSession freed).ledger fun r ev =>
        ∃ n : ℕ, r = (0, some (ofCInt n)) ∧
          ev = .creates [97] (freshSession freed).ledger.view.head n) :=
    sfsCreate_creates hx.books (pathName_file fileName_a) (by decide) hfew hunbound hunused hroom
      hinumber trivial ⟨0, 0, 0⟩ 0
  obtain ⟨r, s, hrun, ev, b, hstep, hbooks, n, rfl, rfl⟩ :=
    Answers.books hx.books hcreates (givesBack_create _ _ _ _ _ _)
  have hfreed : s.fs.FreedAs freed :=
    maintains_create (maintains_loggedLayer freed) _ _ _ _ _ _ _ (fun _ _ => rfl) hrun
  have hreply : (createA.reply (loggedLayer sfsFsInodeAllocate)).run (freshSession freed).state =
      .done (.handle (0, some (ofCInt (n : ℕ)))) s := by
    rw [createA, Request.reply, Run.run_bind, hrun, Run.andThen_done, Run.run_pure]
  obtain ⟨hhandle, hopened, hne⟩ := hstep.handles hx.books.balanced
  have hafter : (freshSession freed).after s (.handle (0, some (ofCInt n))) createA =
      ⟨s, [n], []⟩ := by
    show (⟨s, Reply.handles (.handle (0, some (ofCInt n))) ++ [], []⟩ : Session) = ⟨s, [n], []⟩
    rw [handles_of_opened hbooks.balanced (List.Perm.of_eq hopened)]
    rfl
  refine ⟨n, s, b, hreply, hafter, hx.openFile hbooks hhandle hopened hne, hfreed,
    hhandle.inumber.trans hhead, newEntry 2 [97], ?_, ?_, rfl⟩
  · cases hstep with
    | creates root fills fresh nonempty stored unused sets handed deallocated handle =>
      rw [hhead] at fills
      exact (fills.live_perm (by decide)).mem_iff.mpr List.mem_cons_self
  · exact cString_strncpy256 (by decide) (by decide)

/-- The file is created, its name is removed and the handle on it is closed. -/
def createAndDrop : Sfs DirFiles ((ℤ × Option UInt64) × ℤ × ℤ) := do
  let created ← sfsCreate (loggedLayer sfsFsInodeAllocate) ⟨0, 0, 0⟩ [slash, 97] 0 0
  let unlinked ← sfsUnlink (loggedLayer sfsFsInodeAllocate) [slash, 97]
  let released ← sfsRelease (loggedLayer sfsFsInodeAllocate) 0
  return (created, unlinked, released)

/-- **The three requests end well.** -/
theorem createAndDrop_freshSession : ∃ s₁ s₂ s₃,
    (createA.reply (loggedLayer sfsFsInodeAllocate)).run (freshSession Block.zero).state =
      .done (.handle (0, some 0)) s₁ ∧
    ((Request.unlink [slash, 97]).reply (loggedLayer sfsFsInodeAllocate)).run s₁ =
      .done (.code 0) s₂ ∧
    ((Request.release 0).reply (loggedLayer sfsFsInodeAllocate)).run s₂ =
      .done (.code 0) s₃ := by
  have hvalue : (createAndDrop.run (freshSession Block.zero).state).value =
      some ((0, some 0), 0, 0) := by
    decide +kernel
  obtain ⟨last, hrun⟩ := Outcome.exists_of_value hvalue
  obtain ⟨created, s₁, hcreate, hrun⟩ := Run.bind_eq_done.mp hrun
  obtain ⟨unlinked, s₂, hunlink, hrun⟩ := Run.bind_eq_done.mp hrun
  obtain ⟨released, s₃, hrelease, hrun⟩ := Run.bind_eq_done.mp hrun
  obtain ⟨hcreated, hdropped⟩ := Prod.mk.inj (Outcome.done.inj hrun).1
  obtain ⟨rfl, rfl⟩ := Prod.mk.inj hdropped
  rw [hcreated] at hcreate
  exact ⟨s₁, s₂, s₃, Run.bind_eq_done.mpr ⟨_, s₁, hcreate, rfl⟩,
    Run.bind_eq_done.mpr ⟨_, s₂, hunlink, rfl⟩, Run.bind_eq_done.mpr ⟨_, s₃, hrelease, rfl⟩⟩

end Sample

end SimpleFileSystem
