import SimpleFileSystem.Mirror

/-!
# The functions on directories, side by side

The functions of `dir.c` run over `fs.c` and over the array in step: what they read is the
same, so they take the same branches.  An iterator over the one and an iterator over the
other stand at the same place (`Iterates`), and the entry at which they stop is one of the
directory.  Neither loop needs an invariant of its own for that, nor does it matter that it
ends: the two end alike.
-/

namespace SimpleFileSystem

variable {F : Type}

/-! ## Pairs -/

/-- **A filesystem on the disk, and the array that it mirrors.** -/
structure Paired (A : List UInt64) (L : FreeList) (base fs : Filesystem F) (t : Filesystem DirFiles)
    (w : View) : Prop where
  mirrors : Mirrors A L base fs w
  shows : Shows t w

section Pairs

variable {base fs : Filesystem F} {t : Filesystem DirFiles} {A : List UInt64} {L : FreeList}
  {w : View} {v u : Inode} {k i : UInt64}

namespace Paired

/-- A step on the hosts. -/
theorem of_host (h : Paired A L base fs t w) (host host' : Host)
    (hfaults : host.faults = fs.host.faults) (hmemory : ∀ i, host.mallocs i = true)
    (hfaults' : host'.faults = t.host.faults) (hmemory' : ∀ i, host'.mallocs i = true)
    (hfreed : host'.freed = host.freed) :
    Paired A L base { fs with host := host } { t with host := host' }
      { w with freed := host.freed } := by
  refine ⟨h.mirrors.of_host host hfaults hmemory, ?_, hmemory'⟩
  rw [← hfreed]
  exact h.shows.of_host host' hfaults'

theorem time (h : Paired A L base fs t w) :
    Run.Agree (time : Fs F UInt64) fs (time : Fs DirFiles UInt64) t fun _ fs' _ t' =>
      Paired A L base fs' t' w ∧ fs'.logicalInode = fs.logicalInode := by
  refine Run.Agree.of_eq (time_run fs) (time_run t) ⟨?_, rfl⟩
  have hticked := h.of_host fs.ticked.host t.ticked.host rfl h.mirrors.memory
    rfl h.shows.memory (h.shows.freed.trans h.mirrors.freed.symm)
  rw [show fs.ticked.host.freed = w.freed from h.mirrors.freed] at hticked
  exact hticked

theorem malloc (h : Paired A L base fs t w) :
    Run.Agree (malloc : Fs F Bool) fs (malloc : Fs DirFiles Bool) t fun a fs' b t' =>
      a = true ∧ b = true ∧ Paired A L base fs' t' w ∧ fs'.logicalInode = fs.logicalInode := by
  refine Run.Agree.of_eq (malloc_run fs) (malloc_run t)
    ⟨h.mirrors.memory 0, h.shows.memory 0, ?_, rfl⟩
  have hmalloced := h.of_host fs.malloced.host t.malloced.host rfl
    (fun i => h.mirrors.memory (i + 1)) rfl (fun i => h.shows.memory (i + 1))
    (h.shows.freed.trans h.mirrors.freed.symm)
  rw [show fs.malloced.host.freed = w.freed from h.mirrors.freed] at hmalloced
  exact hmalloced

theorem free (h : Paired A L base fs t w) (block : Block) :
    Run.Agree (free block : Fs F Block) fs (free block : Fs DirFiles Block) t fun a fs' b t' =>
      a = w.freed 0 block ∧ b = a ∧ Paired A L base fs' t' w.released ∧
        fs'.logicalInode = fs.logicalInode := by
  refine Or.inl ⟨fs.host.freed 0 block, _, t.host.freed 0 block, _, rfl, rfl, ?_, ?_, ?_, rfl⟩
  · rw [h.mirrors.freed]
  · rw [h.mirrors.freed, h.shows.freed]
  · rw [View.released, ← h.mirrors.freed]
    exact h.of_host _ _ rfl h.mirrors.memory rfl h.shows.memory
      (by rw [h.shows.freed, h.mirrors.freed])

theorem readInode (h : Paired A L base fs t w) (hk : fs.superblock.ValidInumber k) :
    Run.Agree (sfsFsReadInode k) fs (sfsFsReadInode k) t fun a fs' b t' =>
      a = some (fs.logicalInode k) ∧ b = some (w.table k) ∧ Paired A L base fs' t' w ∧
        ∀ j, 0 < j → fs'.logicalInode j = fs.logicalInode j := by
  refine (h.mirrors.readInode hk).agree (h.shows.readInode_ensures (h.mirrors.valid hk)) ?_
  rintro a fs' b t' ⟨rfl, hmirrors, -, hsame⟩ ⟨rfl, hshows⟩
  exact ⟨rfl, rfl, ⟨hmirrors, hshows⟩, hsame⟩

theorem writeInode (h : Paired A L base fs t w) (hv : fs.Current A v)
    (hsize : v.inumber = 1 → v.size = (fs.logicalInode 1).size) (hu : v.Shadow u) :
    Run.Agree (sfsFsWriteInode v) fs (sfsFsWriteInode u) t fun a fs' b t' =>
      a = 0 ∧ b = 0 ∧ Paired A L base fs' t' (w.setInode u) ∧ fs'.logicalInode v.inumber = v ∧
        ∀ j, 0 < j → j ≠ v.inumber → fs'.logicalInode j = fs.logicalInode j := by
  have hvalid : w.Valid u.inumber := by
    rw [hu.inumber]
    exact h.mirrors.valid (h.mirrors.mem_valid hv.mem)
  refine (h.mirrors.writeInode hv hsize hu).agree (h.shows.writeInode_ensures hvalid) ?_
  rintro a fs' b t' ⟨rfl, hmirrors, -, hset, hsame⟩ ⟨rfl, hshows⟩
  exact ⟨rfl, rfl, ⟨hmirrors, hshows⟩, hset, hsame⟩

/-- **A block of the root directory is read.** -/
theorem blockRead (h : Paired A L base fs t w) (allocate : Fs DirFiles (Option Inode))
    (i : UInt64) (block : Block) :
    Run.Agree ((fsLayer : InodeLayer F).blockRead (fs.logicalInode 1) i block) fs
      ((loggedLayer allocate).blockRead (w.table 1) i block) t fun a fs' b t' =>
        fs' = fs ∧ t' = t ∧ (i < sfsNdirBlocks + sfsNindBlocks ∧ a = (0, base.fileBlock 1 i) ∧
          b = (0, base.fileBlock 1 i) ∨
          ¬ i < sfsNdirBlocks + sfsNindBlocks ∧ a = (-1, block) ∧ b = (-1, block)) := by
  obtain ⟨nodes, himage⟩ := h.mirrors.shelved.image
  have hvalid := h.mirrors.mem_valid h.mirrors.root
  have hown := h.mirrors.own 1 hvalid
  have hown' : (w.table 1).inumber = 1 := (h.mirrors.table 1 hvalid).inumber.trans hown
  have hcurrent : fs.Current A (fs.logicalInode 1) :=
    ⟨by rw [hown]; exact h.mirrors.root, by rw [hown]⟩
  by_cases hi : i < sfsNdirBlocks + sfsNindBlocks
  · have hread := himage.blockRead_run hcurrent hi block
    rw [hown, h.mirrors.still.fileBlock himage h.mirrors.root] at hread
    refine Run.Agree.of_eq hread (congrArg (fun x : Fs DirFiles (ℤ × Block) => x.run t)
      (if_pos hi)) ⟨rfl, rfl, Or.inl ⟨hi, rfl, ?_⟩⟩
    rw [hown', h.shows.files, h.mirrors.blocks i hi]
  · have h12 : ¬ i < sfsNdirBlocks := fun hlt => hi (UInt64.lt_trans hlt (by decide))
    have hread : (sfsFsInodeBlockRead (fs.logicalInode 1) i block).run fs =
        .done (-1, block) fs := by
      rw [sfsFsInodeBlockRead, blockNumberForRead, if_neg h12, if_neg hi]
      rfl
    exact Run.Agree.of_eq hread (congrArg (fun x : Fs DirFiles (ℤ × Block) => x.run t)
      (if_neg hi)) ⟨rfl, rfl, Or.inr ⟨hi, rfl, rfl⟩⟩

/-- The inode of a file is written, which may have another size. -/
theorem writeInode_moved (h : Paired A L base fs t w) (hv : fs.Current A v) (hu : v.Shadow u) :
    Run.Agree (sfsFsWriteInode v) fs (sfsFsWriteInode u) t fun a fs' b t' =>
      a = 0 ∧ b = 0 ∧ Paired A L fs' fs' t' (w.setInode u) ∧ fs'.logicalInode v.inumber = v ∧
        (∀ j, 0 < j → j ≠ v.inumber → fs'.logicalInode j = fs.logicalInode j) ∧
        ∀ j ∈ A, ∀ i, fs'.fileBlock j i = fs.fileBlock j i := by
  have hvalid : w.Valid u.inumber := by
    rw [hu.inumber]
    exact h.mirrors.valid (h.mirrors.mem_valid hv.mem)
  refine (h.mirrors.writeInode_moved hv hu).agree (h.shows.writeInode_ensures hvalid) ?_
  rintro a fs' b t' ⟨rfl, hmirrors, -, hset, hothers, -, hblocks⟩ ⟨rfl, hshows⟩
  exact ⟨rfl, rfl, ⟨hmirrors, hshows⟩, hset, hothers, hblocks⟩

/-- **The inode of the root directory is written**, with other times. -/
theorem writeRoot (h : Paired A L base fs t w) (hnumber : v.inumber = 1)
    (hpointers : v.blockPointers = (fs.logicalInode 1).blockPointers)
    (hsize : v.size = (fs.logicalInode 1).size) (hu : v.Shadow u) :
    Run.Agree (sfsFsWriteInode v) fs (sfsFsWriteInode u) t fun a fs' b t' =>
      a = 0 ∧ b = 0 ∧ Paired A L base fs' t' (w.setInode u) ∧ v = fs'.logicalInode 1 ∧
        u = (w.setInode u).table 1 ∧
        ∀ j, 0 < j → j ≠ 1 → fs'.logicalInode j = fs.logicalInode j := by
  have hcurrent : fs.Current A v :=
    ⟨by rw [hnumber]; exact h.mirrors.root, by rw [hnumber, hpointers]⟩
  refine (h.writeInode hcurrent (fun _ => hsize) hu).mono ?_
  rintro a fs' b t' ⟨ha, hb, h', hset, hothers⟩
  have hself := View.setInode_table_self w u
  rw [hu.inumber, hnumber] at hself
  rw [hnumber] at hset hothers
  exact ⟨ha, hb, h', hset.symm, hself.symm, hothers⟩

/-- **A block of the root directory is written**, if the write is not refused. -/
theorem blockWrite (h : Paired A L base fs t w) (allocate : Fs DirFiles (Option Inode))
    {nodes : List UInt64} (himage : Image fs nodes A []) (hv : v = fs.logicalInode 1)
    (hu : u = w.table 1) (hgoes : ¬ fs.Refuses nodes (fs.logicalInode 1) i)
    (hblank : fs.BlankIndex (fs.logicalInode 1) i) (block : Block) :
    Run.Agree ((fsLayer : InodeLayer F).blockWrite v i block) fs
      ((loggedLayer allocate).blockWrite u i block) t fun a fs' b t' =>
        a = (0, fs'.logicalInode 1) ∧ b = (0, u) ∧
          Paired A L fs' fs' t' (w.setBlock 1 i block) ∧
          (fs'.logicalInode 1).size = (fs.logicalInode 1).size ∧
          ∀ j ∈ A, j ≠ 1 → fs'.logicalInode j = fs.logicalInode j ∧
            ∀ i, fs'.fileBlock j i = fs.fileBlock j i := by
  have hvalid := h.mirrors.mem_valid h.mirrors.root
  have hu1 : u.inumber = 1 := by
    rw [hu, (h.mirrors.table 1 hvalid).inumber, h.mirrors.own 1 hvalid]
  have hi : i < sfsNdirBlocks + sfsNindBlocks := by
    by_contra hi
    refine hgoes ?_
    rw [Filesystem.Refuses, Disk.resolve, if_neg fun hlt => hi (UInt64.lt_trans hlt (by decide)),
      if_neg hi]
    trivial
  rw [hv]
  refine (h.mirrors.blockWrite himage hblank hgoes block).agree
    ((serves_shows allocate).blockWrite_ensures h.shows hu1 hi block) ?_
  rintro a fs' b t' ⟨ha, hmirrors, hsize, hfiles⟩ ⟨hb, hshows⟩
  exact ⟨ha, hb, ⟨hmirrors, hshows⟩, hsize, hfiles⟩

end Paired

end Pairs

/-! ## Iteration -/

/-- **The entries of the root directory** are those of files. -/
structure Entries (A : List UInt64) (base : Filesystem F) : Prop where
  size : (base.logicalInode 1).size.toNat = 512 * base.rootLength
  mapped : base.rootLength ≤ mappedBlocks
  named : ∀ i < base.rootLength, (base.rootSlot i).inumber ≠ 0 →
    (base.rootSlot i).inumber ∈ A ∧ (base.rootSlot i).inumber ≠ 1

/-- A block in front of the end of the directory. -/
theorem Entries.lt_rootLength {base : Filesystem F} {A : List UInt64} {i : UInt64}
    (h : Entries A base) (hi : i < sfsNdirBlocks + sfsNindBlocks)
    (hin : ¬ i * 512 ≥ (base.logicalInode 1).size) : i.toNat < base.rootLength := by
  have hlt : i.toNat < mappedBlocks := mapped_iff.mp hi
  have hmapped := h.mapped
  unfold mappedBlocks at hlt hmapped
  have hmul : (i * 512).toNat = 512 * i.toNat := by
    rw [UInt64.toNat_mul]
    show i.toNat * 512 % 2 ^ 64 = _
    omega
  rw [ge_iff_le, UInt64.le_iff_toNat_le, h.size, hmul] at hin
  omega

/-- An iterator has read its block. -/
structure Loaded (base : Filesystem F) (it : DirIterator) : Prop where
  lt : it.iblock.toNat < base.rootLength
  block : it.cachedBlock = base.fileBlock 1 it.iblock

/-- The entry of the block that was read. -/
theorem Loaded.entry {base : Filesystem F} {it : DirIterator} (h : Loaded base it) :
    Block.dirEntry it.cachedBlock 0 = base.rootSlot it.iblock.toNat := by
  rw [h.block, Filesystem.rootSlot, UInt64.ofNat_toNat, Filesystem.fileBlock]

/-- **Two iterators at the same place.** -/
structure Iterates (base fs : Filesystem F) (w : View) (it it' : DirIterator) : Prop where
  inode : it.inode = fs.logicalInode 1
  inode' : it'.inode = w.table 1
  iblock : it'.iblock = it.iblock
  entry : it'.entry = it.entry
  cached : it'.cachedBlock = it.cachedBlock
  place : it.entry = 0 ∨ it.entry = 1 ∧ Loaded base it

/-- A pair that an iteration goes through: the inodes of the files and the memory that is freed
stay what they are. -/
structure Browsing (A : List UInt64) (L : FreeList) (base : Filesystem F) (T : UInt64 → Inode)
    (freed : ℕ → Block → Block) (fs : Filesystem F) (t : Filesystem DirFiles) (w : View) : Prop
    extends Paired A L base fs t w where
  others : ∀ k, fs.superblock.ValidInumber k → k ≠ 1 → fs.logicalInode k = T k
  same : w.freed = freed

/-- What the two iterations answer. -/
def NextPair (A : List UInt64) (L : FreeList) (base : Filesystem F) (T : UInt64 → Inode)
    (freed : ℕ → Block → Block) (wantInode : Bool) (a : IterNext) (fs : Filesystem F)
    (b : IterNext) (t : Filesystem DirFiles) : Prop :=
  match a, b with
  | .stop d, .stop d' => ∃ w φ, Browsing A L base T φ fs t w ∧ d = fs.logicalInode 1 ∧
      d' = w.table 1
  | .entry it j v, .entry it' j' v' => j = 0 ∧ j' = 0 ∧
      (Block.dirEntry it.cachedBlock 0).inumber ≠ 0 ∧ ∃ w, Browsing A L base T freed fs t w ∧
        Iterates base fs w it it' ∧ it.entry = 1 ∧
        (wantInode = true → v = T (Block.dirEntry it.cachedBlock 0).inumber ∧
          v' = w.table (Block.dirEntry it.cachedBlock 0).inumber)
  | _, _ => False

section Iteration

variable {base fs : Filesystem F} {t : Filesystem DirFiles} {A : List UInt64} {L : FreeList}
  {w : View} {T : UInt64 → Inode} {freed : ℕ → Block → Block} {it it' : DirIterator}
  {wantInode : Bool} {v u : Inode} {allocate : Fs DirFiles (Option Inode)}

/-- A step after which the pair shows the same. -/
theorem Browsing.next {fs' : Filesystem F} {t' : Filesystem DirFiles}
    (h : Browsing A L base T freed fs t w) (h' : Paired A L base fs' t' w)
    (hsame : ∀ j, 0 < j → fs'.logicalInode j = fs.logicalInode j) :
    Browsing A L base T freed fs' t' w := by
  refine ⟨h', fun k hk hk1 => ?_, h.same⟩
  have hvalid : fs.superblock.ValidInumber k :=
    h.mirrors.validInumber (h'.mirrors.valid hk)
  rw [hsame k hk.1]
  exact h.others k hvalid hk1

theorem Browsing.time (h : Browsing A L base T freed fs t w) :
    Run.Agree (time : Fs F UInt64) fs (time : Fs DirFiles UInt64) t fun _ fs' _ t' =>
      Browsing A L base T freed fs' t' w ∧ fs'.logicalInode = fs.logicalInode := by
  refine h.toPaired.time.mono ?_
  rintro now fs' now' t' ⟨h', hsame⟩
  exact ⟨h.next h' fun j _ => congrFun hsame j, hsame⟩

theorem Browsing.readInode (h : Browsing A L base T freed fs t w) {k : UInt64}
    (hk : fs.superblock.ValidInumber k) :
    Run.Agree (sfsFsReadInode k) fs (sfsFsReadInode k) t fun a fs' b t' =>
      a = some (fs.logicalInode k) ∧ b = some (w.table k) ∧ Browsing A L base T freed fs' t' w ∧
        ∀ j, 0 < j → fs'.logicalInode j = fs.logicalInode j := by
  refine (h.toPaired.readInode hk).mono ?_
  rintro a fs' b t' ⟨ha, hb, h', hsame⟩
  exact ⟨ha, hb, h.next h' hsame, hsame⟩

theorem Browsing.free (h : Browsing A L base T freed fs t w) (block : Block) :
    Run.Agree (free block : Fs F Block) fs (free block : Fs DirFiles Block) t fun a fs' b t' =>
      a = freed 0 block ∧ b = freed 0 block ∧
        Browsing A L base T (fun i => freed (i + 1)) fs' t' w.released ∧
        fs'.logicalInode = fs.logicalInode := by
  have hfree := h.toPaired.free block
  rw [h.same] at hfree
  refine hfree.mono ?_
  rintro a fs' b t' ⟨rfl, rfl, h', hsame⟩
  refine ⟨rfl, rfl, ⟨h', fun k hk hk1 => ?_, ?_⟩, hsame⟩
  · have hvalid : fs.superblock.ValidInumber k :=
      h.mirrors.validInumber (View.Valid.congr (h'.mirrors.valid hk) rfl)
    rw [hsame]
    exact h.others k hvalid hk1
  · rw [View.released, h.same]

/-- `end:` -/
theorem Browsing.iterEnd {X : DirIterator → Filesystem F → DirIterator → Filesystem DirFiles → Prop}
    (h : Browsing A L base T freed fs t w) (hinode : it.inode = fs.logicalInode 1)
    (hinode' : it'.inode = w.table 1) (hcached : it'.cachedBlock = it.cachedBlock) :
    Run.Agree (iterEnd it) fs (iterEnd it') t fun a fs' b t' =>
      Sum.LiftRel (X · fs' · t') (NextPair A L base T freed wantInode · fs' · t') a b := by
  rw [SimpleFileSystem.iterEnd, SimpleFileSystem.iterEnd, hcached]
  refine (h.free it.cachedBlock).bind ?_
  rintro a fs' b t' ⟨-, -, h', hsame⟩
  refine Run.agree_pure (Sum.LiftRel.inr ⟨w.released, _, h', ?_, hinode'⟩)
  rw [hsame]
  exact hinode

/-- The inode of the directory was written. -/
theorem Browsing.rewritten {fs' : Filesystem F} {t' : Filesystem DirFiles}
    (h : Browsing A L base T freed fs t w) (h' : Paired A L base fs' t' (w.setInode u))
    (hothers : ∀ j, 0 < j → j ≠ 1 → fs'.logicalInode j = fs.logicalInode j) :
    Browsing A L base T freed fs' t' (w.setInode u) := by
  refine ⟨h', fun k hk hk1 => ?_, h.same⟩
  have hk' : fs.superblock.ValidInumber k :=
    h.mirrors.validInumber (View.Valid.congr (h'.mirrors.valid hk) rfl)
  rw [hothers k hk.1 hk1]
  exact h.others k hk' hk1

/-- The access time of the directory is written. -/
theorem Browsing.touch (h : Browsing A L base T freed fs t w) (hv : v = fs.logicalInode 1)
    (hu : u = w.table 1) (now now' : UInt64) :
    Run.Agree (sfsFsWriteInode { v with accessTime := now }) fs
      (sfsFsWriteInode { u with accessTime := now' }) t fun a fs' b t' =>
        a = 0 ∧ b = 0 ∧ ∃ w', Browsing A L base T freed fs' t' w' ∧
          { v with accessTime := now } = fs'.logicalInode 1 ∧
          { u with accessTime := now' } = w'.table 1 := by
  have hvalid := h.mirrors.mem_valid h.mirrors.root
  have hown := h.mirrors.own 1 hvalid
  have hshadow := h.mirrors.table 1 hvalid
  rw [← hv] at hown
  rw [← hv, ← hu] at hshadow
  refine (h.writeRoot (v := { v with accessTime := now }) (u := { u with accessTime := now' })
    hown (by rw [← hv]) (by rw [← hv]) ⟨hshadow.inumber, hshadow.mode, hshadow.uid, hshadow.gid,
      hshadow.links, hshadow.size, hshadow.empty⟩).mono ?_
  rintro a fs' b t' ⟨ha, hb, hpaired, hset, hset', hothers⟩
  exact ⟨ha, hb, _, h.rewritten hpaired hothers, hset, hset'⟩

/-- **One iteration** of the outer loop of `sfs_dir_iternext`. -/
theorem Browsing.iternextStep (h : Browsing A L base T freed fs t w) (hdir : Entries A base)
    (hit : Iterates base fs w it it') :
    Run.Agree (iternextStep fsLayer wantInode it) fs
      (iternextStep (loggedLayer allocate) wantInode it') t fun a fs' b t' =>
        Sum.LiftRel (fun it it' => ∃ w', Browsing A L base T freed fs' t' w' ∧
          Iterates base fs' w' it it') (NextPair A L base T freed wantInode · fs' · t') a b := by
  have hvalid := h.mirrors.mem_valid h.mirrors.root
  obtain ⟨inode, iblock, entry, cached⟩ := it
  obtain ⟨inode', iblock', entry', cached'⟩ := it'
  obtain ⟨hinode, hinode', hiblock, hentry, hcached, hplace⟩ := hit
  dsimp only at hinode hinode' hiblock hentry hcached hplace
  subst hiblock hentry hcached
  have hsize : inode'.size = inode.size := by
    rw [hinode', hinode, (h.mirrors.table 1 hvalid).size]
  have hsize₀ : inode.size = (base.logicalInode 1).size := by
    rw [hinode, h.mirrors.still.size]
  rw [SimpleFileSystem.iternextStep, SimpleFileSystem.iternextStep]
  dsimp only
  refine Run.Agree.ite (by rw [hsize]) (fun _ => h.iterEnd hinode hinode' rfl) fun hin => ?_
  refine Run.Agree.ite Iff.rfl (fun hentry => ?_) fun hentry => ?_
  · have hread := h.blockRead allocate iblock' cached'
    rw [← hinode, ← hinode'] at hread
    refine hread.bind ?_
    rintro a fs₁ b t₁ ⟨hfs, ht, ⟨hi, rfl, rfl⟩ | ⟨-, rfl, rfl⟩⟩ <;> rw [hfs, ht]
    swap
    · rw [if_pos (by simp), if_pos (by simp)]
      exact h.iterEnd hinode hinode' rfl
    rw [if_neg (by simp), if_neg (by simp)]
    refine h.time.bind ?_
    rintro now fs₂ now' t₂ ⟨h₂, hsame₂⟩
    rw [← hsame₂] at hinode
    refine (h₂.touch hinode hinode' now now').bind ?_
    rintro ret fs₃ ret' t₃ ⟨rfl, rfl, w₃, h₃, hset, hset'⟩
    rw [if_neg (by simp), if_neg (by simp), hentry, show (0 : UInt64).toNat = 0 from rfl,
      findEntry_zero]
    have hloaded : ∀ it : DirIterator, it.iblock = iblock' →
        it.cachedBlock = base.fileBlock 1 iblock' → Loaded base it := fun it hblock hcached => by
      refine ⟨?_, by rw [hcached, hblock]⟩
      rw [hblock]
      refine hdir.lt_rootLength hi ?_
      rw [← hsize₀]
      exact hin
    by_cases hused : (Block.dirEntry (base.fileBlock 1 iblock') 0).inumber ≠ 0
    swap
    · rw [if_neg hused]
      exact Run.agree_pure (Sum.LiftRel.inl ⟨w₃, h₃, hset, hset', rfl, rfl, rfl, Or.inl rfl⟩)
    rw [if_pos hused]
    dsimp only
    have hiterates : Iterates base fs₃ w₃ ⟨{ inode with accessTime := now }, iblock',
        UInt64.ofNat (0 + 1), base.fileBlock 1 iblock'⟩
        ⟨{ inode' with accessTime := now' }, iblock', UInt64.ofNat (0 + 1),
          base.fileBlock 1 iblock'⟩ :=
      ⟨hset, hset', rfl, rfl, rfl, Or.inr ⟨rfl, hloaded _ rfl rfl⟩⟩
    have hslot : Block.dirEntry (base.fileBlock 1 iblock') 0 = base.rootSlot iblock'.toNat :=
      (hloaded _ hiterates.iblock hiterates.cached).entry
    refine Run.Agree.ite Iff.rfl (fun hwant => ?_) fun hwant => ?_
    · obtain ⟨hmem, hne⟩ := hdir.named _ (hloaded _ hiterates.iblock hiterates.cached).lt
        (hslot ▸ hused)
      rw [← hslot] at hmem hne
      refine (h₃.readInode (h₃.mirrors.mem_valid hmem)).bind ?_
      rintro a fs₄ b t₄ ⟨rfl, rfl, h₄, hsame₄⟩
      have hset₄ := hset.trans (hsame₄ 1 (h₃.mirrors.mem_valid h₃.mirrors.root).1).symm
      exact Run.agree_pure (Sum.LiftRel.inr ⟨rfl, rfl, hused, w₃, h₄,
        ⟨hset₄, hset', rfl, rfl, rfl, hiterates.place⟩, rfl,
        fun _ => ⟨h₃.others _ (h₃.mirrors.mem_valid hmem) hne, rfl⟩⟩)
    · exact Run.agree_pure (Sum.LiftRel.inr ⟨rfl, rfl, hused, w₃, h₃, hiterates, rfl,
        fun hyes => absurd hyes hwant⟩)
  · obtain hplace | ⟨hplace, -⟩ := hplace
    · exact absurd hplace hentry
    rw [hplace, show (1 : UInt64).toNat = 1 from rfl, findEntry_one]
    exact Run.agree_pure (Sum.LiftRel.inl ⟨w, h, hinode, hinode', rfl, rfl, rfl, Or.inl rfl⟩)

variable (allocate) in
/-- **`sfs_dir_iternext`** -/
theorem Browsing.iternext (h : Browsing A L base T freed fs t w) (hdir : Entries A base)
    (hit : Iterates base fs w it it') :
    Run.Agree (sfsDirIternext fsLayer wantInode it) fs
      (sfsDirIternext (loggedLayer allocate) wantInode it') t
      (NextPair A L base T freed wantInode) :=
  Run.Agree.loop (I := fun it fs it' t => ∃ w, Browsing A L base T freed fs t w ∧
      Iterates base fs w it it')
    (fun _ _ _ _ ⟨_, h, hit⟩ => h.iternextStep hdir hit) loopBound ⟨w, h, hit⟩

/-- What the two searches answer. -/
def SearchPair (A : List UInt64) (L : FreeList) (base : Filesystem F) (T : UInt64 → Inode)
    (freed : ℕ → Block → Block) (name : CString) (a : Search) (fs : Filesystem F) (b : Search)
    (t : Filesystem DirFiles) : Prop :=
  match a, b with
  | .stop d, .stop d' => ∃ w φ, Browsing A L base T φ fs t w ∧ d = fs.logicalInode 1 ∧
      d' = w.table 1
  | .found it j, .found it' j' => j = 0 ∧ j' = 0 ∧
      (Block.dirEntry it.cachedBlock 0).inumber ≠ 0 ∧
      strncmp256 (Block.dirEntry it.cachedBlock 0).name name = true ∧
      ∃ w, Browsing A L base T freed fs t w ∧ Iterates base fs w it it' ∧ Loaded base it
  | _, _ => False

/-- **The search for a name** -/
theorem Browsing.search (h : Browsing A L base T freed fs t w) (hdir : Entries A base)
    (hit : Iterates base fs w it it') (name : CString) :
    Run.Agree (search fsLayer name it) fs (search (loggedLayer allocate) name it') t
      (SearchPair A L base T freed name) := by
  refine Run.Agree.loop (I := fun it fs it' t => ∃ w, Browsing A L base T freed fs t w ∧
    Iterates base fs w it it') ?_ loopBound ⟨w, h, hit⟩
  rintro it fs it' t ⟨w, h, hit⟩
  rw [searchStep, searchStep]
  refine (h.iternext allocate hdir hit).bind ?_
  intro a fs' b t' hnext
  cases a with
  | stop d =>
    cases b with
    | stop d' => exact Run.agree_pure (Sum.LiftRel.inr hnext)
    | entry it' j' v' => exact hnext.elim
  | entry it j v =>
    cases b with
    | stop d' => exact hnext.elim
    | entry it' j' v' =>
      obtain ⟨rfl, rfl, hused, w', h', hit', hentry, -⟩ := hnext
      dsimp only
      rw [hit'.cached]
      refine Run.Agree.ite Iff.rfl (fun hname => ?_) fun _ => ?_
      · obtain hzero | ⟨-, hloaded⟩ := hit'.place
        · rw [hentry] at hzero
          exact absurd hzero (by decide)
        · exact Run.agree_pure (Sum.LiftRel.inr ⟨rfl, rfl, hused, hname, w', h', hit', hloaded⟩)
      · exact Run.agree_pure (Sum.LiftRel.inl ⟨w', h', hit'⟩)

end Iteration

end SimpleFileSystem
