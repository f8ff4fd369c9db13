import SimpleFileSystem.MirrorCalls

/-!
# Entries, side by side

What the requests do once they have found their entry, or have not found it: a link is given
or taken, a slot is emptied, a file is made and linked.  `Follows` is what each of them
leaves.  The one condition is on a new entry, for which the array always has room and the
disk may not (`Filesystem.TakesEntry`).
-/

namespace SimpleFileSystem

variable {F : Type}

/-! ## Links of files -/

section Links

variable {base fs : Filesystem F} {t : Filesystem DirFiles} {A : List UInt64} {L : FreeList}
  {w : View} {v u : Inode} {k : UInt64}

/-- **A file has the contents that it had.** -/
structure SameFile (fs fs' : Filesystem F) (k : UInt64) : Prop where
  size : (fs'.logicalInode k).size = (fs.logicalInode k).size
  block : ∀ i, fs'.fileBlock k i = fs.fileBlock k i

theorem SameFile.refl (fs : Filesystem F) (k : UInt64) : SameFile fs fs k :=
  ⟨rfl, fun _ => rfl⟩

theorem SameFile.trans {fs fs' fs'' : Filesystem F} {k : UInt64} (h : SameFile fs fs' k)
    (h' : SameFile fs' fs'' k) : SameFile fs fs'' k :=
  ⟨h'.size.trans h.size, fun i => (h'.block i).trans (h.block i)⟩

/-- The files other than the root directory have the contents that they had in `base`. -/
theorem Browsing.sameFile {freed : ℕ → Block → Block}
    (h : Browsing A L base base.logicalInode freed fs t w) (hk : k ∈ A) (h1 : k ≠ 1) :
    SameFile base fs k := by
  obtain ⟨nodes, himage⟩ := h.mirrors.shelved.image
  refine ⟨?_, h.mirrors.still.fileBlock himage hk⟩
  rw [h.others k (h.mirrors.mem_valid hk) h1]

/-- With the blocks as they are now. -/
theorem Paired.rebase (h : Paired A L base fs t w) : Paired A L fs fs t w :=
  ⟨h.mirrors.rebase, h.shows⟩

/-- What a step leaves that takes a link from a file. -/
structure Loosed (A : List UInt64) (fs : Filesystem F) (w : View) (A' : List UInt64)
    (fs' : Filesystem F) (w' : View) : Prop where
  directory : fs'.logicalInode 1 = fs.logicalInode 1
  directory' : w'.table 1 = w.table 1
  blocks : ∀ i, fs'.fileBlock 1 i = fs.fileBlock 1 i
  files : ∀ k ∈ A', k ≠ 1 → k ∈ A ∧ SameFile fs fs' k

/-- **A file without links is given up.** -/
theorem Paired.deallocate (h : Paired A L base fs t w) (allocate : Fs DirFiles (Option Inode))
    (hv : fs.Current A v) (h1 : v.inumber ≠ 1) (hlinks : v.links = 0) (hu : v.Shadow u) :
    Run.Agree ((fsLayer : InodeLayer F).deallocate v) fs ((loggedLayer allocate).deallocate u) t
      fun a fs' b t' => a = 0 ∧ b = 0 ∧ ∃ A' L' w', Paired A' L' fs' fs' t' w' ∧
        Loosed A fs w A' fs' w' := by
  have hvalid := h.mirrors.mem_valid hv.mem
  have hvalid' : w.Valid u.inumber := by
    rw [hu.inumber]
    exact h.mirrors.valid hvalid
  refine (h.mirrors.deallocate hv h1 hlinks hu).agree
    (h.shows.deallocate_ensures allocate hvalid' hu.direct) ?_
  rintro ret fs' ret' t' ⟨rfl, hmirrors, -, hothers, hblocks⟩ ⟨rfl, hshows⟩
  have hroot := h.mirrors.mem_valid h.mirrors.root
  refine ⟨rfl, rfl, _, _, _, ⟨hmirrors, hshows⟩, hothers 1 hroot (Ne.symm h1), ?_,
    hblocks 1 h.mirrors.root (Ne.symm h1), fun k hk hk1 => ?_⟩
  · show Function.update w.table u.inumber { u with size := w.head } 1 = w.table 1
    rw [Function.update_of_ne (by rw [hu.inumber]; exact Ne.symm h1)]
  · obtain ⟨nodes, himage⟩ := h.mirrors.shelved.image
    obtain ⟨hne, hmem⟩ := himage.files.mem_erase_iff.mp hk
    exact ⟨hmem, by rw [hothers k (h.mirrors.mem_valid hmem) hne], hblocks k hmem hne⟩

/-- **A file is written** with another count of links. -/
theorem Paired.relink (h : Paired A L base fs t w) (hv : fs.Current A v) (h1 : v.inumber ≠ 1)
    (hsize : v.size = (fs.logicalInode v.inumber).size) (hu : v.Shadow u) :
    Run.Agree (sfsFsWriteInode v) fs (sfsFsWriteInode u) t
      fun a fs' b t' => a = 0 ∧ b = 0 ∧ ∃ A' L' w', Paired A' L' fs' fs' t' w' ∧
        Loosed A fs w A' fs' w' := by
  refine (h.writeInode_moved hv hu).mono ?_
  rintro ret fs' ret' t' ⟨rfl, rfl, h', hset, hothers, hblocks⟩
  have hroot := h.mirrors.mem_valid h.mirrors.root
  refine ⟨rfl, rfl, _, _, _, h', hothers 1 hroot.1 (Ne.symm h1),
    View.setInode_table_of_ne (by rw [hu.inumber]; exact Ne.symm h1), hblocks 1 h.mirrors.root,
    fun k hk hk1 => ⟨hk, ?_, hblocks k hk⟩⟩
  by_cases hkv : k = v.inumber
  · rw [hkv, hset, hsize]
  · rw [hothers k (h.mirrors.mem_valid hk).1 hkv]

/-- A file without contents. -/
structure EmptyFile (fs : Filesystem F) (k : UInt64) : Prop where
  size : (fs.logicalInode k).size = 0
  block : ∀ i, fs.fileBlock k i = Block.zero

/-- **What a request leaves**: the disk still mirrors the array, the files that there were have
the contents that they had in `base`, and a new one has none. -/
def Follows (A : List UInt64) (base fs : Filesystem F) (t : Filesystem DirFiles) : Prop :=
  ∃ A' L' w, Paired A' L' fs fs t w ∧
    ∀ k ∈ A', k ≠ 1 → k ∈ A ∧ SameFile base fs k ∨ k ∉ A ∧ EmptyFile fs k

theorem Browsing.follows {freed : ℕ → Block → Block}
    (h : Browsing A L base base.logicalInode freed fs t w) : Follows A base fs t :=
  ⟨A, L, w, h.rebase, fun _ hk h1 => Or.inl ⟨hk, h.sameFile hk h1⟩⟩

/-- A link of a file was taken or given. -/
theorem Browsing.follows_of_loosed {freed : ℕ → Block → Block} {fs' : Filesystem F}
    {t' : Filesystem DirFiles} {A' : List UInt64} {L' : FreeList} {w' : View}
    (h : Browsing A L base base.logicalInode freed fs t w) (h' : Paired A' L' fs' fs' t' w')
    (hloosed : Loosed A fs w A' fs' w') : Follows A base fs' t' := by
  refine ⟨A', L', w', h', fun k hk h1 => Or.inl ?_⟩
  obtain ⟨hmem, hsame⟩ := hloosed.files k hk h1
  exact ⟨hmem, (h.sameFile hmem h1).trans hsame⟩

/-- The link count of a file goes up. -/
theorem Browsing.addLink {freed : ℕ → Block → Block}
    (h : Browsing A L base base.logicalInode freed fs t w) (hk : k ∈ A) (h1 : k ≠ 1) :
    Run.Agree (addLink k) fs (addLink k) t fun a fs' b t' => ∃ v u, a = some v ∧ b = some u ∧
      v.inumber = k ∧ u.inumber = k ∧ Follows A base fs' t' := by
  have hvalid := h.mirrors.mem_valid hk
  rw [SimpleFileSystem.addLink, SimpleFileSystem.addLink]
  refine (h.readInode hvalid).bind ?_
  rintro a fs₁ b t₁ ⟨rfl, rfl, h₁, hsame₁⟩
  dsimp only
  have hown := h.mirrors.own k hvalid
  have hshadow := h.mirrors.table k hvalid
  have hstored := hsame₁ k hvalid.1
  generalize fs.logicalInode k = v at hown hshadow hstored
  generalize w.table k = u at hshadow
  refine h₁.time.bind ?_
  rintro now fs₂ now' t₂ ⟨h₂, hsame₂⟩
  rw [← hsame₂] at hstored
  obtain ⟨v', hv'⟩ : ∃ v', v' = { v with links := v.links + 1, changeTime := now } := ⟨_, rfl⟩
  obtain ⟨u', hu'⟩ : ∃ u', u' = { u with links := u.links + 1, changeTime := now' } := ⟨_, rfl⟩
  rw [← hv', ← hu']
  have hnumber : v'.inumber = k := by
    rw [hv']
    exact hown
  have hcurrent : fs₂.Current A v' := by
    refine ⟨by rw [hnumber]; exact hk, ?_⟩
    rw [hnumber, hstored, hv']
  have hshadow' : v'.Shadow u' := by
    rw [hv', hu']
    exact ⟨hshadow.inumber, hshadow.mode, hshadow.uid, hshadow.gid, by rw [hshadow.links],
      hshadow.size, hshadow.empty⟩
  refine (h₂.relink hcurrent (by rw [hnumber]; exact h1) (by rw [hnumber, hstored, hv'])
    hshadow').bind ?_
  rintro ret fs₃ ret' t₃ ⟨rfl, rfl, A', L', w', h₃, hloosed⟩
  rw [if_neg (by simp), if_neg (by simp)]
  exact Run.agree_pure ⟨v', u', rfl, rfl, hnumber, hshadow'.inumber.trans hnumber,
    h₂.follows_of_loosed h₃ hloosed⟩

/-- A block that a file does not have reads as zeros. -/
theorem fileBlock_of_resolve_zero {i : UInt64}
    (h : fs.disk.resolve (fs.logicalInode k) i = some 0) : fs.fileBlock k i = Block.zero := by
  rw [Filesystem.fileBlock, h]
  rfl

/-- **The block of an entry that is in use** is there, so a write to it is not refused. -/
theorem not_refuses_of_used (fs : Filesystem F) (nodes : List UInt64) {i : UInt64}
    (hi : i < sfsNdirBlocks + sfsNindBlocks)
    (hused : (Block.dirEntry (fs.fileBlock 1 i) 0).inumber ≠ 0) :
    ¬ fs.Refuses nodes (fs.logicalInode 1) i ∧ fs.BlankIndex (fs.logicalInode 1) i := by
  obtain ⟨x, hx⟩ : ∃ x, fs.disk.resolve (fs.logicalInode 1) i = some x := by
    rw [Disk.resolve, if_pos hi]
    split
    · exact ⟨_, rfl⟩
    · exact ⟨_, rfl⟩
  have h0 : x ≠ 0 := by
    rintro rfl
    rw [fileBlock_of_resolve_zero hx] at hused
    exact hused rfl
  refine ⟨fun hrefuses => h0 ((refuses_iff hx).mp hrefuses).1, fun hnew => ?_⟩
  obtain ⟨h12, -, hpointer⟩ := hnew
  rw [Disk.resolve, if_neg (UInt64.not_lt.mpr h12), if_pos hi, Disk.entry, if_pos hpointer] at hx
  exact absurd (Option.some.inj hx).symm h0

/-- **`sfs_dir_iter_unlink`** of an entry that is in use. -/
theorem Browsing.iterUnlink {freed : ℕ → Block → Block} {it it' : DirIterator}
    (h : Browsing A L base base.logicalInode freed fs t w)
    (allocate : Fs DirFiles (Option Inode)) (hdir : Entries A base)
    (hit : Iterates base fs w it it') (hloaded : Loaded base it)
    (hused : (Block.dirEntry it.cachedBlock 0).inumber ≠ 0) :
    Run.Agree (sfsDirIterUnlink fsLayer it 0) fs (sfsDirIterUnlink (loggedLayer allocate) it' 0) t
      fun a fs' b t' => b.1 = a.1 ∧ b.2.cachedBlock = a.2.cachedBlock ∧ Follows A base fs' t' := by
  have hentry := hloaded.entry
  obtain ⟨hk, h1⟩ := hdir.named _ hloaded.lt (hentry ▸ hused)
  rw [← hentry] at hk h1
  have hvalid := h.mirrors.mem_valid hk
  rw [sfsDirIterUnlink, sfsDirIterUnlink, hit.cached]
  refine (h.readInode hvalid).bind ?_
  rintro a fs₁ b t₁ ⟨rfl, rfl, h₁, hsame₁⟩
  have hown := h.mirrors.own _ hvalid
  have hshadow := h.mirrors.table _ hvalid
  have hstored := hsame₁ _ hvalid.1
  generalize fs.logicalInode (Block.dirEntry it.cachedBlock 0).inumber = v at hown hshadow hstored
  generalize w.table (Block.dirEntry it.cachedBlock 0).inumber = u at hshadow
  refine h₁.time.bind ?_
  rintro now fs₂ now' t₂ ⟨h₂, hsame₂⟩
  rw [← hsame₂] at hstored
  dsimp -zeta only
  extract_lets inode directory rest inode' directory' rest'
  have hi : it.iblock < sfsNdirBlocks + sfsNindBlocks :=
    mapped_iff.mpr (Nat.lt_of_lt_of_le hloaded.lt hdir.mapped)
  have hroot := h.mirrors.mem_valid h.mirrors.root
  have hdirectory : directory = fs₂.logicalInode 1 := by
    rw [hsame₂, hsame₁ 1 hroot.1]
    exact hit.inode
  have hdirectory' : directory' = w.table 1 := hit.inode'
  have hblock : Block.dirEntry (fs₂.fileBlock 1 it.iblock) 0 = Block.dirEntry it.cachedBlock 0 := by
    obtain ⟨nodes, himage⟩ := h₂.mirrors.shelved.image
    rw [h₂.mirrors.still.fileBlock himage h₂.mirrors.root, hloaded.block]
  -- what follows the removal of the link
  have hrest : ∀ fs₃ t₃ A' L' w₃, Paired A' L' fs₃ fs₃ t₃ w₃ → Loosed A fs₂ w A' fs₃ w₃ →
      Run.Agree (rest ()) fs₃ (rest' ()) t₃ fun a fs' b t' =>
        b.1 = a.1 ∧ b.2.cachedBlock = a.2.cachedBlock ∧ Follows A base fs' t' := by
    intro fs₃ t₃ A' L' w₃ h₃ hloosed
    clear_value directory directory'
    rw [← hloosed.directory] at hdirectory
    rw [← hloosed.directory'] at hdirectory'
    have hshadow := h₃.mirrors.table 1 (h₃.mirrors.mem_valid h₃.mirrors.root)
    have hown := h₃.mirrors.own 1 (h₃.mirrors.mem_valid h₃.mirrors.root)
    rw [← hdirectory, ← hdirectory'] at hshadow
    rw [← hdirectory] at hown
    refine h₃.time.bind ?_
    rintro later fs₄ later' t₄ ⟨h₄, hsame₄⟩
    rw [← hsame₄] at hdirectory
    dsimp only
    refine (h₄.writeRoot (v := { directory with modifiedTime := later })
      (u := { directory' with modifiedTime := later' }) hown (by rw [← hdirectory])
      (by rw [← hdirectory]) ⟨hshadow.inumber, hshadow.mode, hshadow.uid, hshadow.gid,
        hshadow.links, hshadow.size, hshadow.empty⟩).bind ?_
    rintro ret fs₅ ret' t₅ ⟨rfl, rfl, h₅, hset, hset', hothers⟩
    rw [if_neg (by simp), if_neg (by simp)]
    obtain ⟨nodes, himage⟩ := h₅.mirrors.shelved.image
    have hkept : ∀ j ∈ A', ∀ i, fs₅.fileBlock j i = fs₃.fileBlock j i := fun j hj i =>
      h₅.mirrors.still.fileBlock himage hj i
    obtain ⟨hgoes, hblank⟩ := not_refuses_of_used fs₅ nodes hi (by
      rw [hkept 1 h₅.mirrors.root, hloosed.blocks, hblock]
      exact hused)
    rw [hit.iblock]
    refine (h₅.blockWrite allocate himage hset hset' hgoes hblank _).bind ?_
    rintro a fs₆ b t₆ ⟨rfl, rfl, h₆, -, hfiles⟩
    refine Run.agree_pure ⟨rfl, rfl, A', L', _, h₆, fun j hj hj1 => Or.inl ?_⟩
    obtain ⟨hmem, hsame⟩ := hloosed.files j hj hj1
    obtain ⟨hinode, hblocks⟩ := hfiles j hj hj1
    have hvalid := (h₃.mirrors.mem_valid hj).1
    refine ⟨hmem, (h₂.sameFile hmem hj1).trans (hsame.trans ⟨?_, fun i => ?_⟩)⟩
    · rw [hinode, hothers j hvalid hj1, hsame₄]
    · rw [hblocks, hkept j hj]
  have hcurrent : fs₂.Current A inode :=
    ⟨show v.inumber ∈ A by rw [hown]; exact hk, by
      show v.blockPointers = (fs₂.logicalInode v.inumber).blockPointers
      rw [hown, hstored]⟩
  have hnumber : inode.inumber ≠ 1 := fun e => h1 (hown.symm.trans e)
  have hsize : inode.size = (fs₂.logicalInode inode.inumber).size := by
    show v.size = (fs₂.logicalInode v.inumber).size
    rw [hown, hstored]
  have hshadow' : inode.Shadow inode' :=
    ⟨hshadow.inumber, hshadow.mode, hshadow.uid, hshadow.gid,
      congrArg (· - 1) hshadow.links, hshadow.size, hshadow.empty⟩
  refine Run.Agree.ite (by rw [hshadow'.links]) (fun hlinks => ?_) fun _ => ?_
  · refine (h₂.deallocate allocate hcurrent hnumber hlinks hshadow').bind ?_
    rintro ret fs₃ ret' t₃ ⟨rfl, rfl, A', L', w₃, h₃, hloosed⟩
    rw [if_neg (by simp), if_neg (by simp)]
    exact hrest fs₃ t₃ A' L' w₃ h₃ hloosed
  · refine (h₂.relink hcurrent hnumber hsize hshadow').bind ?_
    rintro ret fs₃ ret' t₃ ⟨rfl, rfl, A', L', w₃, h₃, hloosed⟩
    rw [if_neg (by simp), if_neg (by simp)]
    exact hrest fs₃ t₃ A' L' w₃ h₃ hloosed

end Links

/-! ## A new entry -/

section Link

variable {base fs : Filesystem F} {t : Filesystem DirFiles} {A : List UInt64} {L : FreeList}
  {w : View} {v u : Inode} {i k : UInt64} {name : CString}

/-- **The root directory takes one more entry**, unless it is full. -/
def Filesystem.TakesEntry (fs : Filesystem F) : Prop :=
  fs.rootPlace < mappedBlocks →
    (∀ nodes, Linked 0 fs.disk.nextNode fs.superblock.freeBlocksHead nodes →
      ¬ fs.RefusesEntry nodes) ∧
      fs.BlankIndex (fs.logicalInode 1) (UInt64.ofNat fs.rootPlace)

/-- What `sfs_dir_link` leaves. -/
def LinkPair (A : List UInt64) (L : FreeList) (fs : Filesystem F) (a : ℤ × Inode × Inode)
    (fs' : Filesystem F) (b : ℤ × Inode × Inode) (t' : Filesystem DirFiles) : Prop :=
  b.1 = a.1 ∧ ∃ w', Paired A L fs' fs' t' w' ∧ ∀ j ∈ A, j ≠ 1 → SameFile fs fs' j

/-- A new link of a file is written. -/
theorem Paired.addLinked (h : Paired A L base fs t w) (hv : fs.logicalInode v.inumber = v)
    (hk : v.inumber ∈ A) (hu : v.Shadow u) (now now' : UInt64) :
    Run.Agree (sfsFsWriteInode { v with links := v.links + 1, changeTime := now }) fs
      (sfsFsWriteInode { u with links := u.links + 1, changeTime := now' }) t fun a fs' b t' =>
        a = 0 ∧ b = 0 ∧ ∃ w', Paired A L fs' fs' t' w' ∧ ∀ j ∈ A, SameFile fs fs' j := by
  have hcurrent : fs.Current A { v with links := v.links + 1, changeTime := now } := by
    refine ⟨hk, ?_⟩
    show v.blockPointers = (fs.logicalInode v.inumber).blockPointers
    rw [hv]
  refine (h.writeInode_moved (u := { u with links := u.links + 1, changeTime := now' }) hcurrent
    ⟨hu.inumber, hu.mode, hu.uid, hu.gid, congrArg (· + 1) hu.links, hu.size, hu.empty⟩).mono ?_
  rintro a fs' b t' ⟨ha, hb, h', hset, hothers, hblocks⟩
  refine ⟨ha, hb, _, h', fun j hj => ⟨?_, hblocks j hj⟩⟩
  by_cases hjv : j = v.inumber
  · have hsize := congrArg Inode.size hset
    rw [hjv, hv]
    exact hsize
  · rw [hothers j (h.mirrors.mem_valid hj).1 hjv]

/-- **The step that finds a slot** writes the entry there. -/
theorem Paired.dirLinkStep_reuse (h : Paired A L fs fs t w)
    (allocate : Fs DirFiles (Option Inode)) {nodes : List UInt64} (himage : Image fs nodes A [])
    (hi : i < sfsNdirBlocks + sfsNindBlocks) (hlt : i < (fs.logicalInode 1).size / 512)
    (hunused : (Block.dirEntry (fs.fileBlock 1 i) 0).inumber = 0)
    (hgoes : ¬ fs.Refuses nodes (fs.logicalInode 1) i)
    (hblank : fs.BlankIndex (fs.logicalInode 1) i)
    (hv : fs.logicalInode v.inumber = v) (hk : v.inumber ∈ A) (h1 : v.inumber ≠ 1)
    (hu : v.Shadow u) :
    Run.Agree (dirLinkStep fsLayer name v (fs.logicalInode 1) i) fs
      (dirLinkStep (loggedLayer allocate) name u (w.table 1) i) t
      fun a fs' b t' => ∃ r r', a = .inr r ∧ b = .inr r' ∧ LinkPair A L fs r fs' r' t' := by
  have hroot := h.mirrors.mem_valid h.mirrors.root
  have hshadow := h.mirrors.table 1 hroot
  have hown := h.mirrors.own 1 hroot
  have hsize : (w.table 1).size = (fs.logicalInode 1).size := hshadow.size
  have hread := h.blockRead allocate i Block.zero
  obtain ⟨d, hd⟩ : ∃ d, d = fs.logicalInode 1 := ⟨_, rfl⟩
  obtain ⟨d', hd'⟩ : ∃ d', d' = w.table 1 := ⟨_, rfl⟩
  rw [← hd, ← hd'] at hshadow hread hsize
  rw [← hd] at hown hlt
  have hentry : (⟨u.inumber, strncpy256 name⟩ : DirEntry) = ⟨v.inumber, strncpy256 name⟩ := by
    rw [hu.inumber]
  rw [← hd, ← hd', dirLinkStep, dirLinkStep, hentry, if_pos hlt,
    if_pos (by rw [hsize]; exact hlt)]
  refine hread.bind ?_
  rintro a fs₁ b t₁ ⟨hfs, ht, ⟨-, rfl, rfl⟩ | ⟨hpast, -⟩⟩ <;> rw [hfs, ht]
  swap
  · exact absurd hi hpast
  dsimp only
  rw [if_neg (by simp), if_neg (by simp), findUnused_eq, if_pos hunused]
  refine (h.blockWrite allocate himage hd hd' hgoes hblank _).bind ?_
  rintro a fs₂ b t₂ ⟨rfl, rfl, h₂, hsize₂, hfiles₂⟩
  dsimp only
  rw [if_neg (by simp), if_neg (by simp)]
  have hshadow₂ := h₂.mirrors.table 1 (h₂.mirrors.mem_valid h₂.mirrors.root)
  have hown₂ := h₂.mirrors.own 1 (h₂.mirrors.mem_valid h₂.mirrors.root)
  rw [show (w.setBlock 1 i _).table 1 = d' from hd'.symm] at hshadow₂
  obtain ⟨r, hr⟩ : ∃ r, r = fs₂.logicalInode 1 := ⟨_, rfl⟩
  rw [← hr] at hown₂ hshadow₂
  rw [← hr]
  refine h₂.time.bind ?_
  rintro now fs₃ now' t₃ ⟨h₃, hsame₃⟩
  rw [← hsame₃] at hr
  refine (h₃.writeRoot (v := { r with modifiedTime := now })
    (u := { d' with modifiedTime := now' }) hown₂ (by rw [← hr]) (by rw [← hr])
    ⟨hshadow₂.inumber, hshadow₂.mode, hshadow₂.uid, hshadow₂.gid, hshadow₂.links, hshadow₂.size,
      hshadow₂.empty⟩).bind ?_
  rintro ret fs₄ ret' t₄ ⟨rfl, rfl, h₄, -, -, hothers₄⟩
  rw [if_neg (by simp), if_neg (by simp)]
  have hstored : fs₄.logicalInode v.inumber = v := by
    rw [hothers₄ _ (h.mirrors.mem_valid hk).1 h1, hsame₃, (hfiles₂ _ hk h1).1, hv]
  refine (h₄.addLinked hstored hk hu now now').bind ?_
  rintro ret fs₅ ret' t₅ ⟨rfl, rfl, w₅, h₅, hsame₅⟩
  rw [if_neg (by simp), if_neg (by simp)]
  refine Run.agree_pure ⟨_, _, rfl, rfl, rfl, w₅, h₅, fun j hj hj1 =>
    SameFile.trans ?_ (hsame₅ j hj)⟩
  obtain ⟨nodes₄, himage₄⟩ := h₄.mirrors.shelved.image
  obtain ⟨hinode, hblocks⟩ := hfiles₂ j hj hj1
  refine ⟨?_, fun i => ?_⟩
  · rw [hothers₄ j (h.mirrors.mem_valid hj).1 hj1, hsame₃, hinode]
  · rw [h₄.mirrors.still.fileBlock himage₄ hj, hblocks]

/-- **The step after the last slot** adds one more, with the entry. -/
theorem Paired.dirLinkStep_grow (h : Paired A L fs fs t w)
    (allocate : Fs DirFiles (Option Inode)) {nodes : List UInt64} (himage : Image fs nodes A [])
    (hend : ¬ i < (fs.logicalInode 1).size / 512)
    (hgoes : ¬ fs.Refuses nodes (fs.logicalInode 1) ((fs.logicalInode 1).size / 512))
    (hblank : fs.BlankIndex (fs.logicalInode 1) ((fs.logicalInode 1).size / 512))
    (hv : fs.logicalInode v.inumber = v) (hk : v.inumber ∈ A) (h1 : v.inumber ≠ 1)
    (hu : v.Shadow u) :
    Run.Agree (dirLinkStep fsLayer name v (fs.logicalInode 1) i) fs
      (dirLinkStep (loggedLayer allocate) name u (w.table 1) i) t
      fun a fs' b t' => ∃ r r', a = .inr r ∧ b = .inr r' ∧ LinkPair A L fs r fs' r' t' := by
  have hsize : (w.table 1).size / 512 = (fs.logicalInode 1).size / 512 := by
    rw [(h.mirrors.table 1 (h.mirrors.mem_valid h.mirrors.root)).size]
  obtain ⟨d, hd⟩ : ∃ d, d = fs.logicalInode 1 := ⟨_, rfl⟩
  obtain ⟨d', hd'⟩ : ∃ d', d' = w.table 1 := ⟨_, rfl⟩
  have hentry : (⟨u.inumber, strncpy256 name⟩ : DirEntry) = ⟨v.inumber, strncpy256 name⟩ := by
    rw [hu.inumber]
  rw [← hd, ← hd'] at hsize
  rw [← hd] at hend
  rw [← hd, ← hd', dirLinkStep, dirLinkStep, hentry, hsize, if_neg hend, if_neg hend, hd]
  refine (h.blockWrite allocate himage rfl hd' hgoes hblank _).bind ?_
  rintro a fs₂ b t₂ ⟨rfl, rfl, h₂, hsize₂, hfiles₂⟩
  dsimp only
  rw [if_neg (by simp), if_neg (by simp)]
  have hshadow₂ := h₂.mirrors.table 1 (h₂.mirrors.mem_valid h₂.mirrors.root)
  have hown₂ := h₂.mirrors.own 1 (h₂.mirrors.mem_valid h₂.mirrors.root)
  rw [show (w.setBlock 1 _ _).table 1 = d' from hd'.symm] at hshadow₂
  obtain ⟨r, hr⟩ : ∃ r, r = fs₂.logicalInode 1 := ⟨_, rfl⟩
  rw [← hr] at hown₂ hshadow₂
  rw [← hr]
  refine h₂.time.bind ?_
  rintro now fs₃ now' t₃ ⟨h₃, hsame₃⟩
  rw [← hsame₃] at hr
  have hcurrent : fs₃.Current A { r with size := r.size + 512, modifiedTime := now } := by
    refine ⟨?_, ?_⟩
    · show r.inumber ∈ A
      rw [hown₂]
      exact h.mirrors.root
    · show r.blockPointers = (fs₃.logicalInode r.inumber).blockPointers
      rw [hown₂, ← hr]
  refine (h₃.writeInode_moved (u := { d' with size := d'.size + 512, modifiedTime := now' })
    hcurrent ⟨hshadow₂.inumber, hshadow₂.mode, hshadow₂.uid, hshadow₂.gid, hshadow₂.links,
      congrArg (· + 512) hshadow₂.size, hshadow₂.empty⟩).bind ?_
  rintro ret fs₄ ret' t₄ ⟨rfl, rfl, h₄, -, hothers₄, hblocks₄⟩
  rw [show Inode.inumber { r with size := r.size + 512, modifiedTime := now } = 1 from hown₂]
    at hothers₄
  rw [if_neg (by simp), if_neg (by simp)]
  refine h₄.time.bind ?_
  rintro later fs₅ later' t₅ ⟨h₅, hsame₅⟩
  have hstored : fs₅.logicalInode v.inumber = v := by
    rw [hsame₅, hothers₄ _ (h.mirrors.mem_valid hk).1 h1, hsame₃, (hfiles₂ _ hk h1).1, hv]
  refine (h₅.addLinked hstored hk hu later later').bind ?_
  rintro ret fs₆ ret' t₆ ⟨rfl, rfl, w₆, h₆, hsame₆⟩
  rw [if_neg (by simp), if_neg (by simp)]
  refine Run.agree_pure ⟨_, _, rfl, rfl, rfl, w₆, h₆, fun j hj hj1 =>
    SameFile.trans ?_ (hsame₆ j hj)⟩
  obtain ⟨nodes₃, himage₃⟩ := h₃.mirrors.shelved.image
  obtain ⟨nodes₅, himage₅⟩ := h₅.mirrors.shelved.image
  obtain ⟨hinode, hblocks⟩ := hfiles₂ j hj hj1
  refine ⟨?_, fun i => ?_⟩
  · rw [hsame₅, hothers₄ j (h.mirrors.mem_valid hj).1 hj1, hsame₃, hinode]
  · rw [h₅.mirrors.still.fileBlock himage₅ hj, hblocks₄ j hj,
      h₃.mirrors.still.fileBlock himage₃ hj, hblocks]

/-- A slot in use is passed over. -/
theorem Paired.dirLinkStep_used (h : Paired A L fs fs t w) (allocate : Fs DirFiles (Option Inode))
    (hi : i < sfsNdirBlocks + sfsNindBlocks) (hlt : i < (fs.logicalInode 1).size / 512)
    (hused : (Block.dirEntry (fs.fileBlock 1 i) 0).inumber ≠ 0) :
    Run.Agree (dirLinkStep fsLayer name v (fs.logicalInode 1) i) fs
      (dirLinkStep (loggedLayer allocate) name u (w.table 1) i) t
      fun a fs' b t' => fs' = fs ∧ t' = t ∧ a = .inl (i + 1) ∧ b = .inl (i + 1) := by
  have hsize : (w.table 1).size = (fs.logicalInode 1).size :=
    (h.mirrors.table 1 (h.mirrors.mem_valid h.mirrors.root)).size
  rw [dirLinkStep, dirLinkStep, hsize, if_pos hlt, if_pos hlt]
  refine (h.blockRead allocate i Block.zero).bind ?_
  rintro a fs₁ b t₁ ⟨hfs, ht, ⟨-, rfl, rfl⟩ | ⟨hpast, -⟩⟩
  swap
  · exact absurd hi hpast
  dsimp only
  rw [if_neg (by simp), if_neg (by simp), findUnused_eq, if_neg hused]
  exact Run.agree_pure ⟨hfs, ht, rfl, rfl⟩

/-- A directory without room. -/
theorem Paired.dirLinkStep_full (h : Paired A L fs fs t w) (allocate : Fs DirFiles (Option Inode))
    (hend : ¬ i < (fs.logicalInode 1).size / 512)
    (hfull : ¬ (fs.logicalInode 1).size / 512 < sfsNdirBlocks + sfsNindBlocks) :
    Run.Agree (dirLinkStep fsLayer name v (fs.logicalInode 1) i) fs
      (dirLinkStep (loggedLayer allocate) name u (w.table 1) i) t
      fun a fs' b t' => ∃ r r', a = .inr r ∧ b = .inr r' ∧ LinkPair A L fs r fs' r' t' := by
  have hsize : (w.table 1).size = (fs.logicalInode 1).size :=
    (h.mirrors.table 1 (h.mirrors.mem_valid h.mirrors.root)).size
  rw [dirLinkStep, dirLinkStep, hsize, if_neg hend, if_neg hend]
  refine Run.Agree.bind (Run.Agree.of_eq (sfsFsInodeBlockWrite_past fs _ hfull _)
    ((serves_shows allocate).blockWrite_past t _ hfull _)
    (Q := fun a fs' b t' => a.1 = -1 ∧ b.1 = -1 ∧ fs' = fs ∧ t' = t) ⟨rfl, rfl, rfl, rfl⟩) ?_
  rintro ⟨ret, d⟩ fs₁ ⟨ret', d'⟩ t₁ ⟨hret, hret', hfs, ht⟩
  dsimp only at hret hret' ⊢
  rw [hret, hret', if_pos (by simp), if_pos (by simp), hfs, ht]
  exact Run.agree_pure ⟨_, _, rfl, rfl, rfl, w, h, fun j _ _ => SameFile.refl fs j⟩

/-- **`sfs_dir_link`** of a file to the root directory. -/
theorem Paired.dirLink (h : Paired A L fs fs t w) (allocate : Fs DirFiles (Option Inode))
    (hdir : Entries A fs) (htakes : fs.TakesEntry) (hv : fs.logicalInode v.inumber = v)
    (hk : v.inumber ∈ A) (h1 : v.inumber ≠ 1) (hu : v.Shadow u) :
    Run.Agree (sfsDirLink fsLayer (fs.logicalInode 1) name v) fs
      (sfsDirLink (loggedLayer allocate) (w.table 1) name u) t (LinkPair A L fs) := by
  have hsize : (w.table 1).size = (fs.logicalInode 1).size :=
    (h.mirrors.table 1 (h.mirrors.mem_valid h.mirrors.root)).size
  obtain ⟨nodes, himage⟩ := h.mirrors.shelved.image
  have hmapped := hdir.mapped
  unfold mappedBlocks at hmapped
  obtain ⟨hle, hbefore, hunused⟩ := rootPlace_spec fs
  have hend : ((fs.logicalInode 1).size / 512).toNat = fs.rootLength := UInt64.toNat_div _ _
  rw [sfsDirLink, sfsDirLink]
  refine Run.Agree.ite Iff.rfl (fun _ => ?_) fun _ => ?_
  · exact Run.agree_pure ⟨rfl, w, h, fun j _ _ => SameFile.refl fs j⟩
  refine Run.Agree.loop (I := fun i fs' i' t' => fs' = fs ∧ t' = t ∧ i' = i ∧
    i.toNat ≤ fs.rootPlace) ?_ loopBound ⟨rfl, rfl, rfl, Nat.zero_le _⟩
  rintro i fs' i' t' ⟨hfs, ht, hii, hi⟩
  rw [hfs, ht, hii]
  have hlast : ∀ {a fs' b t'}, (∃ r r', a = .inr r ∧ b = .inr r' ∧ LinkPair A L fs r fs' r' t') →
      Sum.LiftRel (fun j j' : UInt64 => fs' = fs ∧ t' = t ∧ j' = j ∧ j.toNat ≤ fs.rootPlace)
        (LinkPair A L fs · fs' · t') a b := by
    rintro a fs' b t' ⟨r, r', rfl, rfl, hlink⟩
    exact Sum.LiftRel.inr hlink
  have hplace : i.toNat = fs.rootPlace → UInt64.ofNat fs.rootPlace = i := fun e => by
    rw [← e, UInt64.ofNat_toNat]
  have hslot : fs.rootSlot i.toNat = Block.dirEntry (fs.fileBlock 1 i) 0 := by
    rw [Filesystem.rootSlot, UInt64.ofNat_toNat, Filesystem.fileBlock]
  by_cases hlt : i.toNat < fs.rootLength
  · have hmap : i < sfsNdirBlocks + sfsNindBlocks :=
      mapped_iff.mpr (by unfold mappedBlocks; omega)
    have hin : i < (fs.logicalInode 1).size / 512 := by
      rw [UInt64.lt_iff_toNat_lt, hend]
      exact hlt
    by_cases hused : (Block.dirEntry (fs.fileBlock 1 i) 0).inumber = 0
    · have hat : i.toNat = fs.rootPlace := by
        refine Nat.le_antisymm hi (Nat.not_lt.mp fun hbelow => ?_)
        exact hbefore _ hbelow (hslot ▸ hused)
      obtain ⟨hgoes, hblank⟩ := htakes (by unfold mappedBlocks; omega)
      have hrefuses := hgoes nodes himage.linked
      rw [Filesystem.RefusesEntry, hplace hat] at hrefuses
      rw [hplace hat] at hblank
      exact (h.dirLinkStep_reuse allocate himage hmap hin hused hrefuses hblank hv hk h1 hu).mono
        fun _ _ _ _ => hlast
    · refine (h.dirLinkStep_used allocate hmap hin hused).mono ?_
      rintro a fs' b t' ⟨hfs, ht, rfl, rfl⟩
      have hne : i.toNat ≠ fs.rootPlace := fun e => hused (by
        rw [← hslot, e]
        exact hunused (e ▸ hlt))
      have hnext : (i + 1).toNat = i.toNat + 1 := by
        rw [UInt64.toNat_add]
        show (i.toNat + 1) % 2 ^ 64 = _
        omega
      exact Sum.LiftRel.inl ⟨hfs, ht, rfl, by omega⟩
  · have hat : i.toNat = fs.rootPlace := by omega
    have hin : ¬ i < (fs.logicalInode 1).size / 512 := by
      rw [UInt64.lt_iff_toNat_lt, hend]
      exact hlt
    have hdiv : (fs.logicalInode 1).size / 512 = i := by
      rw [← UInt64.toNat_inj, hend]
      omega
    by_cases hfull : fs.rootPlace < mappedBlocks
    · obtain ⟨hgoes, hblank⟩ := htakes hfull
      have hrefuses := hgoes nodes himage.linked
      rw [Filesystem.RefusesEntry, hplace hat, ← hdiv] at hrefuses
      rw [hplace hat, ← hdiv] at hblank
      exact (h.dirLinkStep_grow allocate himage hin hrefuses hblank hv hk h1 hu).mono
        fun _ _ _ _ => hlast
    · refine (h.dirLinkStep_full allocate hin ?_).mono fun _ _ _ _ => hlast
      rw [hdiv, mapped_iff, hat]
      exact hfull

end Link

/-! ## A new file -/

section New

variable {base fs fs' : Filesystem F} {t : Filesystem DirFiles} {A nodes : List UInt64}
  {L : FreeList} {w : View} {v u d d' : Inode} {k : UInt64}

theorem Paired.rootImage (h : Paired A L fs fs t w) : ∃ nodes, RootImage fs nodes A := by
  obtain ⟨nodes, himage⟩ := h.mirrors.shelved.image
  exact ⟨nodes, himage, h.mirrors.root⟩

/-- The entries are found where they were. -/
theorem Entries.of_sameRoot (h : Entries A fs) (hr : RootImage fs nodes A) (hsame : SameRoot fs fs')
    {A' : List UInt64} (hsub : ∀ k ∈ A, k ∈ A') : Entries A' fs' where
  size := by
    rw [hsame.size, hsame.rootLength]
    exact h.size
  mapped := by
    rw [hsame.rootLength]
    exact h.mapped
  named i hi hused := by
    rw [hsame.rootLength] at hi
    rw [hsame.rootSlot hr] at hused ⊢
    obtain ⟨hmem, h1⟩ := h.named i hi hused
    exact ⟨hsub _ hmem, h1⟩

theorem Filesystem.TakesEntry.of_sameRoot (h : fs.TakesEntry) (hr : RootImage fs nodes A)
    (hsame : SameRoot fs fs') : fs'.TakesEntry := by
  have hplace : fs'.rootPlace = fs.rootPlace := by
    simp only [Filesystem.rootPlace, hsame.rootLength, hsame.rootSlot hr]
  have hlinked : Linked 0 fs'.disk.nextNode fs'.superblock.freeBlocksHead nodes := by
    rw [hsame.head]
    refine hr.image.linked.congr fun n hn => ?_
    rw [Disk.nextNode, hsame.node hr hn, Disk.nextNode]
  intro hlt
  rw [hplace] at hlt
  obtain ⟨hgoes, hblank⟩ := h hlt
  refine ⟨fun nodes' hnodes => ?_, ?_⟩
  · rw [hnodes.unique hlinked, hsame.refusesEntry hr]
    exact hgoes nodes hr.image.linked
  · rw [hplace]
    rintro ⟨h12, h76, h0⟩ n hn
    rw [hsame.nextFree hr] at hn
    rw [hsame.pointer] at h0
    rw [Disk.indexEntries, hsame.block n (hr.image.nextFree_inRange hn), ← Disk.indexEntries]
    exact hblank ⟨h12, h76, h0⟩ n hn

/-- **`sfs_fs_inode_allocate`** takes the first of the free inodes, if there is one. -/
theorem Browsing.allocate {T : UInt64 → Inode} {freed : ℕ → Block → Block}
    (h : Browsing A L base T freed fs t w) (hlast : L.inodes = [] → L.last = 0) :
    Run.Agree sfsFsInodeAllocate fs sfsFsInodeAllocate t fun a fs' b t' =>
      (a = none ∧ b = none ∧ fs' = fs ∧ Browsing A L base T freed fs' t' w) ∨
      ∃ k l w', L.inodes = k :: l ∧ a = some (fs.logicalInode k) ∧ b = some (w.table k) ∧
        Browsing A ⟨l, L.last⟩ base T freed fs' t' w' ∧ w'.table = w.table ∧ w'.inodes = w.inodes ∧
        ∀ j, 0 < j → fs'.logicalInode j = fs.logicalInode j := by
  obtain ⟨l, last⟩ := L
  cases l with
  | nil =>
    have h0 : fs.superblock.freeInodeHead = 0 := h.mirrors.shelved.list.linked.trans (hlast rfl)
    refine (Run.Ensures.of_eq (sfsFsInodeAllocate_of_head_eq_zero h0)
      (Q := fun a fs' => a = none ∧ fs' = fs) ⟨rfl, rfl⟩).agree
      (h.shows.allocate_empty (h.mirrors.head.symm.trans h0)) ?_
    rintro a fs' b t' ⟨rfl, rfl⟩ ⟨rfl, hshows⟩
    exact Or.inl ⟨rfl, rfl, rfl, ⟨h.mirrors, hshows⟩, h.others, h.same⟩
  | cons k l =>
    have hk := h.mirrors.shelved.list.valid k List.mem_cons_self
    have hhead : w.head = k := by
      rw [← h.mirrors.head]
      exact h.mirrors.shelved.list.linked.1
    have hvalid : w.Valid w.head := by
      rw [hhead]
      exact h.mirrors.valid hk
    have hsize : (w.table k).size = (fs.logicalInode k).size := (h.mirrors.table k hk).size
    refine h.mirrors.allocate.agree (h.shows.allocate_ensures hvalid) ?_
    rw [hhead, hsize]
    generalize (fs.logicalInode k).size = next
    rintro a fs' b t' ⟨rfl, hmirrors, hsame⟩ ⟨rfl, hshows⟩
    refine Or.inr ⟨k, l, w.withHead next, rfl, rfl, rfl, ⟨⟨hmirrors, hshows⟩, fun j hj hj1 => ?_,
      h.same⟩, rfl, rfl, hsame⟩
    have hj' : fs.superblock.ValidInumber j :=
      h.mirrors.validInumber (View.Valid.congr (hmirrors.valid hj) rfl)
    rw [hsame j hj.1]
    exact h.others j hj' hj1

/-- The fields of a new file. -/
theorem Browsing.newFile {T : UInt64 → Inode} {freed : ℕ → Block → Block}
    (h : Browsing A L base T freed fs t w) (context : FuseContext) (mode : UInt32)
    (hd : d.Shadow d') (hu : v.Shadow u) :
    Run.Agree (newFile context mode d v) fs (newFile context mode d' u) t fun a fs' b t' =>
      Browsing A L base T freed fs' t' w ∧ fs'.logicalInode = fs.logicalInode ∧
        a.inumber = v.inumber ∧ a.size = 0 ∧ (∀ i, a.pointer i = 0) ∧ a.Shadow b := by
  rw [SimpleFileSystem.newFile, SimpleFileSystem.newFile, hd.mode, hu.gid]
  refine h.time.bind ?_
  rintro now₁ fs₁ now₁' t₁ ⟨h₁, hsame₁⟩
  refine h₁.time.bind ?_
  rintro now₂ fs₂ now₂' t₂ ⟨h₂, hsame₂⟩
  refine h₂.time.bind ?_
  rintro now₃ fs₃ now₃' t₃ ⟨h₃, hsame₃⟩
  have hempty : ∀ {x : Inode}, (x.blockPointers = fun _ => 0) → ∀ i, x.pointer i = 0 := by
    intro x hx i
    unfold Inode.pointer
    rw [hx]
    split <;> rfl
  exact Run.agree_pure ⟨h₃, (hsame₃.trans hsame₂).trans hsame₁, rfl, rfl, hempty rfl,
    hu.inumber, rfl, rfl, rfl, rfl, rfl, hempty rfl⟩

/-- What a file that was written for the first time leaves. -/
structure Made (A : List UInt64) (L : FreeList) (base fs : Filesystem F)
    (t : Filesystem DirFiles) (w : View) (v u : Inode) (fs' : Filesystem F)
    (t' : Filesystem DirFiles) : Prop where
  paired : Paired (v.inumber :: A) L fs' fs' t' (w.setInode u)
  stored : fs'.logicalInode v.inumber = v
  entries : Entries (v.inumber :: A) fs'
  takes : fs'.TakesEntry
  directory : fs'.logicalInode 1 = fs.logicalInode 1
  directory' : (w.setInode u).table 1 = w.table 1
  old : ∀ k ∈ A, k ≠ 1 → SameFile base fs' k
  new : EmptyFile fs' v.inumber

/-- **The inode of a new file** is written. -/
theorem Browsing.writeNew {freed : ℕ → Block → Block}
    (h : Browsing A L base base.logicalInode freed fs t w) (hr : RootImage base nodes A)
    (hdir : Entries A base) (htakes : base.TakesEntry) (hk : v.inumber ∉ A)
    (hfree : v.inumber ∉ L.inodes) (hvalid : fs.superblock.ValidInumber v.inumber)
    (hsize : v.size = 0) (hempty : ∀ i, v.pointer i = 0) (hu : v.Shadow u) :
    Run.Agree (sfsFsWriteInode v) fs (sfsFsWriteInode u) t fun a fs' b t' =>
      a = 0 ∧ b = 0 ∧ Made A L base fs t w v u fs' t' := by
  have h1 : v.inumber ≠ 1 := fun e => hk (e ▸ h.mirrors.root)
  have hvalid' : w.Valid u.inumber := by
    rw [hu.inumber]
    exact h.mirrors.valid hvalid
  refine (h.mirrors.writeNew hk hfree hvalid hempty hu).agree
    (h.shows.writeInode_ensures hvalid') ?_
  rintro a fs' b t' ⟨rfl, hmirrors, hstored, hstill, hkept, hothers, hzero⟩ ⟨rfl, hshows⟩
  have hsame : SameRoot base fs' := (h.mirrors.still.trans hstill).sameRoot h.mirrors.root
  refine ⟨rfl, rfl, ⟨hmirrors, hshows⟩, hstored,
    hdir.of_sameRoot hr hsame fun _ => List.mem_cons_of_mem _, htakes.of_sameRoot hr hsame,
    hothers 1 (by decide) (Ne.symm h1),
    View.setInode_table_of_ne (by rw [hu.inumber]; exact Ne.symm h1), fun j hj hj1 => ?_,
    by rw [hstored]; exact hsize, hzero⟩
  refine (h.sameFile hj hj1).trans ⟨?_, hkept j hj⟩
  rw [hothers j (h.mirrors.mem_valid hj).1 fun e => hk (e ▸ hj)]

/-- **A new file with its name.** -/
theorem Made.link {fs' : Filesystem F} {t' : Filesystem DirFiles}
    (h : Made A L base fs t w v u fs' t') (hk : v.inumber ∉ A) (h1 : v.inumber ≠ 1)
    (hd : d = fs.logicalInode 1) (hd' : d' = w.table 1) (hu : v.Shadow u)
    (allocate : Fs DirFiles (Option Inode)) (name : CString) :
    Run.Agree (sfsDirLink fsLayer d name v) fs' (sfsDirLink (loggedLayer allocate) d' name u) t'
      fun a fs'' b t'' => b.1 = a.1 ∧ Follows A base fs'' t'' := by
  rw [hd, ← h.directory, hd', ← h.directory']
  refine (h.paired.dirLink allocate h.entries h.takes h.stored List.mem_cons_self h1 hu).mono ?_
  rintro a fs'' b t'' ⟨hret, w'', hpaired, hsame⟩
  refine ⟨hret, _, L, w'', hpaired, fun j hj hj1 => ?_⟩
  have hj' := hsame j hj hj1
  rcases List.mem_cons.mp hj with rfl | hj
  · exact Or.inr ⟨hk, by rw [hj'.size, h.new.size], fun i => by rw [hj'.block, h.new.block]⟩
  · exact Or.inl ⟨hj, (h.old j hj hj1).trans hj'⟩

end New

end SimpleFileSystem
