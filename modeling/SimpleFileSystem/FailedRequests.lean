import SimpleFileSystem.DirectoryGrowth
import SimpleFileSystem.FdPool
import SimpleFileSystem.Locking
import SimpleFileSystem.MappedFile
import SimpleFileSystem.Paths

/-!
# What failed requests leave behind

`sfs_open` and `sfs_create` count the link of a handle before they ask for one, and
`sfs_create` takes an inode off the free list before it knows that the directory has room for
its name.  Neither is taken back: a request that fails after that has left a trace
(`NoTrace`).

The two begin alike, and up to the end of the search nothing has happened that shows
(`onName_ensures`).  From there on the state before the request says whether it strands
something, a link (`OpenStrands`) or an inode (`CreateStrands`), and
`failed_requests_leave_no_trace_iff` is that it leaves a trace exactly then.
-/

namespace SimpleFileSystem

variable {F : Type}

/-! ## Traces -/

/-- **No trace**: the names, the links, the free inodes and the open handles are what they
were. -/
structure NoTrace (s s' : SfsState F) : Prop where
  names : ∀ name k, s'.fs.Names name k ↔ s.fs.Names name k
  links : ∀ k, s.fs.superblock.ValidInumber k →
    (s'.fs.logicalInode k).links = (s.fs.logicalInode k).links
  free : ∀ L, FreeInodes s'.fs L ↔ FreeInodes s.fs L
  handles : ∀ opened, (∃ free, s'.fdPool.Handles opened free) ↔
    ∃ free, s.fdPool.Handles opened free

/-- **A request that fails leaves no trace.** -/
def SfsState.LeavesNoTrace (s : SfsState F) (x : Sfs F (ℤ × Option UInt64)) : Prop :=
  Run.Ensures x s fun r s' => r.1 ≠ 0 → NoTrace s s'

/-- The name that a request looks for, if it gets that far. -/
def SfsState.looksFor (s : SfsState F) (path : CString) : Option CString :=
  if s.fs.host.mallocs 0 ∧ s.fs.host.mallocs 1 then (pathName path).getRight? else none

/-- There is no handle: the pool has none, and there is no memory for another slab when the
request asks for it. -/
def SfsState.NoHandle (s : SfsState F) : Prop :=
  s.fdPool.freelist = 0 ∧ s.fs.host.mallocs 2 = false

/-- **A call of `sfs_open` that strands a link**: the name is there, and there is no handle. -/
def SfsState.OpenStrands (s : SfsState F) (path : CString) : Prop :=
  ∃ name, s.looksFor path = some name ∧ s.fs.HasName name ∧ s.NoHandle

/-- **A call of `sfs_create` that strands a link or an inode**: the name is there, may be, and
there is no handle; or it is not, there is a free inode, and the entry is refused or there is
no handle. -/
def SfsState.CreateStrands (s : SfsState F) (nodes : List UInt64) (path : CString)
    (flags : UInt64) : Prop :=
  ∃ name, s.looksFor path = some name ∧
    (s.fs.HasName name ∧ flags &&& oExcl = 0 ∧ s.NoHandle ∨
      ¬ s.fs.HasName name ∧ s.fs.superblock.freeInodeHead ≠ 0 ∧
        (s.fs.RefusesEntry nodes ∨ s.NoHandle))

/-- **A well-formed state** between two requests. -/
structure SfsState.WellFormed (s : SfsState F) (nodes A L : List UInt64) : Prop
    extends Rooted s.fs nodes A L where
  idle : ¬ s.Locked

/-- How a request ends, of which `S` says whether it strands something. -/
def Settles (s : SfsState F) (S : Prop) (r : ℤ × Option UInt64) (s' : SfsState F) : Prop :=
  (r.1 = 0 → ¬ S) ∧ (r.1 ≠ 0 → (NoTrace s s' ↔ ¬ S))

section Traces

variable {s s' : SfsState F} {nodes A L : List UInt64} {x : Sfs F (ℤ × Option UInt64)} {S : Prop}
  {r : ℤ × Option UInt64}

theorem leavesNoTrace_iff (h : Run.Ensures x s (Settles s S)) : s.LeavesNoTrace x ↔ ¬ S := by
  obtain ⟨r, s', hrun, hdone, hfailed⟩ := h
  constructor
  · intro hleaves
    by_cases hr : r.1 = 0
    · exact hdone hr
    · exact (hfailed hr).mp (hleaves.post hrun hr)
  · exact fun hS => Run.Ensures.of_eq hrun fun hr => (hfailed hr).mpr hS

theorem Settles.of_noTrace (h : NoTrace s s') (hS : ¬ S) : Settles s S r s' :=
  ⟨fun _ => hS, fun _ => iff_of_true h hS⟩

/-- A request whose failures all leave a trace, and are those that strand something. -/
theorem Settles.of_trace (hr : r.1 = 0 ↔ ¬ S) (h : ¬ NoTrace s s') : Settles s S r s' :=
  ⟨hr.mp, fun hne => iff_of_false h fun hS => hne (hr.mpr hS)⟩

theorem NoTrace.of_browsed (hr : Rooted s.fs nodes A L) (h : Browsed s.fs s'.fs)
    (hpool : s'.fdPool = s.fdPool) : NoTrace s s' where
  names := h.sameRoot.names hr.rootImage
  links _ hk := h.links hk.1
  free _ := h.freeInodes_iff
  handles opened := by rw [hpool]

end Traces

/-! ## The beginning -/

/-- A request on a name, up to the end of the search. -/
def onName (L : InodeLayer F) (path : CString)
    (rest : CString → Search → Sfs F (ℤ × Option UInt64)) : Sfs F (ℤ × Option UInt64) := do
  lock
  match ← onFs (splitPath path) with
  | .inl ret =>
    unlock
    return (ret, none)
  | .inr name =>
    let some directory ← onFs sfsDirRoot |
      unlock
      return (-enoent, none)
    let some it ← onFs (sfsDirIterate directory) |
      unlock
      return (-1, none)
    rest name (← onFs (search L name it))

/-- The state after the search. -/
structure Searched (s : SfsState F) (nodes A L : List UInt64) (name : CString) (found : Search)
    (s' : SfsState F) : Prop where
  looked : ∃ path, s.looksFor path = some name
  rooted : Rooted s'.fs nodes A L
  browsed : Browsed s.fs s'.fs
  mallocs : s'.fs.host.mallocs 0 = s.fs.host.mallocs 2
  pool : s'.fdPool = s.fdPool
  answer : match found with
    | .stop directory => directory = s'.fs.logicalInode 1 ∧ ¬ s.fs.HasName name
    | .found it j => s.fs.Names name (Block.dirEntry it.cachedBlock j).inumber

section Beginning

variable {s : SfsState F} {nodes A L : List UInt64} {path : CString}
  {rest : CString → Search → Sfs F (ℤ × Option UInt64)}
  {Q : ℤ × Option UInt64 → SfsState F → Prop}

/-- A return. -/
theorem unlock_pure_ensures {r : ℤ × Option UInt64} (h : Q r { s with mu := .unlock :: s.mu }) :
    Run.Ensures (unlock >>= fun _ => pure r : Sfs F (ℤ × Option UInt64)) s Q :=
  ⟨r, _, rfl, h⟩

theorem looksFor_inl (hpath : ∃ ret, pathName path = .inl ret) : s.looksFor path = none := by
  obtain ⟨ret, hret⟩ := hpath
  rw [SfsState.looksFor, hret]
  exact ite_self none

/-- **Up to the end of the search nothing has happened that shows.** -/
theorem onName_ensures (h : s.WellFormed nodes A L)
    (hnone : s.looksFor path = none → ∀ r s', NoTrace s s' → Q r s')
    (hrest : ∀ name found s', s.looksFor path = some name →
      Searched s nodes A L name found s' → Run.Ensures (rest name found) s' Q) :
    Run.Ensures (onName fsLayer path rest) s Q := by
  have hr := h.toRooted
  rw [onName]
  refine (lock_ensures h.idle).bind ?_
  rintro _ s₁ ⟨hfs₁, hp₁⟩
  refine (onFs_ensures (Run.Ensures.of_eq (splitPath_run s₁.fs path)
    (Q := fun a fs' => a = _ ∧ fs' = s₁.fs.malloced) ⟨rfl, rfl⟩)).bind ?_
  rintro _ s₂ ⟨⟨rfl, hfs₂⟩, hp₂⟩
  rw [hfs₁] at hfs₂ ⊢
  have hb₂ : Browsed s.fs s₂.fs := by
    rw [hfs₂]
    exact Browsed.of_host s.fs _
  have h₂ : Rooted s₂.fs nodes A L := by
    rw [hfs₂]
    exact hr.of_host rfl
  have hpool₂ := hp₂.trans hp₁
  by_cases hm₀ : s.fs.host.mallocs 0 = true
  swap
  · rw [if_neg hm₀]
    exact unlock_pure_ensures
      (hnone (if_neg fun hmem => hm₀ hmem.1) _ _ (NoTrace.of_browsed hr hb₂ hpool₂))
  rw [if_pos hm₀]
  cases hpath : pathName path with
  | inl ret =>
    exact unlock_pure_ensures
      (hnone (looksFor_inl ⟨ret, hpath⟩) _ _ (NoTrace.of_browsed hr hb₂ hpool₂))
  | inr name =>
  dsimp only
  refine (onFs_ensures (h₂.readInode_ensures h₂.root)).bind ?_
  rintro _ s₃ ⟨⟨rfl, h₃, hw₃, hsame₃⟩, hp₃⟩
  dsimp only
  rw [← hsame₃]
  refine (onFs_ensures (Run.Ensures.of_eq (sfsDirIterate_run s₃.fs h₃.directory)
    (Q := fun a fs' => a = _ ∧ fs' = s₃.fs.malloced) ⟨rfl, rfl⟩)).bind ?_
  rintro _ s₄ ⟨⟨rfl, hfs₄⟩, hp₄⟩
  have hb₄ : Browsed s.fs s₄.fs := by
    refine (hb₂.trans hw₃.toBrowsed).trans ?_
    rw [hfs₄]
    exact Browsed.of_host s₃.fs _
  have h₄ : Rooted s₄.fs nodes A L := by
    rw [hfs₄]
    exact h₃.of_host rfl
  have hpool₄ := (hp₄.trans hp₃).trans hpool₂
  have hm₃ : s₃.fs.host.mallocs 0 = s.fs.host.mallocs 1 := by
    rw [hw₃.mallocs, hfs₂]
    rfl
  have hm₄ : s₄.fs.host.mallocs 0 = s.fs.host.mallocs 2 := by
    rw [hfs₄]
    show s₃.fs.host.mallocs 1 = _
    rw [hw₃.mallocs, hfs₂]
    rfl
  rw [hm₃]
  by_cases hm₁ : s.fs.host.mallocs 1 = true
  swap
  · rw [if_neg hm₁]
    exact unlock_pure_ensures
      (hnone (if_neg fun hmem => hm₁ hmem.2) _ _ (NoTrace.of_browsed hr hb₄ hpool₄))
  rw [if_pos hm₁]
  have hlooks : s.looksFor path = some name := by
    rw [SfsState.looksFor, if_pos ⟨hm₀, hm₁⟩, hpath]
    rfl
  have hfresh : Passes s₄.fs ⟨s₃.fs.logicalInode 1, 0, 0, Block.zero⟩ 0 := by
    rw [hfs₄]
    exact Passes.fresh s₃.fs.malloced Block.zero
  dsimp only
  refine (onFs_ensures (searchRoot_ensures h₄ hfresh (pathName_short hpath))).bind ?_
  rintro found s₅ ⟨⟨h₅, hw₅, hanswer⟩, hp₅⟩
  refine hrest name found s₅ hlooks ⟨⟨path, hlooks⟩, h₅, hb₄.trans hw₅.toBrowsed,
    (congrFun hw₅.mallocs 0).trans hm₄, hp₅.trans hpool₄, ?_⟩
  have hnames := hb₄.sameRoot.names hr.rootImage name
  cases found with
  | stop directory =>
    refine ⟨hanswer.1, fun hhas => hanswer.2 ?_⟩
    obtain ⟨k, hk⟩ := hhas
    exact ⟨k, (hnames k).mpr hk⟩
  | found it j => exact (hnames _).mp hanswer

end Beginning

/-! ## A link and a handle -/

section Handle

variable {s t : SfsState F} {nodes A L : List UInt64} {name : CString} {found : Search}
  {it : DirIterator} {j : ℕ} {S : Prop}

theorem looksFor_short {path : CString} (h : s.looksFor path = some name) : name.length ≤ 255 := by
  unfold SfsState.looksFor at h
  split at h
  · exact pathName_short (Sum.getRight?_eq_some_iff.mp h)
  · cases h

/-- Of the filesystem a handle takes memory at most. -/
theorem openHandle_ends (s : SfsState F) (k flags : UInt64) :
    Run.Ensures (openHandle k flags) s fun r s' =>
      (r.1 = 0 ↔ ¬ (s.fdPool.freelist = 0 ∧ s.fs.host.mallocs 0 = false)) ∧
        (s'.fs = s.fs ∨ s'.fs = s.fs.malloced) := by
  have hgoes : ∀ {n t}, (sfsFiledescriptorAllocate : Sfs F (Option ℕ)).run s = .done (some n) t →
      ∃ s' x, (openHandle k flags).run s = .done (0, x) s' ∧ s'.fs = t.fs := by
    intro n t hrun
    rw [openHandle, Run.run_bind, hrun, Run.andThen_done]
    exact ⟨_, _, rfl, rfl⟩
  by_cases hfree : s.fdPool.freelist = 0
  · cases hmalloc : s.fs.host.mallocs 0 with
    | false =>
      have hrun := sfsFiledescriptorAllocate_refuse hfree hmalloc
      refine ⟨(-enomem, none), { s with fs := s.fs.malloced, mu := .unlock :: s.mu }, ?_,
        iff_of_false (by decide) (not_not.mpr ⟨hfree, rfl⟩), Or.inr rfl⟩
      rw [openHandle, Run.run_bind, hrun, Run.andThen_done]
      rfl
    | true =>
      obtain ⟨s', x, hrun, hfs⟩ := hgoes (sfsFiledescriptorAllocate_grow hfree hmalloc)
      exact Run.Ensures.of_eq hrun ⟨iff_of_true rfl fun hnone => by simp at hnone, Or.inr hfs⟩
  · obtain ⟨s', x, hrun, hfs⟩ := hgoes (sfsFiledescriptorAllocate_free hfree)
    exact Run.Ensures.of_eq hrun ⟨iff_of_true rfl fun hnone => hfree hnone.1, Or.inl hfs⟩

/-- A handle is all that is missing. -/
theorem openHandle_settles (hpool : t.fdPool = s.fdPool)
    (hmallocs : t.fs.host.mallocs 0 = s.fs.host.mallocs 2) (hS : S ↔ s.NoHandle)
    (htrace : ∀ s' : SfsState F, s'.fs = t.fs ∨ s'.fs = t.fs.malloced → ¬ NoTrace s s')
    (k flags : UInt64) : Run.Ensures (openHandle k flags) t (Settles s S) := by
  refine (openHandle_ends t k flags).mono ?_
  rintro r s' ⟨hr, hfs⟩
  rw [hpool, hmallocs] at hr
  exact Settles.of_trace (hr.trans (not_congr hS.symm)) (htrace s' hfs)

/-- **The link is counted.** -/
theorem Rooted.addLink_ends {fs : Filesystem F} (h : Rooted fs nodes A L) {k : UInt64} (hk : k ∈ A)
    (hown : (fs.logicalInode k).inumber = k) :
    Run.Ensures (addLink k) fs fun answer fs' => (∃ file, answer = some file ∧ file.inumber = k) ∧
      (fs'.logicalInode k).links = (fs.logicalInode k).links + 1 ∧
      fs'.host.mallocs = fs.host.mallocs := by
  have hread := h.readInode_ensures hk
  generalize fs.logicalInode k = v at hread hown ⊢
  rw [addLink]
  refine hread.bind ?_
  rintro _ fs₁ ⟨rfl, h₁, hw₁, -⟩
  dsimp only
  refine h₁.time_ensures.bind ?_
  rintro now fs₂ ⟨h₂, hw₂, -⟩
  have hvalid : fs₂.superblock.ValidInumber v.inumber := by
    rw [hown]
    exact h₂.image.valid k hk
  refine (sfsFsWriteInode_ensures (v := { v with links := v.links + 1, changeTime := now })
    h₂.image.state hvalid (h₂.lt_int hvalid)).bind ?_
  rintro _ fs₃ ⟨rfl, -, hframe, hset, -⟩
  rw [if_neg (by simp)]
  replace hset : fs₃.logicalInode k = { v with links := v.links + 1, changeTime := now } := by
    rw [← hown]
    exact hset
  refine Run.ensures_pure ⟨⟨_, rfl, hown⟩, ?_, ?_⟩
  · rw [hset]
  · rw [hframe.host, hw₂.mallocs, hw₁.mallocs]

theorem Searched.close_ensures (h : Searched s nodes A L name found t) (it : DirIterator) :
    Run.Ensures (onFs (sfsDirIterclose it)) t fun _ t' => Searched s nodes A L name found t' := by
  refine (onFs_ensures (h.rooted.free_ensures it.cachedBlock)).mono ?_
  rintro _ t' ⟨⟨hrooted, hwalked, hsame⟩, hpool⟩
  refine ⟨h.looked, hrooted, h.browsed.trans hwalked.toBrowsed,
    (congrFun hwalked.mallocs 0).trans h.mallocs, hpool.trans h.pool, ?_⟩
  have hanswer := h.answer
  cases found with
  | stop directory => exact ⟨hanswer.1.trans hsame.symm, hanswer.2⟩
  | found it j => exact hanswer

/-- **A link that has been counted stays**, and a handle is all that is missing. -/
theorem addLink_settles (h : s.WellFormed nodes A L)
    (hs : Searched s nodes A L name (.found it j) t) (hS : S ↔ s.NoHandle) (flags : UInt64)
    {f : Option Inode → Sfs F (ℤ × Option UInt64)}
    (hf : ∀ file : Inode, file.inumber = (Block.dirEntry it.cachedBlock j).inumber →
      f (some file) = openHandle (Block.dirEntry it.cachedBlock j).inumber flags) :
    Run.Ensures (onFs (addLink (Block.dirEntry it.cachedBlock j).inumber) >>= f) t
      (Settles s S) := by
  have hfound := hs.answer
  dsimp only at hfound
  obtain ⟨hk, hown⟩ := h.named _ _ hfound
  generalize (Block.dirEntry it.cachedBlock j).inumber = k at hk hown hf ⊢
  have hvalid := h.image.valid k hk
  refine (onFs_ensures (hs.rooted.addLink_ends hk
    ((hs.browsed.inumber hvalid.1).trans hown))).bind ?_
  rintro _ t' ⟨⟨⟨file, rfl, hfile⟩, hlinks, hmallocs⟩, hpool⟩
  rw [hf file hfile]
  refine openHandle_settles (hpool.trans hs.pool)
    ((congrFun hmallocs 0).trans hs.mallocs) hS ?_ k flags
  intro s' hfs hnone
  have hsame := hnone.links k hvalid
  have hlinks' : (s'.fs.logicalInode k).links = (t'.fs.logicalInode k).links := by
    rcases hfs with e | e
    · rw [e]
    · rw [e]
      rfl
  rw [hlinks', hlinks, hs.browsed.links hvalid.1] at hsame
  exact absurd hsame (by simp)

end Handle

/-! ## A new inode -/

/-- **An inode has been taken** off the list, and the directory is what it was. -/
structure Taken (fs : Filesystem F) (k : UInt64) (fs' : Filesystem F) : Prop
    extends SameRoot fs fs' where
  next : fs'.superblock.freeInodeHead = fs.nextInode k
  inodes : fs'.superblock.inodes = fs.superblock.inodes
  inodeTableBlocks : fs'.superblock.inodeTableBlocks = fs.superblock.inodeTableBlocks
  directory : fs'.logicalInode 1 = fs.logicalInode 1
  mallocs : fs'.host.mallocs = fs.host.mallocs

section Taken

variable {fs fs' : Filesystem F} {nodes A L : List UInt64} {k : UInt64}

/-- A step on the inode table that leaves the inode of the directory alone. -/
theorem Rooted.sameRoot_of_tableFrame (h : Rooted fs nodes A L) (hframe : TableFrame fs fs')
    (hroot : fs'.logicalInode 1 = fs.logicalInode 1) : SameRoot fs fs' :=
  ⟨by rw [hframe.superblock], by rw [hframe.superblock],
    fun _ hb => h.image.block_of_tableFrame hframe hb, by rw [hroot], by rw [hroot]⟩

/-- Another head of the free inode list. -/
theorem Taken.withInodeHead (h : Rooted fs nodes A L) (hframe : TableFrame fs fs')
    (hroot : fs'.logicalInode 1 = fs.logicalInode 1) {x : UInt64} (hx : fs.nextInode k = x) :
    Taken fs k (fs'.withInodeHead x) := by
  have hsame := h.sameRoot_of_tableFrame hframe hroot
  have hone : (fs'.withInodeHead x).logicalInode 1 = fs.logicalInode 1 :=
    (logicalInode_withInodeHead x (h.image.valid 1 h.root).1).trans hroot
  have hinodes : fs'.superblock.inodes = fs.superblock.inodes := by
    rw [hframe.superblock]
  have htable : fs'.superblock.inodeTableBlocks = fs.superblock.inodeTableBlocks := by
    rw [hframe.superblock]
  refine ⟨⟨hsame.head, hsame.inRange, fun b hb => ?_, by rw [hone], by rw [hone]⟩, hx.symm, hinodes,
    htable, hone, congrArg Host.mallocs hframe.host⟩
  have h0 : b.toNat ≠ 0 := fun e => h.image.ne_zero_of_inRange hb (UInt64.toNat_inj.mp e)
  rw [block_withInodeHead x h0, hsame.block b hb]

/-- **The first free inode is taken.** -/
theorem Rooted.allocateInode_ends (h : Rooted fs nodes A (k :: L)) :
    Run.Ensures sfsFsInodeAllocate fs fun answer fs' => answer = some (fs.logicalInode k) ∧
      Rooted fs' nodes A L ∧ Taken fs k fs' := by
  have hk := h.list.valid k List.mem_cons_self
  have hone := (h.image.valid 1 h.root).1
  refine (h.image.allocateInode_reads h.list.linked.1 hk (h.lt_int hk)).mono ?_
  rintro answer fs' ⟨hanswer, fs₁, himage, hframe, hsame, hfs'⟩
  have htaken : Taken fs k fs' := by
    rw [hfs']
    exact Taken.withInodeHead h hframe (hsame 1 hone) rfl
  have hinode : ∀ j, 0 < j → fs'.logicalInode j = fs.logicalInode j := by
    intro j hj
    rw [hfs', logicalInode_withInodeHead _ hj, hsame j hj]
  have himage' : Image fs' nodes A [] := by
    rw [hfs']
    exact himage.withInodeHead _
  refine ⟨hanswer, htaken.toSameRoot.rooted h himage' ?_ (fun j hj => List.mem_cons_of_mem k hj)
    htaken.inodeTableBlocks (by rw [htaken.directory])
    (fun j hj => by rw [hinode j (h.image.valid j hj).1]), htaken⟩
  exact h.list.tail htaken.next htaken.inodes fun j hj =>
    hinode j (h.list.valid j (List.mem_cons_of_mem k hj)).1

/-- The fields of the new file. -/
theorem Taken.newFile_ensures (h : Taken fs k fs') (hr : Rooted fs' nodes A L)
    (context : FuseContext) (mode : UInt32) (directory file : Inode) :
    Run.Ensures (newFile context mode directory file) fs' fun v fs'' =>
      v.inumber = file.inumber ∧ Rooted fs'' nodes A L ∧ Taken fs k fs'' := by
  refine ⟨_, fs'.ticked.ticked.ticked, rfl, rfl, hr.of_host rfl, ?_⟩
  exact ⟨h.toSameRoot.trans (Browsed.of_host fs' _).sameRoot, h.next, h.inodes, h.inodeTableBlocks,
    h.directory, h.mallocs⟩

/-- **The inode of the new file is written.** -/
theorem Taken.writeInode_ensures (h : Taken fs k fs') (hr : Rooted fs' nodes A L) {v : Inode}
    (hv : v.inumber = k) (hvalid : fs.superblock.ValidInumber k) (hA : k ∉ A) (hL : k ∉ L) :
    Run.Ensures (sfsFsWriteInode v) fs' fun ret fs'' =>
      ret = 0 ∧ Rooted fs'' nodes A L ∧ Taken fs k fs'' := by
  subst hv
  have hvalid' : fs'.superblock.ValidInumber v.inumber := by
    rw [Superblock.ValidInumber, h.inodes]
    exact hvalid
  refine (hr.image.writeFreed hA hvalid' (hr.lt_int hvalid')).mono ?_
  rintro ret fs'' ⟨hret, himage, hframe, -, hsame⟩
  have hinode : ∀ j ∈ A, fs''.logicalInode j = fs'.logicalInode j := by
    refine fun j hj => hsame j (hr.image.valid j hj).1 ?_
    rintro rfl
    exact hA hj
  have hroot := hinode 1 hr.root
  have hstep := hr.sameRoot_of_tableFrame hframe hroot
  refine ⟨hret, hstep.rooted hr himage ?_ (fun j hj => hj) (by rw [hframe.superblock])
    (by rw [hroot]) (fun j hj => by rw [hinode j hj]), h.toSameRoot.trans hstep, ?_, ?_, ?_,
    hroot.trans h.directory, ?_⟩
  · refine hr.list.congr (by rw [hframe.superblock]) (by rw [hframe.superblock]) fun j hj => ?_
    refine hsame j (hr.list.valid j hj).1 ?_
    rintro rfl
    exact hL hj
  · rw [hframe.superblock]
    exact h.next
  · rw [hframe.superblock]
    exact h.inodes
  · rw [hframe.superblock]
    exact h.inodeTableBlocks
  · rw [hframe.host]
    exact h.mallocs

end Taken

/-! ## The requests -/

/-- `sfs_create` after a search that has not found the name. -/
def createNew (context : FuseContext) (mode : UInt32) (flags : UInt64) (name : CString)
    (directory : Inode) : Sfs F (ℤ × Option UInt64) := do
  let some file ← onFs fsLayer.allocate |
    unlock
    return (-edquot, none)
  let file ← onFs (newFile context mode directory file)
  if (← onFs (sfsFsWriteInode file)) ≠ 0 then
    unlock
    return (-1, none)
  let (ret, _, _) ← onFs (sfsDirLink fsLayer directory name file)
  if ret ≠ 0 then
    unlock
    return (-1, none)
  openHandle file.inumber flags

/-- `sfs_open` after the search. -/
def openRest (flags : UInt64) (_name : CString) (found : Search) : Sfs F (ℤ × Option UInt64) := do
  match found with
  | .found it j =>
    let foundInumber := (Block.dirEntry it.cachedBlock j).inumber
    let _ ← onFs (sfsDirIterclose it)
    let some file ← onFs (addLink foundInumber) |
      unlock
      return (-1, none)
    openHandle file.inumber flags
  | .stop _ =>
    unlock
    return (-enoent, none)

/-- `sfs_create` after the search. -/
def createRest (context : FuseContext) (mode : UInt32) (flags : UInt64) (name : CString)
    (found : Search) : Sfs F (ℤ × Option UInt64) := do
  match found with
  | .found it j =>
    let foundInumber := (Block.dirEntry it.cachedBlock j).inumber
    let _ ← onFs (sfsDirIterclose it)
    if flags &&& oExcl ≠ 0 then
      unlock
      return (-eexist, none)
    let some _ ← onFs (addLink foundInumber) |
      unlock
      return (-1, none)
    openHandle foundInumber flags
  | .stop directory => createNew context mode flags name directory

theorem sfsOpen_eq (path : CString) (flags : UInt64) :
    (sfsOpen fsLayer path flags : Sfs F _) = onName fsLayer path (openRest flags) := rfl

theorem sfsCreate_eq (context : FuseContext) (path : CString) (mode : UInt32) (flags : UInt64) :
    (sfsCreate fsLayer context path mode flags : Sfs F _) =
      onName fsLayer path (createRest context mode flags) := rfl

section Requests

variable {s t : SfsState F} {nodes A L : List UInt64} {path name : CString} {directory : Inode}
  {k flags : UInt64}

theorem openStrands_iff (h : s.looksFor path = some name) :
    s.OpenStrands path ↔ s.fs.HasName name ∧ s.NoHandle := by
  constructor
  · rintro ⟨name', hname', hstrands⟩
    cases h.symm.trans hname'
    exact hstrands
  · exact fun hstrands => ⟨name, h, hstrands⟩

theorem createStrands_iff (h : s.looksFor path = some name) : s.CreateStrands nodes path flags ↔
    s.fs.HasName name ∧ flags &&& oExcl = 0 ∧ s.NoHandle ∨
      ¬ s.fs.HasName name ∧ s.fs.superblock.freeInodeHead ≠ 0 ∧
        (s.fs.RefusesEntry nodes ∨ s.NoHandle) := by
  constructor
  · rintro ⟨name', hname', hstrands⟩
    cases h.symm.trans hname'
    exact hstrands
  · exact fun hstrands => ⟨name, h, hstrands⟩

/-- **An inode that has been taken is missing** from the list. -/
theorem not_noTrace_of_taken (h : FreeInodes s.fs (k :: L))
    (htaken : t.fs.superblock.freeInodeHead = s.fs.nextInode k) : ¬ NoTrace s t := by
  intro hnone
  have hhead := ((hnone.free (k :: L)).mpr h).linked.1
  exact h.linked.next_ne (htaken.symm.trans hhead)

/-- **A new file**, if there is an inode. -/
theorem createNew_settles (h : s.WellFormed nodes A L)
    (hs : Searched s nodes A L name (.stop directory) t) (context : FuseContext) (mode : UInt32) :
    Run.Ensures (createNew context mode flags name directory) t
      (Settles s (s.fs.superblock.freeInodeHead ≠ 0 ∧ (s.fs.RefusesEntry nodes ∨ s.NoHandle))) := by
  have hr := h.toRooted
  obtain ⟨hdirectory, -⟩ := hs.answer
  have hhead : t.fs.superblock.freeInodeHead = s.fs.superblock.freeInodeHead := by
    rw [hs.browsed.superblock]
  rw [createNew]
  cases L with
  | nil =>
    have h0 : s.fs.superblock.freeInodeHead = 0 := h.list.linked
    refine (onFs_ensures (Run.Ensures.of_eq (sfsFsInodeAllocate_of_head_eq_zero (hhead.trans h0))
      (Q := fun answer fs' => answer = none ∧ fs' = t.fs) ⟨rfl, rfl⟩)).bind ?_
    rintro _ t₁ ⟨⟨rfl, hfs⟩, hpool⟩
    have hbrowsed : Browsed s.fs t₁.fs := by
      rw [hfs]
      exact hs.browsed
    exact unlock_pure_ensures
      (Settles.of_noTrace (NoTrace.of_browsed hr hbrowsed (hpool.trans hs.pool)) fun hS => hS.1 h0)
  | cons k L =>
    have hk := h.list.valid k List.mem_cons_self
    have hne : s.fs.superblock.freeInodeHead ≠ 0 := by
      rw [h.list.linked.1]
      exact h.list.linked.2.1
    have hlist := hs.rooted.list
    have hkt := hlist.valid k List.mem_cons_self
    refine (onFs_ensures hs.rooted.allocateInode_ends).bind ?_
    rintro _ t₁ ⟨⟨rfl, h₁, hw₁⟩, hp₁⟩
    have hown := hlist.own k List.mem_cons_self
    generalize t.fs.logicalInode k = file at hown
    dsimp only
    refine (onFs_ensures (hw₁.newFile_ensures h₁ context mode directory file)).bind ?_
    rintro v t₂ ⟨⟨hv, h₂, hw₂⟩, hp₂⟩
    rw [hown] at hv
    refine (onFs_ensures (hw₂.writeInode_ensures h₂ hv hkt (hs.rooted.apart k List.mem_cons_self)
      (List.nodup_cons.mp hlist.nodup).1)).bind ?_
    rintro _ t₃ ⟨⟨rfl, h₃, hw₃⟩, hp₃⟩
    rw [if_neg (by simp)]
    have hvalid : t₃.fs.superblock.ValidInumber v.inumber := by
      rw [hv, Superblock.ValidInumber, hw₃.inodes]
      exact hkt
    have hdir : directory = t₃.fs.logicalInode 1 := hdirectory.trans hw₃.directory.symm
    have hrefuses : t₃.fs.RefusesEntry nodes ↔ s.fs.RefusesEntry nodes :=
      (hw₃.toSameRoot.refusesEntry hs.rooted.rootImage).trans
        (hs.browsed.sameRoot.refusesEntry hr.rootImage)
    rw [hdir]
    obtain ⟨path, hpath⟩ := hs.looked
    refine (onFs_ensures (sfsDirLink_ends h₃ (looksFor_short hpath) hvalid)).bind ?_
    rintro ⟨ret, linked⟩ t₄ ⟨⟨hsettled, hret⟩, hp₄⟩
    have hnext : t₄.fs.superblock.freeInodeHead = s.fs.nextInode k :=
      (hsettled.head.trans hw₃.next).trans (hs.browsed.nextInode hk.1)
    dsimp only at hret ⊢
    rw [hrefuses] at hret
    by_cases h0 : ret = 0
    · rw [if_neg (not_not.mpr h0)]
      refine openHandle_settles (hp₄.trans (hp₃.trans (hp₂.trans (hp₁.trans hs.pool)))) ?_ ?_ ?_ _ _
      · rw [hsettled.mallocs, hw₃.mallocs]
        exact hs.mallocs
      · exact ⟨fun hS => hS.2.resolve_left (hret.mp h0), fun hS => ⟨hne, Or.inr hS⟩⟩
      · intro s' hfs
        refine not_noTrace_of_taken h.list ?_
        rcases hfs with e | e
        · rw [e]
          exact hnext
        · rw [e]
          exact hnext
    · rw [if_pos h0]
      refine unlock_pure_ensures (Settles.of_trace (iff_of_false (by simp) ?_) ?_)
      · exact not_not.mpr ⟨hne, Or.inl (not_not.mp fun hgoes => h0 (hret.mpr hgoes))⟩
      · exact not_noTrace_of_taken h.list hnext

/-- **`sfs_open`** strands a link, or leaves no trace when it fails. -/
theorem sfsOpen_settles (h : s.WellFormed nodes A L) (path : CString) (flags : UInt64) :
    Run.Ensures (sfsOpen fsLayer path flags) s (Settles s (s.OpenStrands path)) := by
  rw [sfsOpen_eq]
  refine onName_ensures h (fun hnone r s' htrace => Settles.of_noTrace htrace ?_) ?_
  · rintro ⟨name, hname, -⟩
    rw [hnone] at hname
    cases hname
  intro name found t hname hs
  cases found with
  | found it j =>
    rw [openRest]
    refine (hs.close_ensures it).bind fun _ t' hs' => ?_
    refine addLink_settles h hs' ?_ flags fun file hfile => by rw [← hfile]
    rw [openStrands_iff hname]
    exact and_iff_right ⟨_, hs.answer⟩
  | stop directory =>
    refine unlock_pure_ensures (Settles.of_noTrace
      (NoTrace.of_browsed h.toRooted hs.browsed hs.pool) ?_)
    rw [openStrands_iff hname]
    exact fun hS => hs.answer.2 hS.1

/-- **`sfs_create`** strands a link or an inode, or leaves no trace when it fails. -/
theorem sfsCreate_settles (h : s.WellFormed nodes A L) (context : FuseContext) (path : CString)
    (mode : UInt32) (flags : UInt64) :
    Run.Ensures (sfsCreate fsLayer context path mode flags) s
      (Settles s (s.CreateStrands nodes path flags)) := by
  rw [sfsCreate_eq]
  refine onName_ensures h (fun hnone r s' htrace => Settles.of_noTrace htrace ?_) ?_
  · rintro ⟨name, hname, -⟩
    rw [hnone] at hname
    cases hname
  intro name found t hname hs
  cases found with
  | found it j =>
    have hhas : s.fs.HasName name := ⟨_, hs.answer⟩
    have hiff : s.CreateStrands nodes path flags ↔ flags &&& oExcl = 0 ∧ s.NoHandle := by
      rw [createStrands_iff hname, and_iff_right hhas]
      exact or_iff_left fun hnew => hnew.1 hhas
    rw [createRest]
    refine (hs.close_ensures it).bind fun _ t' hs' => ?_
    by_cases hexcl : flags &&& oExcl = 0
    · rw [if_neg (not_not.mpr hexcl)]
      refine addLink_settles h hs' ?_ flags fun file hfile => rfl
      rw [hiff]
      exact and_iff_right hexcl
    · rw [if_pos hexcl]
      refine unlock_pure_ensures (Settles.of_noTrace
        (NoTrace.of_browsed h.toRooted hs'.browsed hs'.pool) ?_)
      rw [hiff]
      exact fun hS => hexcl hS.1
  | stop directory =>
    refine (createNew_settles h hs context mode).mono fun r s' hsettles => ?_
    have hiff : s.CreateStrands nodes path flags ↔
        s.fs.superblock.freeInodeHead ≠ 0 ∧ (s.fs.RefusesEntry nodes ∨ s.NoHandle) := by
      rw [createStrands_iff hname, and_iff_right hs.answer.2]
      exact or_iff_right fun hfound => hs.answer.2 hfound.1
    rw [hiff]
    exact hsettles

/-- **Failed opens and creates leave no trace** exactly when they strand nothing. -/
theorem failed_requests_leave_no_trace_iff (h : s.WellFormed nodes A L) (path : CString)
    (flags : UInt64) :
    (s.LeavesNoTrace (sfsOpen fsLayer path flags) ↔ ¬ s.OpenStrands path) ∧
      ∀ context mode, s.LeavesNoTrace (sfsCreate fsLayer context path mode flags) ↔
        ¬ s.CreateStrands nodes path flags :=
  ⟨leavesNoTrace_iff (sfsOpen_settles h path flags),
    fun context mode => leavesNoTrace_iff (sfsCreate_settles h context path mode flags)⟩

end Requests

/-! ## A disk without a free block -/

/-- The empty root directory of that disk, on which inode 3 is free. -/
def emptyRoot : SfsState Unit where
  mu := []
  fdPool := sfsFiledescriptorPoolInit
  fs := Filesystem.full

theorem block_full_one : Filesystem.full.disk.block 1 = fullInodes := by
  have h2 : (2 : UInt64).toNat ≠ 1 := by decide
  rw [Filesystem.full, Filesystem.block_writeBlock_of_ne _ (holds_fullDisk (by decide) _) h2]
  exact Filesystem.block_writeBlock _ _ _

theorem logicalInode_full {k : UInt64} (hk : inodeBlock k = 1) :
    Filesystem.full.logicalInode k = fullInodes.inode (inodeSlot k) := by
  have hcached : Filesystem.full.cachedBlock ≠ 1 := by decide
  rw [Filesystem.logicalInode, Filesystem.tableBlock, hk, if_neg hcached]
  exact congrArg (fun b => Block.inode b (inodeSlot k)) block_full_one

theorem logicalInode_full_one : Filesystem.full.logicalInode 1 =
    { Inode.zero with inumber := 1, mode := sIfdir, links := 1 } := by
  rw [logicalInode_full (by decide), show inodeSlot 1 = 0 from rfl, fullInodes,
    Block.inode_setInode_of_ne _ _ (by decide), Block.inode_setInode _ _ (by decide)]

theorem logicalInode_full_three : Filesystem.full.logicalInode 3 =
    { Inode.zero with inumber := 3 } := by
  rw [logicalInode_full (by decide), show inodeSlot 3 = 2 from rfl, fullInodes,
    Block.inode_setInode _ _ (by decide)]

theorem rooted_full : Rooted Filesystem.full [] [1] [3] := by
  have howned : Filesystem.full.ownedBy 1 = [] := by
    rw [Filesystem.ownedBy, logicalInode_full_one]
    rfl
  have hcensus : census Filesystem.full [] [1] [] = [] := by
    rw [census, poolOf_nil, List.flatMap_cons, howned]
    rfl
  have hlength : Filesystem.full.rootLength = 0 := by
    rw [Filesystem.rootLength, logicalInode_full_one]
    rfl
  have hvalid : ∀ k, k = 1 ∨ k = 3 → Filesystem.full.superblock.ValidInumber k := by
    rintro k (rfl | rfl)
    · constructor <;> decide
    · constructor <;> decide
  refine ⟨⟨inodeState_full, rfl, List.nodup_singleton 1, fun k hk => ?_, ?_, fun b hb => ?_⟩,
    ⟨⟨rfl, by decide, ?_⟩, fun k hk => ?_, fun k hk => ?_⟩, fun k hk hA => ?_, by decide,
    List.mem_singleton_self 1, ?_, ?_, ?_, ?_, fun name k hname => ?_⟩
  · exact hvalid k (Or.inl (List.mem_singleton.mp hk))
  · rw [hcensus]
    exact List.nodup_nil
  · rw [hcensus] at hb
    exact absurd hb List.not_mem_nil
  · show (Filesystem.full.logicalInode 3).size = 0
    rw [logicalInode_full_three]
    rfl
  · exact hvalid k (Or.inr (List.mem_singleton.mp hk))
  · rw [List.mem_singleton.mp hk, logicalInode_full_three]
  · have hne : (3 : UInt64) ≠ 1 := by decide
    exact hne ((List.mem_singleton.mp hk).symm.trans (List.mem_singleton.mp hA))
  · rw [logicalInode_full_one]
  · rw [logicalInode_full_one]
    decide
  · rw [hlength, logicalInode_full_one]
    rfl
  · rw [hlength]
    exact Nat.zero_le _
  · obtain ⟨i, hi, -⟩ := hname
    rw [hlength] at hi
    exact absurd hi (Nat.not_lt_zero i)

theorem wellFormed_emptyRoot : emptyRoot.WellFormed [] [1] [3] :=
  ⟨rooted_full, by decide⟩

theorem not_hasName_emptyRoot (name : CString) : ¬ emptyRoot.fs.HasName name := by
  rintro ⟨k, i, hi, -⟩
  rw [show emptyRoot.fs.rootLength = Filesystem.full.rootLength from rfl, Filesystem.rootLength,
    logicalInode_full_one] at hi
  exact absurd hi (Nat.not_lt_zero i)

theorem refusesEntry_emptyRoot : emptyRoot.fs.RefusesEntry [] := by
  have hfull : Filesystem.full.nextFree = none := by
    rw [Filesystem.nextFree]
    exact if_pos rfl
  have hresolve : Filesystem.full.disk.resolve (Filesystem.full.logicalInode 1)
      (UInt64.ofNat Filesystem.full.rootPlace) = some 0 := by
    have hlength : Filesystem.full.rootLength = 0 := by
      rw [Filesystem.rootLength, logicalInode_full_one]
      rfl
    have hplace : Filesystem.full.rootPlace = 0 := by
      have hle := (rootPlace_spec Filesystem.full).1
      omega
    rw [hplace, logicalInode_full_one]
    rfl
  exact (refuses_iff hresolve).mpr ⟨rfl, fun n hn => by rw [hfull] at hn; cases hn⟩

theorem createStrands_emptyRoot : emptyRoot.CreateStrands [] [slash, 97] 0 :=
  ⟨[97], by decide, Or.inr ⟨not_hasName_emptyRoot _, by decide, Or.inl refusesEntry_emptyRoot⟩⟩

/-- There a `sfs_open` that fails leaves no trace, and a `sfs_create` does. -/
theorem failed_requests_leave_no_trace_emptyRoot :
    emptyRoot.LeavesNoTrace (sfsOpen fsLayer [slash, 97] 0) ∧
      ¬ emptyRoot.LeavesNoTrace (sfsCreate fsLayer ⟨0, 0, 0⟩ [slash, 97] 0o644 0) := by
  obtain ⟨hopen, hcreate⟩ :=
    failed_requests_leave_no_trace_iff wellFormed_emptyRoot [slash, 97] 0
  refine ⟨hopen.mpr ?_, fun hleaves => (hcreate _ _).mp hleaves createStrands_emptyRoot⟩
  rintro ⟨name, -, hname, -⟩
  exact not_hasName_emptyRoot name hname

/-- **A `sfs_create` that finds no block for the entry** fails, and has left a trace. -/
theorem create_fails_with_a_trace : emptyRoot.WellFormed [] [1] [3] ∧ ∃ r s',
    (sfsCreate fsLayer ⟨0, 0, 0⟩ [slash, 97] 0o644 0).run emptyRoot = .done r s' ∧
      r.1 ≠ 0 ∧ ¬ NoTrace emptyRoot s' := by
  obtain ⟨r, s', hrun, hdone, hfailed⟩ :=
    sfsCreate_settles wellFormed_emptyRoot ⟨0, 0, 0⟩ [slash, 97] 0o644 0
  have hr : r.1 ≠ 0 := fun h0 => hdone h0 createStrands_emptyRoot
  exact ⟨wellFormed_emptyRoot, r, s', hrun, hr,
    fun htrace => (hfailed hr).mp htrace createStrands_emptyRoot⟩

end SimpleFileSystem
