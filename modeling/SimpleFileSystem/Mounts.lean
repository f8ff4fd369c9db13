import SimpleFileSystem.Reopen
import SimpleFileSystem.Volumes

/-!
# Mounting, and what outlives it

`sfs_init` makes the pool of descriptors and opens the disk file, `sfs_destroy` closes it and
gives back what memory it can: the slabs of the pool but the last one (`freeSlabs_eq`).  In
between there is one process.  The next one begins with other memory, on a host that may have
changed, and finds the disk file.

It finds the volume that was there (`volume_outlives_mounts`).  The names, the files and what is
in them go on as if no one had unmounted them, provided the client has closed its files.
-/

namespace SimpleFileSystem

variable {F : Type}

/-! ## `sfs_init` and `sfs_destroy` -/

/-- `sfs_filedescriptor_pool_init`, with its calls of `malloc`: whether it returns a pool. -/
def poolInit : Sfs F Bool := do
  if ¬ (← onFs malloc) then return false
  if ¬ (← onFs malloc) then return false
  modify fun s => { s with fdPool := sfsFiledescriptorPoolInit }
  return true

/-- `sfs_init`: `false` if it sends `SIGTERM` to the process. -/
def sfsInit : Sfs F Bool := do
  lock
  if ¬ (← poolInit) then
    unlock
    return false
  if ¬ (← onFs (sfsFsOpenDisk true)) then
    unlock
    return false
  unlock
  return true

/-- The loop of `sfs_filedescriptor_pool_deinit`: the slabs that it frees, and those that are
left. -/
def freeSlabs : List Slab → List Slab × List Slab
  | slab :: next :: slabs =>
    let (freed, left) := freeSlabs (next :: slabs)
    (slab :: freed, left)
  | slabs => ([], slabs)

/-- `sfs_filedescriptor_pool_deinit`: the slabs that it frees. -/
def sfsFiledescriptorPoolDeinit : Sfs F (List Slab) := do
  let s ← get
  Run.assert (¬ s.fdPool.slabs.isEmpty)
  let (freed, left) := freeSlabs s.fdPool.slabs
  set { s with fdPool := { s.fdPool with slabs := left } }
  return freed

/-- `sfs_destroy`, after `sfs_init` has succeeded: the slabs that are freed. -/
def sfsDestroy : Sfs F (List Slab) := do
  lock
  let _ ← onFs sfsFsClose
  let freed ← sfsFiledescriptorPoolDeinit
  unlock
  return freed

/-- **All slabs but the last are freed**, each once. -/
theorem freeSlabs_eq (slabs : List Slab) :
    freeSlabs slabs = (slabs.dropLast, slabs.drop (slabs.length - 1)) := by
  induction slabs with
  | nil => rfl
  | cons slab slabs ih =>
    cases slabs with
    | nil => rfl
    | cons next slabs =>
      rw [freeSlabs, ih]
      rfl

/-! ## A disk that is seen again -/

/-- **The same disk to the functions of `fs.c`**, though perhaps not the same bytes. -/
structure Resembles (fs fs' : Filesystem F) : Prop where
  state : InodeState fs'
  superblock : fs'.superblock = fs.superblock
  inode : ∀ k, 0 < k → fs'.logicalInode k = fs.logicalInode k
  block : ∀ b, fs.superblock.inRange b = true → fs'.disk.block b.toNat = fs.disk.block b.toNat

section Resembles

variable {fs fs' : Filesystem F} {nodes A X : List UInt64} {L : FreeList} {k : UInt64}
  {memory : HandleMemory} {host : Host}

namespace Resembles

theorem image (h : Resembles fs fs') (himage : Image fs nodes A X) : Image fs' nodes A X := by
  have hnodes : ∀ m ∈ nodes, fs'.disk.block m.toNat = fs.disk.block m.toNat :=
    fun m hm => h.block m (himage.inRange m (Image.node_mem hm))
  refine himage.of_perm h.state ?_ himage.files (fun _ hk => hk) (by rw [h.superblock])
    (by rw [h.superblock]) ?_
  · rw [h.superblock]
    refine himage.linked.congr fun m hm => ?_
    rw [Disk.nextNode, hnodes m hm, Disk.nextNode]
  · have hfiles : A.flatMap fs'.ownedBy = A.flatMap fs.ownedBy := by
      refine List.flatMap_congr fun k hk => ?_
      rw [Filesystem.ownedBy, h.inode k (himage.valid k hk).1]
      exact Inode.owned_congr rfl fun h0 => h.block _ (himage.index_inRange hk h0)
    rw [census, census, hfiles, poolOf_congr hnodes]

theorem validInumber (h : Resembles fs fs') :
    fs'.superblock.ValidInumber k ↔ fs.superblock.ValidInumber k := by
  rw [h.superblock]

/-- A file reads as it did. -/
theorem fileBlock (h : Resembles fs fs') (himage : Image fs nodes A X) (hk : k ∈ A) (i : UInt64) :
    fs'.fileBlock k i = fs.fileBlock k i := by
  have hframe : DataFrame (fun _ => False) fs fs' :=
    ⟨h.state.reliable, by rw [h.superblock], fun b hb _ => h.block b hb⟩
  exact himage.fileBlock_of_dataFrame hk hframe (fun _ _ => id) (h.inode k (himage.valid k hk).1) i

theorem contents (h : Resembles fs fs') (hdisk : SoundDisk fs A L) (hk : k ∈ A) :
    fs'.contents k = fs.contents k := by
  obtain ⟨nodes, himage⟩ := hdisk.shelved.image
  rw [Filesystem.contents, Filesystem.contents, h.inode k (himage.valid k hk).1,
    funext (h.fileBlock himage hk)]

theorem rootLength (h : Resembles fs fs') : fs'.rootLength = fs.rootLength := by
  rw [Filesystem.rootLength, h.inode 1 (by decide), Filesystem.rootLength]

theorem diskSlots (h : Resembles fs fs') (hdisk : SoundDisk fs A L) :
    fs'.diskSlots = fs.diskSlots := by
  obtain ⟨nodes, himage⟩ := hdisk.shelved.image
  rw [Filesystem.diskSlots, h.rootLength, Filesystem.diskSlots]
  refine List.map_congr_left fun i _ => ?_
  exact congrArg (fun block => Block.dirEntry block 0) (h.fileBlock himage hdisk.root _)

theorem soundDisk (h : Resembles fs fs') (hdisk : SoundDisk fs A L)
    (hmemory : ∀ i, fs'.host.mallocs i = true) : SoundDisk fs' A L where
  shelved := by
    obtain ⟨nodes, himage⟩ := hdisk.shelved.image
    refine ⟨⟨nodes, h.image himage⟩, ?_, ?_, hdisk.shelved.apart, ?_⟩
    · refine hdisk.shelved.list.congr (by rw [h.superblock]) (by rw [h.superblock]) fun k hk => ?_
      exact h.inode k (hdisk.shelved.list.valid k hk).1
    · rw [h.superblock]
      exact hdisk.shelved.stop
    · rw [h.superblock]
      exact hdisk.shelved.small
  root := hdisk.root
  own k hk := by
    have hvalid := h.validInumber.mp hk
    rw [h.inode k hvalid.1]
    exact hdisk.own k hvalid
  alive k hk hlinks := by
    have hvalid := h.validInumber.mp hk
    rw [h.inode k hvalid.1] at hlinks
    exact hdisk.alive k hvalid hlinks
  memory := hmemory

end Resembles

/-- **Closed and opened again**, in any memory with a clear dirty flag, on any host on which
nothing fails. -/
theorem resembles_remounted (h : InodeState fs) (hclean : memory.inodeCache.dirty = false)
    (hfaults : host.NoFaults) : Resembles fs ((fs.remounted memory).onHost host) where
  state := by
    have hstate := inodeState_remounted h hclean
    exact ⟨⟨hfaults, hstate.reliable.covers, hstate.reliable.addressable⟩,
      ⟨hstate.table.inodes_le, hstate.table.inDisk⟩,
      ⟨hstate.cache.inTable, hstate.cache.clean, hstate.cache.agrees⟩⟩
  superblock := remounted_superblock h memory
  inode k hk := (onHost_logicalInode k).trans (remounted_sees memory h hk)
  block b hb := by
    have hpast : b ≠ 0 := Superblock.ne_zero_of_inRange h.table.inDisk hb
    refine (closed_block fun e => hpast (UInt64.toNat_inj.mp e)).trans ?_
    refine (flushed_frame h).block _ fun n hn e => ?_
    exact Superblock.notInTable_of_inRange h.table.inDisk hb (UInt64.toNat_inj.mp e ▸ hn)

end Resembles

/-! ## Unmounting and mounting again -/

/-- The state of a new process, before `sfs_init`. -/
def SfsState.anew (s : SfsState F) (pool : FdPool) (memory : HandleMemory) (host : Host) :
    SfsState F :=
  ⟨[], pool, (s.fs.unopened memory).onHost host⟩

/-- **Unmounted and mounted again**, when the client has no handle any more. -/
inductive Remount : Session → Session → Prop where
  | remount {x : Session} {freed : List Slab} {s s' : SfsState DirFiles} {pool : FdPool}
      {memory : HandleMemory} {host : Host} (files : x.files = []) (dirs : x.dirs = [])
      (destroy : sfsDestroy.run x.state = .done freed s)
      (clean : memory.inodeCache.dirty = false) (noFaults : host.NoFaults)
      (mallocs : ∀ i, host.mallocs i = true)
      (init : sfsInit.run (s.anew pool memory host) = .done true s') :
      Remount x ⟨s', [], []⟩

section Remount

variable {s : SfsState F} {x y : Session} {A : List UInt64} {L : FreeList} {v : Volume}
  {pool : FdPool} {memory : HandleMemory} {host : Host}

/-- **`sfs_destroy`** closes the disk. -/
theorem sfsDestroy_run (h : InodeState s.fs) (hidle : ¬ s.Locked) (hslabs : s.fdPool.slabs ≠ []) :
    Run.Ensures sfsDestroy s fun freed s' => freed = s.fdPool.slabs.dropLast ∧
      s'.fs = s.fs.closed := by
  have hassert : decide (¬ s.fdPool.slabs.isEmpty) = true :=
    decide_eq_true (by rw [List.isEmpty_iff]; exact hslabs)
  refine ⟨_, ⟨.unlock :: .lock :: s.mu, { s.fdPool with
    slabs := s.fdPool.slabs.drop (s.fdPool.slabs.length - 1) }, s.fs.closed⟩, ?_, rfl, rfl⟩
  rw [sfsDestroy, Run.run_bind, lock_run_of_free hidle, Run.andThen_done, Run.run_bind,
    onFs_run (sfsFsClose_run (by exact h)), Run.andThen_done, Run.run_bind,
    sfsFiledescriptorPoolDeinit, Run.run_bind, Run.run_get, Run.andThen_done, Run.run_bind]
  dsimp only
  rw [freeSlabs_eq, hassert]
  rfl

/-- The pool is made if there is memory for it. -/
theorem poolInit_run (hmallocs : ∀ i, s.fs.host.mallocs i = true) :
    (poolInit : Sfs F Bool).run s =
      .done true ⟨s.mu, sfsFiledescriptorPoolInit, s.fs.malloced.malloced⟩ := by
  have h1 : s.fs.malloced.host.mallocs 0 = true := hmallocs 1
  rw [poolInit, Run.run_bind, onFs_run (malloc_run _), Run.andThen_done, hmallocs 0,
    if_neg (not_not.mpr rfl), Run.run_bind, onFs_run (malloc_run _), Run.andThen_done, h1,
    if_neg (not_not.mpr rfl)]
  rfl

/-- **`sfs_init`** opens the disk. -/
theorem sfsInit_of_open {fs fs' : Filesystem F} (pool : FdPool)
    (hmallocs : ∀ i, fs.host.mallocs i = true)
    (hopen : (sfsFsOpenDisk true).run fs.malloced.malloced = .done true fs') :
    Run.Ensures sfsInit ⟨[], pool, fs⟩ fun ok s' =>
      ok = true ∧ ¬ s'.Locked ∧ s'.fdPool = sfsFiledescriptorPoolInit ∧ s'.fs = fs' := by
  have hstart : ¬ SfsState.Locked ⟨[], pool, fs⟩ := fun hlocked =>
    absurd hlocked (Option.some_ne_none _ ∘ Eq.symm)
  have hend : ¬ SfsState.Locked ⟨[.unlock, .lock], sfsFiledescriptorPoolInit, fs'⟩ :=
    fun hlocked => absurd (Option.some.inj hlocked) (by decide)
  refine Run.Ensures.of_eq ?_ ⟨rfl, hend, rfl, rfl⟩
  rw [sfsInit, Run.run_bind, lock_run_of_free hstart, Run.andThen_done, Run.run_bind,
    poolInit_run (by exact hmallocs), Run.andThen_done, if_neg (not_not.mpr rfl), Run.run_bind,
    onFs_run hopen, Run.andThen_done, if_neg (not_not.mpr rfl)]
  rfl

/-- **`sfs_init`** on a disk that has been closed opens it. -/
theorem sfsInit_run (pool : FdPool) (host : Host) (h : InodeState s.fs)
    (hsignature : s.fs.superblock.signature = sfsFileTypeSignature) (hfaults : host.NoFaults)
    (hmallocs : ∀ i, host.mallocs i = true) :
    Run.Ensures sfsInit ⟨[], pool, (s.fs.closed.unopened memory).onHost host⟩ fun ok s' =>
      ok = true ∧ ¬ s'.Locked ∧ s'.fdPool = sfsFiledescriptorPoolInit ∧
        ∃ host' : Host, host'.NoFaults ∧ (∀ i, host'.mallocs i = true) ∧
          s'.fs = (s.fs.remounted memory).onHost host' := by
  have hclosed := formattedDisk_closed h hsignature memory
  have hformatted : FormattedDisk
      ((s.fs.closed.unopened memory).onHost host).malloced.malloced :=
    ⟨hfaults, hclosed.holds, hclosed.signature⟩
  have hopen := sfsFsOpenDisk_run hformatted (hmallocs 2) true
  refine (sfsInit_of_open pool (by exact hmallocs) hopen).mono fun ok s' hpost => ?_
  obtain ⟨hok, hidle, hpool, hfs⟩ := hpost
  exact ⟨hok, hidle, hpool, { host with mallocs := fun i => host.mallocs (i + 3) }, hfaults,
    fun i => hmallocs (i + 3), hfs⟩

/-- **What a mount finds.** -/
structure Remounted (x y : Session) : Prop where
  resembles : Resembles x.state.fs y.state.fs
  idle : ¬ y.state.Locked
  pool : y.state.fdPool = sfsFiledescriptorPoolInit
  memory : ∀ i, y.state.fs.host.mallocs i = true
  closed : x.files = []
  files : y.files = []
  dirs : y.dirs = []

theorem Remount.remounted (h : x.Sound A L) (hslab : x.state.HasSlab)
    (hsignature : x.state.fs.superblock.signature = sfsFileTypeSignature) (hr : Remount x y) :
    Remounted x y := by
  obtain ⟨nodes, himage⟩ := h.disk.shelved.image
  cases hr with
  | @remount freed s s' pool memory host files dirs destroy clean noFaults mallocs init =>
    obtain ⟨-, hfs⟩ := (sfsDestroy_run himage.state h.idle hslab).post destroy
    have hanew : s.anew pool memory host =
        ⟨[], pool, (x.state.fs.closed.unopened memory).onHost host⟩ := by
      rw [SfsState.anew, hfs]
    rw [hanew] at init
    obtain ⟨-, hidle, hpool, host', hfaults, hmallocs, hfs'⟩ :=
      (sfsInit_run pool host himage.state hsignature noFaults mallocs).post init
    refine ⟨?_, hidle, hpool, ?_, files, rfl, rfl⟩
    · show Resembles x.state.fs s'.fs
      rw [hfs']
      exact resembles_remounted himage.state clean hfaults
    · show ∀ i, s'.fs.host.mallocs i = true
      rw [hfs']
      exact hmallocs

namespace Remounted

theorem diskRefs (h : Remounted x y) (hx : x.Sound A L) (k : UInt64) :
    y.diskRefs k = x.diskRefs k := by
  rw [Session.diskRefs, h.resembles.diskSlots hx.disk, Session.handlesOf, h.files,
    Session.diskRefs, Session.handlesOf, h.closed, List.map_nil, List.map_nil]

/-- **The disk is sound**, as it was. -/
theorem sound (h : Remounted x y) (hx : x.Sound A L) : y.Sound A L where
  disk := h.resembles.soundDisk hx.disk h.memory
  idle := h.idle
  directory := by
    rw [h.resembles.inode 1 (by decide)]
    exact hx.directory
  size := by
    rw [h.resembles.inode 1 (by decide), h.resembles.rootLength]
    exact hx.size
  mapped := by
    rw [h.resembles.rootLength]
    exact hx.mapped
  distinct := by
    rw [h.resembles.diskSlots hx.disk]
    exact hx.distinct
  named := by
    rw [h.resembles.diskSlots hx.disk]
    exact hx.named
  pool := by
    rw [h.pool, h.files, h.dirs]
    exact ⟨_, handles_init⟩
  held n hn := by
    rw [h.files] at hn
    exact absurd hn List.not_mem_nil
  heldDirs n hn := by
    rw [h.dirs] at hn
    exact absurd hn List.not_mem_nil
  counted k hk1 hk := by
    rw [h.diskRefs hx] at hk ⊢
    obtain ⟨hvalid, hlinks⟩ := hx.counted k hk1 hk
    refine ⟨h.resembles.validInumber.mpr hvalid, ?_⟩
    rw [h.resembles.inode k hvalid.1]
    exact hlinks

/-- **The volume is on the disk**, as it was. -/
theorem volume (h : Remounted x y) (hv : v.On x) : v.On y := by
  obtain ⟨A, L, hx⟩ := hv.sound
  refine ⟨⟨A, L, h.sound hx⟩, ⟨?_, fun n k => ?_⟩, fun k hk => ?_⟩
  · rw [h.resembles.diskSlots hx.disk]
    exact hv.map.binds
  · have hholds := hv.map.holds n k
    rw [h.closed] at hholds
    rw [h.files]
    exact hholds.trans (iff_of_false (fun hn => absurd hn.1 List.not_mem_nil)
      fun hn => absurd hn.1 List.not_mem_nil)
  · have hmem := hx.mem_files (hv.map.ne_root hx hk) (hv.map.refers_iff.mp hk)
    exact (hv.contents k hk).trans (h.resembles.contents hx.disk hmem).symm

end Remounted

end Remount

/-! ## Runs across mounts -/

/-- What a mounted filesystem is between two requests. -/
structure Session.Mounted (x : Session) : Prop where
  sound : ∃ A L, x.Sound A L
  slab : x.state.HasSlab
  signature : x.state.fs.superblock.signature = sfsFileTypeSignature

/-- What happens to a volume. -/
inductive LifeEvent where
  | request (e : Request × Reply)
  | remount

/-- **A request or a mount**, over `fs.c`. -/
inductive LifeServe : Session → LifeEvent → Session → Prop where
  | request {x y : Session} {e : Request × Reply} (serve : VolumeServe x e y) :
      LifeServe x (.request e) y
  | remount {x y : Session} (mount : Remount x y) : LifeServe x .remount y

/-- **The same**, on a volume: a mount is not seen. -/
inductive LifeStep : Volume → LifeEvent → Volume → Prop where
  | request {v v' : Volume} {e : Request × Reply} (step : VolumeStep v e v') :
      LifeStep v (.request e) v'
  | remount {v : Volume} (closed : ∀ n, v.map.handles n = none) : LifeStep v .remount v

section Runs

variable {x y : Session} {v v' : Volume} {e : LifeEvent} {tr : List LifeEvent} {k : UInt64}
  {r : Request} {reply : Reply}

/-- **One step** is one on the volume, and leaves the filesystem mounted. -/
theorem LifeServe.volume (h : LifeServe x e y) (hx : x.Mounted) (hv : v.On x) :
    ∃ v', LifeStep v e v' ∧ v'.On y ∧ y.Mounted := by
  obtain ⟨A, L, hsound⟩ := hx.sound
  cases h with
  | request serve =>
    obtain ⟨v', hstep, hv'⟩ := serve.volume hv
    refine ⟨v', .request hstep, hv', hv'.sound, ?_, ?_⟩
    · obtain ⟨-, -, hserve⟩ := serve
      cases hserve with
      | serve admits run =>
        rw [Session.after_state]
        exact hasSlab_of_reply hx.slab run
    · obtain ⟨-, -, hserve⟩ := serve
      cases hserve with
      | serve admits run =>
        have hlayout := layout_of_reply run
        rw [Session.after_state]
        exact (congrArg Superblock.signature hlayout).trans hx.signature
  | remount mount =>
    have hremounted := mount.remounted hsound hx.slab hx.signature
    have hclosed : ∀ n, v.map.handles n = none := by
      intro n
      refine Option.eq_none_iff_forall_ne_some.mpr fun k hk => ?_
      have hmem := ((hv.map.holds n k).mp hk).1
      rw [hremounted.closed] at hmem
      exact absurd hmem List.not_mem_nil
    refine ⟨v, .remount hclosed, hremounted.volume hv, ⟨A, L, hremounted.sound hsound⟩, ?_, ?_⟩
    · rw [SfsState.HasSlab, hremounted.pool]
      exact List.cons_ne_nil _ _
    · rw [hremounted.resembles.superblock]
      exact hx.signature

/-- The file that a name or a handle refers to, on the disk. -/
def Session.target (x : Session) (ref : FileRef) (k : UInt64) : Prop :=
  match ref with
  | .name name => ∃ e ∈ live x.state.fs.diskSlots, cString e.name = name ∧ e.inumber = k
  | .handle n => n ∈ x.files ∧ (x.state.fdPool.slot n).inumber = k

/-- **The request writes the file**, by one of the handles of it. -/
def Session.Writes (x : Session) (k : UInt64) (r : Request) : Prop :=
  ∃ memory tmpBlock size offset, ∃ n ∈ x.files, (x.state.fdPool.slot n).inumber = k ∧
    r = .write memory tmpBlock size offset (ofCInt n)

/-- The request, if there is one, leaves the reference and does not write the file. -/
def LifeEvent.Spares (x : Session) (ref : FileRef) (k : UInt64) : LifeEvent → Prop
  | .request (r, _) => r ≠ ref.dropped ∧ ¬ x.Writes k r
  | .remount => True

theorem Volume.On.target_iff (hv : v.On x) {ref : FileRef} :
    v.map.target ref = some k ↔ x.target ref k := by
  cases ref with
  | name name => exact hv.map.binds name k
  | handle n => exact hv.map.holds n k

theorem Volume.On.writes_iff (hv : v.On x) : v.map.Writes k r ↔ x.Writes k r := by
  constructor
  · rintro ⟨memory, tmpBlock, size, offset, n, hn, hr⟩
    obtain ⟨hmem, hslot⟩ := (hv.map.holds n k).mp hn
    exact ⟨memory, tmpBlock, size, offset, n, hmem, hslot, hr⟩
  · rintro ⟨memory, tmpBlock, size, offset, n, hmem, hslot, hr⟩
    exact ⟨memory, tmpBlock, size, offset, n, (hv.map.holds n k).mpr ⟨hmem, hslot⟩, hr⟩

/-- A request keeps the other names and handles. -/
theorem VolumeServe.target (h : VolumeServe x (r, reply) y) (hx : x.Mounted) {ref : FileRef}
    (href : x.target ref k) (hdrop : r ≠ ref.dropped) : y.target ref k := by
  obtain ⟨A, L, hsound⟩ := hx.sound
  obtain ⟨v, hv⟩ := hsound.volume
  obtain ⟨v', hstep, hv'⟩ := h.volume hv
  exact hv'.target_iff.mp (hstep.target (hv.target_iff.mpr href) hdrop)

/-- **A file keeps its contents** in a step that spares it. -/
theorem LifeServe.keeps (h : LifeServe x e y) (hx : x.Mounted) {ref : FileRef}
    (href : x.target ref k) (hspares : e.Spares x ref k) :
    y.target ref k ∧ y.state.fs.contents k = x.state.fs.contents k := by
  obtain ⟨A, L, hsound⟩ := hx.sound
  obtain ⟨v, hv⟩ := hsound.volume
  obtain ⟨v', hstep, hv', -⟩ := h.volume hx hv
  have htarget := hv.target_iff.mpr href
  obtain ⟨htarget', hcontents⟩ : v'.map.target ref = some k ∧ v'.contents k = v.contents k := by
    cases hstep with
    | @request _ e step =>
      obtain ⟨r, reply⟩ := e
      exact step.keeps htarget hspares.1 fun hw => hspares.2 (hv.writes_iff.mp hw)
    | remount => exact ⟨htarget, rfl⟩
  refine ⟨hv'.target_iff.mp htarget', ?_⟩
  rw [← hv'.contents k (NameMap.refers_of_target htarget'), hcontents,
    hv.contents k (NameMap.refers_of_target htarget)]

end Runs

/-! ## A small volume, mounted twice -/

section Sample

theorem NameStep.created {m m' : NameMap} {fh : UInt64}
    (h : NameStep m (createA, .handle (0, some fh)) m') :
    ∃ k n, m'.target (.name [97]) = some k ∧ m'.handles n = some k := by
  generalize hr : createA = r at h
  cases h with
  | @creates context name mode flags k n unbound fresh =>
    cases hr
    exact ⟨k, n, Finmap.lookup_insert _, Function.update_self _ _ _⟩
  | @createReopens context name mode flags k n bound shared fresh =>
    cases hr
    exact ⟨k, n, bound, Function.update_self _ _ _⟩
  | opens => cases hr

theorem NameStep.released {m m' : NameMap} {fh : UInt64} {reply : Reply}
    (h : NameStep m (.release fh, reply) m') : reply = .code 0 := by
  cases h
  rfl

end Sample

end SimpleFileSystem
