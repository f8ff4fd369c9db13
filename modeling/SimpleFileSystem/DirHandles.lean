import SimpleFileSystem.Volumes

/-!
# The handles of the root directory

`sfs_releasedir` takes a link of the root directory away, and `sfs_opendir` of `/` was to
add one: the statement is in its loop, behind the comparison of an entry with the empty
name.  So the count goes down by one for each handle that is closed (`CarefulServe.dirs` on
the array of the disk, `ReadyServe.dirs` over `fs.c`), and is right at the end of a run
exactly when the number of handles that were opened in it is a multiple of `2 ^ 32`
(`dir_links_iff`), where the count has come round.
-/

namespace SimpleFileSystem

/-! ## Counting -/

namespace Request

/-- A `sfs_opendir`. -/
def isOpendir : Request → Bool
  | opendir .. => true
  | _ => false

/-- A `sfs_releasedir`. -/
def isReleasedir : Request → Bool
  | releasedir _ => true
  | _ => false

end Request

/-- How many handles of the root directory were opened. -/
def opendirs (tr : List (Request × Reply)) : ℕ :=
  tr.countP fun e => e.1.isOpendir

/-- How many were closed. -/
def releasedirs (tr : List (Request × Reply)) : ℕ :=
  tr.countP fun e => e.1.isReleasedir

/-- The links of the root directory. -/
def Session.rootLinks (x : Session) : UInt32 :=
  (x.state.fs.logicalInode 1).links

/-- A request that meets its condition, over `sfs_fs_inode_allocate`. -/
def CarefulServe (x : Session) (e : Request × Reply) (y : Session) : Prop :=
  x.Careful e.1 ∧ Serve (loggedLayer sfsFsInodeAllocate) x e y

/-! ## One request -/

/-- The change closes a handle of the root directory. -/
def LedgerEvent.closes : LedgerEvent → Bool
  | closesDir _ => true
  | _ => false

section Step

variable {b b' : Ledger} {ev : LedgerEvent} {handsOut : View → UInt64 → UInt64 → Prop}
  {x y : Session} {r : Request} {reply : Reply} {A : List UInt64} {L : FreeList}

/-- A change of the ledger takes a link of the root directory away if it closes a handle. -/
theorem LedgerStep.rootLinks (h : LedgerStep handsOut b ev b') :
    (b'.view.table 1).links = (b.view.table 1).links - if ev.closes then 1 else 0 := by
  have hsame : ∀ links : UInt32, links = links - 0 := fun links =>
    UInt32.toNat_inj.mp (by simp)
  cases h with
  | look root touched => exact touched.links.trans (hsame _)
  | opens root named added handle => exact added.sets.rootLinks.trans (hsame _)
  | creates root fills fresh nonempty stored unused sets handed deallocated handle =>
    exact sets.rootLinks.trans (hsame _)
  | leaks root full used unused sets handed deallocated => exact sets.rootLinks.trans (hsame _)
  | unlinks slots used emptied root dropped => exact dropped.sets.rootLinks.trans (hsame _)
  | releases root inumber notRoot dropped handle => exact dropped.sets.rootLinks.trans (hsame _)
  | touches root held notRoot sets list => exact sets.rootLinks.trans (hsame _)
  | opensDir root touched handle perm => exact touched.links.trans (hsame _)
  | closesDir root inumber unlinked handle => exact unlinked.rootLinks

/-- Only `sfs_releasedir` closes one. -/
theorem Ledger.Answered.closes (h : b.Answered r reply ev) : ev.closes = r.isReleasedir := by
  have hmay := Ledger.Answered.may h
  cases r <;> cases ev <;> first | rfl | exact nomatch hmay

theorem Session.Describes.rootLinks (h : x.Describes b) :
    x.rootLinks = (b.view.table 1).links := by
  rw [Session.rootLinks, h.books.shows.table 1 h.books.balanced.root.valid]

/-- The handles of the root directory after a request. -/
theorem Session.Describes.length_dirs {s : SfsState DirFiles} (h : x.Describes b)
    (hadmits : x.Admits r) (hans : b.Answered r reply ev) :
    (x.after s reply r).dirs.length + (if r.isReleasedir then 1 else 0) =
      x.dirs.length + if r.isOpendir then 1 else 0 := by
  cases r with
  | opendir path flags =>
    cases reply with
    | handle a =>
      obtain ⟨n, rfl, rfl⟩ := hans
      rfl
    | _ => exact hans.elim
  | releasedir fh =>
    cases reply with
    | code a =>
      obtain ⟨n, hn, rfl⟩ := hadmits
      obtain ⟨rfl, -⟩ := hans
      have hfd := h.books.balanced.fd_of_opened (h.mem_opened (List.mem_append_right _ hn))
      show (x.dirs.erase (toCInt (ofCInt n)).toNat).length + 1 = x.dirs.length + 0
      rw [hfd, List.length_erase_of_mem hn]
      have hpos := List.length_pos_of_mem hn
      omega
    | _ => exact hans.elim
  | _ => rfl

/-- **One request on the array** takes a link away if it closes a handle. -/
theorem CarefulServe.dirs (h : x.Describes b) (hcreate : b.MayCreate sfsFsInodeAllocate Pops r)
    (hserve : CarefulServe x (r, reply) y) :
    y.rootLinks = x.rootLinks - (if r.isReleasedir then 1 else 0) ∧
    y.dirs.length + (if r.isReleasedir then 1 else 0) =
      x.dirs.length + if r.isOpendir then 1 else 0 := by
  obtain ⟨hcareful, hserve⟩ := hserve
  obtain ⟨ev, b', hstep, hy, hans⟩ := hserve.ledger h (h.meets hcareful hcreate)
  refine ⟨?_, ?_⟩
  · rw [hy.rootLinks, h.rootLinks, hstep.rootLinks, Ledger.Answered.closes hans]
  · cases hserve with
    | serve admits run => exact h.length_dirs admits hans

/-! ### Over the disk -/

/-- The links of the root directory are those on its array. -/
theorem Session.Sound.rootLinks (h : x.Sound A L) : x.onArray.rootLinks = x.rootLinks :=
  h.describes.rootLinks.trans (h.table (h.disk.paired.mirrors.mem_valid h.disk.root)).links

/-- **A request that transfers no data.** -/
theorem DiskServe.dirs (h : x.Sound A L) (hserve : DiskServe x (r, reply) y) :
    y.rootLinks = x.rootLinks - (if r.isReleasedir then 1 else 0) ∧
    y.dirs.length + (if r.isReleasedir then 1 else 0) =
      x.dirs.length + if r.isOpendir then 1 else 0 := by
  obtain ⟨reply', y', hserved⟩ := hserve.served h
  obtain ⟨-, hready, -⟩ := hserve
  obtain ⟨hlinks, hdirs⟩ := CarefulServe.dirs (r := r.restat x.state.fs.logicalInode)
    h.describes (h.mayCreate hready) ⟨h.careful hready, hserved.serve⟩
  have hopens : (r.restat x.state.fs.logicalInode).isOpendir = r.isOpendir := by cases r <;> rfl
  have hcloses : (r.restat x.state.fs.logicalInode).isReleasedir = r.isReleasedir := by
    cases r <;> rfl
  obtain ⟨-, -, A', L', w, hpaired, -⟩ := hserved.stays
  have hroot := hpaired.mirrors.mem_valid hpaired.mirrors.root
  have hend : y'.rootLinks = y.rootLinks :=
    (congrArg Inode.links (hpaired.shows.table 1 (hpaired.mirrors.valid hroot))).trans
      (hpaired.mirrors.table 1 hroot).links
  rw [hcloses, hend, h.rootLinks] at hlinks
  rw [hcloses, hopens, ← hserved.dirs] at hdirs
  exact ⟨hlinks, hdirs⟩

/-- **One request over `fs.c`** takes a link away if it closes a handle. -/
theorem ReadyServe.dirs (h : x.Sound A L) (hserve : ReadyServe x (r, reply) y) :
    (∃ A' L', y.Sound A' L') ∧
    y.rootLinks = x.rootLinks - (if r.isReleasedir then 1 else 0) ∧
    y.dirs.length + (if r.isReleasedir then 1 else 0) =
      x.dirs.length + if r.isOpendir then 1 else 0 := by
  obtain hserve | ⟨n, hn, ht, hfiles, hdirs, hstep⟩ := hserve.cases h
  · obtain ⟨A', L', ev, b', hbears, -⟩ := hserve.bears h
    exact ⟨⟨A', L', hbears.sound⟩, hserve.dirs h⟩
  · obtain ⟨h', -⟩ := h.transferred (h.held n hn) ht hfiles hdirs
    have hroot := h.disk.paired.mirrors.mem_valid h.disk.root
    have hlinks : y.rootLinks = x.rootLinks :=
      congrArg Inode.links (ht.changed.others 1 hroot (Ne.symm (h.held n hn)))
    have hcount : y.dirs.length = x.dirs.length := congrArg List.length hdirs
    have htransfers := hstep.transfers
    cases r with
    | read | write => exact ⟨⟨A, L, h'⟩, hlinks.trans (UInt32.sub_zero _).symm, hcount⟩
    | _ => exact htransfers.elim

end Step

/-! ## Runs -/

section Runs

variable {x y : Session} {A : List UInt64} {L : FreeList} {tr : List (Request × Reply)}

theorem opendirs_cons (r : Request) (reply : Reply) (tr : List (Request × Reply)) :
    opendirs ((r, reply) :: tr) = (if r.isOpendir then 1 else 0) + opendirs tr := by
  rw [opendirs, List.countP_cons, Nat.add_comm]
  rfl

theorem releasedirs_cons (r : Request) (reply : Reply) (tr : List (Request × Reply)) :
    releasedirs ((r, reply) :: tr) = (if r.isReleasedir then 1 else 0) + releasedirs tr := by
  rw [releasedirs, List.countP_cons, Nat.add_comm]
  rfl

/-- **A run** takes a link away for each handle that it closes. -/
theorem dirs_of_exec (h : x.Sound A L) (hexec : Exec ReadyServe x tr y) :
    (∃ A' L', y.Sound A' L') ∧
    (y.rootLinks.toNat + releasedirs tr) % 2 ^ 32 = x.rootLinks.toNat ∧
    y.dirs.length + releasedirs tr = x.dirs.length + opendirs tr := by
  induction hexec generalizing A L with
  | nil x => exact ⟨⟨A, L, h⟩, Nat.mod_eq_of_lt x.rootLinks.toNat_lt, rfl⟩
  | @cons x y z e tr head tail ih =>
    obtain ⟨r, reply⟩ := e
    obtain ⟨⟨A', L', h'⟩, hlinks, hdirs⟩ := head.dirs h
    obtain ⟨hend, hlinks', hdirs'⟩ := ih h'
    refine ⟨hend, ?_, ?_⟩
    · rw [hlinks] at hlinks'
      rw [releasedirs_cons]
      have hlt := x.rootLinks.toNat_lt
      cases hr : r.isReleasedir with
      | false =>
        rw [hr] at hlinks'
        simp only [Bool.false_eq_true, if_false, UInt32.sub_zero] at hlinks' ⊢
        rw [Nat.zero_add]
        exact hlinks'
      | true =>
        rw [hr, if_pos rfl, UInt32.toNat_sub] at hlinks'
        have h1 : (1 : UInt32).toNat = 1 := rfl
        simp only [if_true]
        omega
    · rw [opendirs_cons, releasedirs_cons]
      omega

/-- There are fewer handles than an `int` counts. -/
theorem Session.Sound.length_dirs_lt (h : x.Sound A L) : x.dirs.length < 2 ^ 31 := by
  obtain ⟨free, hhandles⟩ := h.pool
  have hperm := hhandles.perm.length_eq
  have hcapacity := hhandles.small
  rw [List.length_append, List.length_append, List.length_range] at hperm
  omega

/-- **The links of the root directory are right** at the end of a run over `fs.c`, from a state
in which they are, if and only if the number of handles opened in it is a multiple of
`2 ^ 32`. -/
theorem dir_links_iff (h : x.Sound A L) (hlinks : x.rootLinks.toNat = 1 + x.dirs.length)
    (hexec : Exec ReadyServe x tr y) :
    y.rootLinks.toNat = 1 + y.dirs.length ↔ 2 ^ 32 ∣ opendirs tr := by
  obtain ⟨⟨A', L', h'⟩, hcount, hdirs⟩ := dirs_of_exec h hexec
  have hsmall := h'.length_dirs_lt
  have hlt := y.rootLinks.toNat_lt
  omega

end Runs

/-! ## A file, and the root directory opened beside it -/

section Sample

/-- A file is created, the root directory is opened, and the handle of it is closed. -/
def createThenList : Sfs DirFiles ((ℤ × Option UInt64) × (ℤ × Option UInt64) × ℤ) := do
  let created ← sfsCreate fsLayer ⟨0, 0, 0⟩ [slash, 97] 0 0
  let opened ← sfsOpendir fsLayer [slash] 0
  let released ← sfsReleasedir 1
  return (created, opened, released)

theorem rootLinks_spareSession : spareSession.rootLinks = 1 :=
  congrArg Inode.links root_spareDisk

theorem rightLinks_spareSession :
    spareSession.rootLinks.toNat = 1 + spareSession.dirs.length := by
  rw [rootLinks_spareSession]
  rfl

/-- The links of the root directory after that. -/
theorem dir_links_iff_createThenList : ∃ y,
    Exec ReadyServe spareSession [(createA, .handle (0, some 0)),
      (.opendir [slash] 0, .handle (0, some 1)), (.releasedir 1, .code 0)] y ∧ y.dirs = [] ∧
    (y.rootLinks.toNat = 1 + y.dirs.length ↔ 2 ^ 32 ∣ opendirs [(createA, .handle (0, some 0)),
      (.opendir [slash] 0, .handle (0, some 1)), (.releasedir 1, .code 0)]) := by
  have hvalue : (createThenList.run spareSession.state).value =
      some ((0, some 0), (0, some 1), 0) := by
    decide +kernel
  obtain ⟨last, hrun⟩ := Outcome.exists_of_value hvalue
  obtain ⟨created, s₁, hcreate, hrun⟩ := Run.bind_eq_done.mp hrun
  obtain ⟨opened, s₂, hopen, hrun⟩ := Run.bind_eq_done.mp hrun
  obtain ⟨released, s₃, hclose, hrun⟩ := Run.bind_eq_done.mp hrun
  obtain ⟨hcreated, hrest⟩ := Prod.mk.inj (Outcome.done.inj hrun).1
  obtain ⟨hopened, rfl⟩ := Prod.mk.inj hrest
  rw [hcreated] at hcreate
  rw [hopened] at hopen
  have hexec : Exec ReadyServe spareSession [(createA, .handle (0, some 0)),
      (.opendir [slash] 0, .handle (0, some 1)), (.releasedir 1, .code 0)] ⟨s₃, [0], []⟩ :=
    .cons ⟨diskReady_createA, .serve (by decide : (0 : UInt8) ∉ [slash, 97])
        (Run.bind_eq_done.mpr ⟨_, s₁, hcreate, rfl⟩)⟩
      (.cons ⟨(by decide : 1 + 0 + slotsPerSlab < 2 ^ 31),
          .serve rfl (Run.bind_eq_done.mpr ⟨_, s₂, hopen, rfl⟩)⟩
        (.cons ⟨trivial, .serve ⟨1, List.mem_cons_self, rfl⟩
          (Run.bind_eq_done.mpr ⟨_, s₃, hclose, rfl⟩)⟩ (.nil _)))
  exact ⟨_, hexec, rfl, dir_links_iff sound_spareSession rightLinks_spareSession hexec⟩

/-- **A handle without a link**: one `sfs_opendir` of `/` leaves one handle open and the one
link that the root directory had. -/
theorem opendir_adds_no_link : ∃ reply y,
    Exec ReadyServe spareSession [(.opendir [slash] 0, reply)] y ∧
      y.dirs.length = 1 ∧ y.rootLinks = 1 ∧ ¬ y.rootLinks.toNat = 1 + y.dirs.length := by
  have hready : spareSession.VolumeReady (.opendir [slash] 0) := by
    show 0 + 0 + slotsPerSlab < 2 ^ 31
    decide
  obtain ⟨reply, y, hserve⟩ := sound_spareSession.answers (r := .opendir [slash] 0) hready rfl
  obtain ⟨-, hlinks, hdirs⟩ := hserve.dirs sound_spareSession
  rw [rootLinks_spareSession] at hlinks
  have hlength : y.dirs.length = 1 := hdirs
  refine ⟨reply, y, .cons hserve (.nil y), hlength, hlinks, ?_⟩
  rw [hlinks, hlength]
  decide

end Sample

end SimpleFileSystem
