import SimpleFileSystem.SoundDisk

/-!
# Sessions on the disk

A client makes requests on names and handles over `fs.c`.  Each of them ends as it does on the
array of the disk (`Session.Sound.reply_agree`), which after it is the array of the disk again,
up to times: so the next one finds a sound disk (`DiskServe.served`), and what the requests do
to names, handles and link counts is what they do on the array.

The conditions are on the disk: `sfs_create` finds room for an entry, and 0 or an inode at the
head of the free inode list, and `sfs_getattr` finds the number of the inode in the memory that
it has freed.
-/

namespace SimpleFileSystem

/-! ## Requests -/

/-- **The condition on a request.** -/
def Session.DiskReady (x : Session) : Request → Prop
  | .getattr path => path ≠ [slash] → ∀ name, pathName path = .inr name →
      x.state.fs.DiskFreedKeeps name
  | .create .. =>
    x.files.length + x.dirs.length + slotsPerSlab < 2 ^ 31 ∧ x.state.fs.superblock.HeadOk ∧
      x.state.fs.TakesEntry
  | .open .. => x.files.length + x.dirs.length + slotsPerSlab < 2 ^ 31
  | .opendir .. => x.files.length + x.dirs.length + slotsPerSlab < 2 ^ 31
  | _ => True

/-- A new name finds room in the directory. -/
def Session.DiskHasRoom (x : Session) : Request → Prop
  | .create _ path _ _ => ∀ name, pathName path = .inr name →
      (∀ e ∈ live x.state.fs.diskSlots, cString e.name ≠ name) →
        (live x.state.fs.diskSlots).length < mappedBlocks
  | _ => True

/-- **A request that transfers no data**, over `fs.c`. -/
def DiskServe (x : Session) (e : Request × Reply) (y : Session) : Prop :=
  ¬ e.1.Transfers ∧ x.DiskReady e.1 ∧ Serve fsLayer x e y

/-- The request with a filler that is shown other attributes. -/
def Request.restat (T : UInt64 → Inode) : Request → Request
  | .readdir filler path =>
    .readdir (fun calls => filler (calls.map (FillerCall.restat T))) path
  | r => r

/-- The reply from the disk, and that from the array. -/
def Reply.Matches (base : Filesystem DirFiles) : Reply → Reply → Prop
  | .code a, .code b => b = a
  | .stat a, .stat b => StatPair base a b
  | .handle a, .handle b => b = a
  | .listing a, .listing b => a = (b.1, b.2.map (FillerCall.restat base.logicalInode))
  | _, _ => False

section Requests

variable {x y : Session} {A : List UInt64} {L : FreeList} {r : Request} {reply reply' : Reply}
  {T : UInt64 → Inode} {s s' : SfsState DirFiles}

theorem Request.onName_restat (h : r.OnName) : (r.restat T).OnName := by
  cases r <;> exact h

theorem Request.onDir_restat (h : r.OnDir) : (r.restat T).OnDir := by
  cases r <;> exact h

theorem Session.admits_restat (h : x.Admits r) : x.onArray.Admits (r.restat T) := by
  cases r <;> exact h

/-- **Each request** ends on the disk as it does on the array. -/
theorem Session.Sound.reply_agree (h : x.Sound A L) (hkind : ¬ r.Transfers)
    (hready : x.DiskReady r) (hadmits : x.Admits r) :
    Run.Agree (r.reply fsLayer) x.state
      ((r.restat x.state.fs.logicalInode).reply (loggedLayer sfsFsInodeAllocate)) x.onArray.state
      fun a s b s' => a.Matches x.state.fs b ∧ Stays A x.state.fs s s' := by
  have hdir := h.entries
  cases r with
  | getattr path =>
    refine (h.beside.getattr hdir hready).bind ?_
    rintro a s b s' ⟨hpair, hstays⟩
    exact Run.agree_pure ⟨hpair, hstays⟩
  | create context path mode flags =>
    refine (h.beside.create hdir hready.2.1 hready.2.2 context mode flags).bind ?_
    rintro a s b s' ⟨heq, hstays⟩
    exact Run.agree_pure ⟨heq, hstays⟩
  | unlink path =>
    refine (h.beside.unlink hdir).bind ?_
    rintro a s b s' ⟨heq, hstays⟩
    exact Run.agree_pure ⟨heq, hstays⟩
  | «open» path flags =>
    refine (h.beside.open hdir flags).bind ?_
    rintro a s b s' ⟨heq, hstays⟩
    exact Run.agree_pure ⟨heq, hstays⟩
  | release fh =>
    obtain ⟨n, hn, rfl⟩ := hadmits
    have hfd : (toCInt (ofCInt n)).toNat = n :=
      h.describes.books.balanced.fd_of_opened (h.describes.mem_opened (List.mem_append_left _ hn))
    refine (h.beside.release (by rw [hfd]; exact h.mem_of_handle hn)
      (by rw [hfd]; exact h.held n hn)).bind ?_
    rintro a s b s' ⟨heq, hstays⟩
    exact Run.agree_pure ⟨heq, hstays⟩
  | readdir filler path =>
    refine (h.beside.readdir hdir filler).bind ?_
    rintro a s b s' ⟨heq, hstays⟩
    exact Run.agree_pure ⟨heq, hstays⟩
  | opendir path flags =>
    cases (show path = [slash] from hadmits)
    refine (h.beside.opendir hdir (fun i hi hused => ?_) flags).bind ?_
    · exact (h.named _ (mem_live.mpr ⟨List.mem_map_of_mem (List.mem_range.mpr hi), hused⟩)).2
    · rintro a s b s' ⟨heq, hstays⟩
      exact Run.agree_pure ⟨heq, hstays⟩
  | releasedir fh =>
    obtain ⟨n, hn, rfl⟩ := hadmits
    have hfd : (toCInt (ofCInt n)).toNat = n :=
      h.describes.books.balanced.fd_of_opened (h.describes.mem_opened (List.mem_append_right _ hn))
    refine (h.beside.releasedir (by rw [hfd]; exact h.heldDirs n hn)).bind ?_
    rintro a s b s' ⟨heq, hstays⟩
    exact Run.agree_pure ⟨heq, hstays⟩
  | read => exact absurd trivial hkind
  | write => exact absurd trivial hkind

/-- **What a request is asked to meet** on the array, it meets. -/
theorem Session.Sound.careful (h : x.Sound A L) (hready : x.DiskReady r) :
    x.onArray.Careful (r.restat T) := by
  cases r with
  | getattr path =>
    intro hpath name hpathName i e hslot hused hcname
    have hkeeps := hready hpath name hpathName
    rw [h.describes.slots] at hslot
    obtain ⟨hi, rfl⟩ := List.getElem?_eq_some_iff.mp hslot
    have hi' : i < x.state.fs.rootLength := (length_diskSlots x.state.fs) ▸ hi
    rw [show x.diskLedger.slots[i] = x.state.fs.rootSlot i from getElem_diskSlots x.state.fs hi]
      at hused hcname ⊢
    have hblock := h.disk.paired.mirrors.blocks _ (ofNat_lt_mapped hi' h.mapped)
    have hkept := hkeeps i hi' hused hcname
    rw [← hblock] at hkept
    exact hkept
  | create context path mode flags => exact hready.1
  | «open» path flags => exact hready
  | opendir path flags => exact hready
  | _ => trivial

theorem Session.Sound.mayCreate (h : x.Sound A L) (hready : x.DiskReady r) :
    x.diskLedger.MayCreate sfsFsInodeAllocate Pops (r.restat T) := by
  cases r with
  | create =>
    refine h.listed.allocates fun h0 => ?_
    have hhead : x.state.fs.superblock.freeInodeHead = x.diskLedger.view.head :=
      h.disk.paired.mirrors.head
    rw [← hhead] at h0 ⊢
    exact h.valid (hready.2.1 h0)
  | _ => trivial

theorem Session.Sound.hasRoom (h : x.Sound A L) (hroom : x.DiskHasRoom r) :
    x.onArray.HasRoom (r.restat T) := by
  have hslots : x.onArray.state.fs.rootSlots = x.state.fs.diskSlots := h.describes.slots
  cases r with
  | create context path mode flags =>
    intro name hname hunbound
    rw [hslots] at hunbound ⊢
    exact hroom name hname hunbound
  | _ => trivial

/-- The same handles are in both replies. -/
theorem Reply.Matches.handles {base : Filesystem DirFiles} (h : reply.Matches base reply') :
    reply'.handles = reply.handles := by
  cases reply <;> cases reply' <;> first | rfl | exact h.elim | exact congrArg _ (congrArg _ h)

theorem Reply.Matches.succeeds {base : Filesystem DirFiles} (h : reply.Matches base reply') :
    reply'.Succeeds ↔ reply.Succeeds := by
  cases reply <;> cases reply' <;> first | exact Iff.rfl | exact h.elim | skip
  rw [show _ = _ from h]

end Requests

/-! ## What a request leaves -/

section Step

variable {x y : Session} {A : List UInt64} {L : FreeList} {r : Request} {reply : Reply} {k : UInt64}

/-- What the request is on the array, with its answer and the session after it. -/
structure Served (x : Session) (A : List UInt64) (r : Request) (reply : Reply) (y : Session)
    (reply' : Reply) (y' : Session) : Prop where
  serve : Serve (loggedLayer sfsFsInodeAllocate) x.onArray
    (r.restat x.state.fs.logicalInode, reply') y'
  reply : reply.Matches x.state.fs reply'
  stays : Stays A x.state.fs y.state y'.state
  files : y.files = y'.files
  dirs : y.dirs = y'.dirs

theorem DiskServe.served (h : x.Sound A L) (hserve : DiskServe x (r, reply) y) :
    ∃ reply' y', Served x A r reply y reply' y' := by
  obtain ⟨hkind, hready, hserve⟩ := hserve
  cases hserve with
  | @serve _ _ s admits run =>
    obtain ⟨reply', s', hrun, hmatches, hstays⟩ :=
      (h.reply_agree hkind hready admits).matched run
    have hserve' := Serve.serve (Session.admits_restat (T := x.state.fs.logicalInode) admits) hrun
    have hhandles := hmatches.handles
    have hsucceeds := hmatches.succeeds
    refine ⟨reply', _, hserve', hmatches, ?_, ?_, ?_⟩
    · rw [Session.after_state, Session.after_state]
      exact hstays
    · cases r <;> simp [Session.after, Request.restat, Session.onArray, hhandles, hsucceeds]
    · cases r <;> simp [Session.after, Request.restat, Session.onArray, hhandles, hsucceeds]

/-- **A new entry** is one of an inode that was not in use. -/
theorem LedgerStep.entries {b b' : Ledger} {handsOut : View → UInt64 → UInt64 → Prop}
    {ev : LedgerEvent} (h : LedgerStep handsOut b ev b') {e : DirEntry} (he : e ∈ live b'.slots) :
    e ∈ live b.slots ∨ b.refs e.inumber = 0 := by
  cases h with
  | creates root fills fresh nonempty stored unused =>
    have hused := UInt64.ne_of_lt unused.valid.pos
    obtain rfl | he := List.mem_cons.mp ((fills.live_perm (Ne.symm hused)).mem_iff.mp he)
    · exact Or.inr unused.refs
    · exact Or.inl he
  | unlinks slots used emptied =>
    rw [slots]
    exact Or.inl ((live_emptied used emptied).mem_iff.mpr (List.mem_cons_of_mem _ he))
  | _ => exact Or.inl he

/-- **The disk is sound** after the request, the files that there were have the contents that
they had, and a new one has none. -/
theorem DiskServe.bears (h : x.Sound A L) (hserve : DiskServe x (r, reply) y) :
    ∃ A' L' ev b', y.Bears A' L' b' ∧ FreeChange x.diskLedger ev b' ∧
      (x.DiskHasRoom r → ∀ k, ev ≠ .leaks k) ∧
      (∀ e ∈ live b'.slots, e ∈ live x.state.fs.diskSlots ∨ x.diskRefs e.inumber = 0) ∧
      ∀ k ∈ A', k ≠ 1 → k ∈ A ∧ SameFile x.state.fs y.state.fs k ∨
        k ∉ A ∧ EmptyFile y.state.fs k := by
  obtain ⟨reply', y', hserved⟩ := hserve.served h
  obtain ⟨-, hready, -⟩ := hserve
  have hb := h.describes
  have hmeets := hb.meets (h.careful (T := x.state.fs.logicalInode) hready) (h.mayCreate hready)
  obtain ⟨ev, b', hstep, hy, hans⟩ := hserved.serve.ledger hb hmeets
  obtain ⟨hmu, hpool, A', L', w, hpaired, hfiles⟩ := hserved.stays
  refine ⟨A', L', ev, b', hy.bears ⟨hmu, hpool, hpaired⟩ hserved.files hserved.dirs,
    hstep.freeChange hb.books.balanced, fun hroom => hb.not_leaks (h.hasRoom hroom) hans hstep,
    fun e he => ?_, hfiles⟩
  rw [← h.refs (hy.books.balanced.files e he).1]
  exact hstep.entries he

end Step

/-! ## What it does on the map of names -/

/-- **The names and handles on the disk** are those of the map. -/
structure NameMap.OnDisk (m : NameMap) (x : Session) : Prop where
  binds : Binds m.names x.state.fs.diskSlots
  holds : Holds m.handles x.files x.state.fdPool

/-- The attributes in a reply. -/
def Reply.stats : Reply → List Stat
  | .stat (_, some found) => [found]
  | .listing (_, calls) => calls.filterMap Prod.snd
  | _ => []

section Map

variable {m m' : NameMap} {x y : Session} {A : List UInt64} {L : FreeList} {r : Request}
  {reply reply' : Reply} {base : Filesystem DirFiles} {all : List (CString × Stat)}
  {filler : List FillerCall → Bool} {calls : List FillerCall} {T : UInt64 → Inode}

/-- A catalogue with other attributes of the same inodes. -/
theorem NameMap.Catalogue.restat (h : m.Catalogue all)
    (hown : ∀ name k, m.names.lookup name = some k → (T k).inumber = k) :
    m.Catalogue (all.map fun entry => (entry.1, sfsFsInodeToStat (T entry.2.ino))) where
  nodup := by
    rw [List.map_map]
    exact h.nodup
  mem name k := by
    have hino : ∀ entry ∈ all, (sfsFsInodeToStat (T entry.2.ino)).ino = entry.2.ino := by
      rintro ⟨name, stat⟩ hentry
      exact hown name stat.ino ((h.mem name stat.ino).mpr ⟨stat, hentry, rfl⟩)
    rw [h.mem name k]
    constructor
    · rintro ⟨stat, hmem, rfl⟩
      exact ⟨_, List.mem_map.mpr ⟨_, hmem, rfl⟩, hino _ hmem⟩
    · rintro ⟨stat, hmem, rfl⟩
      obtain ⟨entry, hentry, heq⟩ := List.mem_map.mp hmem
      obtain ⟨rfl, rfl⟩ := Prod.ext_iff.mp heq
      exact ⟨entry.2, hentry, (hino entry hentry).symm⟩

theorem listing_restat (all : List (CString × Stat)) :
    (NameMap.listing all).map (FillerCall.restat T) =
      NameMap.listing (all.map fun entry => (entry.1, sfsFsInodeToStat (T entry.2.ino))) := by
  rw [NameMap.listing, List.map_append, List.map_map, NameMap.listing, List.map_map]
  rfl

/-- The listing for a filler that is shown other attributes. -/
theorem Lists.restat
    (h : Lists (fun calls => filler (calls.map (FillerCall.restat T))) [] (NameMap.listing all)
      calls) :
    Lists filler []
      (NameMap.listing (all.map fun entry => (entry.1, sfsFsInodeToStat (T entry.2.ino))))
      (calls.map (FillerCall.restat T)) where
  pre := by
    rw [← listing_restat]
    exact h.pre.map (FillerCall.restat T)
  whole hnever := by
    rw [h.whole fun calls => hnever _, ← listing_restat]
    rfl

/-- **A request on the map** is the same one with the reply from the disk. -/
theorem NameStep.of_matches (h : NameStep m (r.restat base.logicalInode, reply') m')
    (hmatches : reply.Matches base reply')
    (hown : ∀ name k, m.names.lookup name = some k → (base.logicalInode k).inumber = k) :
    NameStep m (r, reply) m' := by
  cases r with
  | getattr path =>
    change NameStep m (.getattr path, reply') m' at h
    cases h with
    | @getattr name k stat bound ino =>
      cases reply with
      | stat a =>
        obtain ⟨ret, hstat, -⟩ := hmatches
        obtain ⟨code, found⟩ := a
        dsimp only at ret hstat
        subst ret
        cases hstat with
        | some halike => exact .getattr bound (halike.ino.symm.trans ino)
      | _ => exact hmatches.elim
    | getattrMissing unbound =>
      cases reply with
      | stat a =>
        obtain ⟨ret, hstat, -⟩ := hmatches
        obtain ⟨code, found⟩ := a
        dsimp only at ret hstat
        subst ret
        cases hstat
        exact .getattrMissing unbound
      | _ => exact hmatches.elim
  | readdir filler path =>
    change NameStep m (.readdir _ path, reply') m' at h
    cases h with
    | readdir catalogue lists =>
      cases reply with
      | listing a =>
        cases hmatches
        exact .readdir (catalogue.restat hown) lists.restat
      | _ => exact hmatches.elim
  | _ =>
    -- the reply is the same
    simp only [Request.restat] at h
    have heq : reply = reply' := by
      cases h <;> cases reply <;> first | exact hmatches.elim | exact congrArg _ hmatches.symm
    rw [heq]
    exact h

theorem NameMap.OnDisk.tracks (hm : m.OnDisk x) (h : x.Sound A L) :
    m.Tracks x.onArray x.diskLedger :=
  ⟨h.describes, hm.binds, hm.holds⟩

/-- What a name is bound to is a file. -/
theorem NameMap.OnDisk.mem_of_bound (hm : m.OnDisk x) (h : x.Sound A L) {name : CString}
    {k : UInt64} (hk : m.names.lookup name = some k) : k ∈ A := by
  obtain ⟨e, he, -, rfl⟩ := (hm.binds name k).mp hk
  exact h.mem_of_entry he

theorem NameMap.OnDisk.own (hm : m.OnDisk x) (h : x.Sound A L) (name : CString) (k : UInt64)
    (hk : m.names.lookup name = some k) : (x.state.fs.logicalInode k).inumber = k :=
  h.disk.own k (h.disk.paired.mirrors.mem_valid (hm.mem_of_bound h hk))

/-- **The attributes in a reply** are those of an inode with a name, as they are on the disk. -/
theorem NameStep.stats (h : NameStep m (r, reply') m') (hmatches : reply.Matches base reply')
    (hown : ∀ name k, m.names.lookup name = some k → (base.logicalInode k).inumber = k) :
    ∀ stat ∈ reply.stats, stat = sfsFsInodeToStat (base.logicalInode stat.ino) ∧
      ∃ name, m.names.lookup name = some stat.ino := by
  intro stat hstat
  cases h with
  | @getattr name k told bound ino =>
    cases reply with
    | stat a =>
      obtain ⟨-, halike, hdisk⟩ := hmatches
      obtain ⟨code, found⟩ := a
      cases halike with
      | some halike =>
        obtain rfl := List.mem_singleton.mp hstat
        exact ⟨hdisk stat rfl, name, by rw [bound, ← ino, halike.ino]⟩
    | _ => exact hmatches.elim
  | getattrMissing unbound =>
    cases reply with
    | stat a =>
      obtain ⟨-, halike, -⟩ := hmatches
      obtain ⟨code, found⟩ := a
      cases halike
      exact absurd hstat List.not_mem_nil
    | _ => exact hmatches.elim
  | @readdir filler calls all catalogue lists =>
    cases reply with
    | listing a =>
      cases hmatches
      obtain ⟨call, hcall, hsome⟩ := List.mem_filterMap.mp hstat
      obtain ⟨⟨name, found⟩, hmem, rfl⟩ := List.mem_map.mp hcall
      obtain ⟨told, rfl, rfl⟩ := Option.map_eq_some_iff.mp hsome
      -- what is listed with attributes is an entry of the catalogue
      have hlisted : (name, some told) ∈ NameMap.listing all := lists.pre.subset hmem
      have hentry : (name, told) ∈ all := by
        simp only [NameMap.listing, List.mem_append, List.mem_cons, List.not_mem_nil, or_false,
          List.mem_map, Prod.mk.injEq, Option.some.injEq] at hlisted
        obtain (⟨-, hnone⟩ | ⟨-, hnone⟩) | ⟨entry, hentry, rfl, rfl⟩ := hlisted
        · cases hnone
        · cases hnone
        · exact hentry
      have hbound := (catalogue.mem name told.ino).mpr ⟨told, hentry, rfl⟩
      rw [show (sfsFsInodeToStat (base.logicalInode told.ino)).ino = told.ino from
        hown name told.ino hbound]
      exact ⟨rfl, name, hbound⟩
    | _ => exact hmatches.elim
  | _ => cases reply <;> first | exact hmatches.elim | exact absurd hstat List.not_mem_nil

/-- The map of the session on the array is on the disk. -/
theorem NameMap.Tracks.onDisk {b : Ledger} {y' : Session} (h : m.Tracks y' b)
    (hserved : Served x A r reply y reply' y') : m.OnDisk y := by
  obtain ⟨hmu, hpool, A', L', w, hpaired, -⟩ := hserved.stays
  have hbears := h.describes.bears ⟨hmu, hpool, hpaired⟩ hserved.files hserved.dirs
  refine ⟨?_, ?_⟩
  · rw [hbears.slots]
    exact h.binds
  · rw [hserved.files, ← hpool, h.describes.books.pool]
    exact h.holds

/-- **A request on the disk** is one on the map of its names. -/
theorem DiskServe.names (h : x.Sound A L) (hm : m.OnDisk x) (hname : r.OnName)
    (hserve : DiskServe x (r, reply) y) :
    ∃ m', NameStep m (r, reply) m' ∧ m'.OnDisk y ∧
      ∀ stat ∈ reply.stats, stat = sfsFsInodeToStat (x.state.fs.logicalInode stat.ino) ∧
        ∃ name, m.names.lookup name = some stat.ino := by
  obtain ⟨reply', y', hserved⟩ := hserve.served h
  obtain ⟨-, hready, -⟩ := hserve
  obtain ⟨m', b', hstep, htracks⟩ := hserved.serve.names (hm.tracks h)
    (Request.onName_restat hname) (h.careful hready) (h.mayCreate hready)
  exact ⟨m', hstep.of_matches hserved.reply (hm.own h), htracks.onDisk hserved,
    hstep.stats hserved.reply (hm.own h)⟩

/-- **A request on the root directory** leaves the map of names alone. -/
theorem DiskServe.names_of_onDir (h : x.Sound A L) (hm : m.OnDisk x) (hdir : r.OnDir)
    (hserve : DiskServe x (r, reply) y) : m.OnDisk y := by
  obtain ⟨reply', y', hserved⟩ := hserve.served h
  obtain ⟨-, hready, -⟩ := hserve
  have hmeets := h.describes.meets (h.careful (T := x.state.fs.logicalInode) hready)
    (h.mayCreate hready)
  obtain ⟨b', htracks⟩ := hserved.serve.names_of_onDir (hm.tracks h) (Request.onDir_restat hdir)
    hmeets
  exact htracks.onDisk hserved

/-- **The handle of a request on the root directory** is none of a file: `sfs_opendir` makes a
new one, and `sfs_releasedir` returns 0. -/
theorem DiskServe.handle_of_onDir (h : x.Sound A L) (hdir : r.OnDir)
    (hserve : DiskServe x (r, reply) y) : ∃ n ∉ x.files,
      (∃ flags, r = .opendir [slash] flags ∧ reply = .handle (0, some (ofCInt (n : ℕ)))) ∨
        r = .releasedir (ofCInt n) ∧ reply = .code 0 := by
  obtain ⟨reply', y', hserved⟩ := hserve.served h
  obtain ⟨-, hready, hserve⟩ := hserve
  obtain ⟨ev, b', hstep, -, hans⟩ := hserved.serve.ledger h.describes
    (h.describes.meets (h.careful hready) (h.mayCreate hready))
  have hhandles := hstep.handles h.describes.books.balanced
  have hmatches := hserved.reply
  cases hserve with
  | @serve _ _ s admits run =>
  cases r with
  | opendir path flags =>
    cases (show path = [slash] from admits)
    cases reply' with
    | handle a =>
      obtain ⟨n, rfl, rfl⟩ := hans
      refine ⟨n, fun hn => hhandles.1.fresh (List.mem_append_left _ hn), Or.inl ⟨flags, rfl, ?_⟩⟩
      cases reply with
      | handle a => rw [show (0, some (ofCInt (n : ℤ))) = a from hmatches]
      | _ => exact hmatches.elim
    | _ => exact hans.elim
  | releasedir fh =>
    obtain ⟨n, hn, rfl⟩ := admits
    refine ⟨n, fun hfile => h.held n hfile (h.heldDirs n hn), Or.inr ⟨rfl, ?_⟩⟩
    cases reply' with
    | code a =>
      obtain ⟨rfl, -⟩ := hans
      cases reply with
      | code a => rw [show 0 = a from hmatches]
      | _ => exact hmatches.elim
    | _ => exact hans.elim
  | _ => exact hdir.elim

/-- **Every request returns** that meets its condition. -/
theorem Session.Sound.returns (h : x.Sound A L) (hkind : ¬ r.Transfers)
    (hready : x.DiskReady r) (hadmits : x.Admits r) : ∃ reply y, DiskServe x (r, reply) y := by
  have hagree := h.reply_agree hkind hready hadmits
  have htransfers : ¬ (r.restat x.state.fs.logicalInode).Transfers := by
    cases r <;> first | exact absurd trivial hkind | exact id
  obtain ⟨reply', s', hrun, -⟩ := h.describes.reply_ensures (Session.admits_restat hadmits)
    (h.describes.meets (h.careful hready) (h.mayCreate hready)) htransfers
  obtain ⟨reply, s, hdisk, -⟩ := hagree.ensures hrun
  exact ⟨reply, _, hkind, hready, .serve hadmits hdisk⟩

end Map

end SimpleFileSystem
