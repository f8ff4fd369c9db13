import SimpleFileSystem.DirSweep
import SimpleFileSystem.DiskSessions
import SimpleFileSystem.DiskTransfers
import SimpleFileSystem.Format

/-!
# The disk as a volume

What a file system on a disk is for, of which `fs.c`, `dir.c` and `sfs.c` are three layers: a
map from names to files, a table of open handles, and for each file what is in it.  A file is
there as long as a name or a handle refers to it (`NameMap.Refers`), and `VolumeStep` is what
a client may then expect.  A request on a name changes the map as `NameStep` says, no file
loses or changes its contents, and a new one is empty.  A read or a write is one of the
contents of the file that the handle is of, and leaves the map and the other files alone.  The
root directory is opened and closed under numbers that no file has.

`disk_is_volume` matches every run over `fs.c` with one of the volume.
`links_and_free_inodes` is about the other end, the table of inodes: none is lost.
-/

namespace SimpleFileSystem

/-! ## Volumes -/

/-- Nothing. -/
def Contents.empty : Contents :=
  ⟨0, fun _ => Block.zero⟩

/-- **Names, handles, and what is in the files.** -/
structure Volume where
  map : NameMap
  contents : UInt64 → Contents

/-- Other contents of the file `k`. -/
def Volume.setContents (v : Volume) (k : UInt64) (c : Contents) : Volume :=
  { v with contents := Function.update v.contents k c }

/-- A name or a handle refers to the file. -/
def NameMap.Refers (m : NameMap) (k : UInt64) : Prop :=
  (∃ name, m.names.lookup name = some k) ∨ ∃ n, m.handles n = some k

/-- **A request on a name**, on a volume. -/
structure EntryStep (v : Volume) (e : Request × Reply) (v' : Volume) : Prop where
  names : NameStep v.map e v'.map
  kept : ∀ k, v.map.Refers k → v'.map.Refers k → v'.contents k = v.contents k
  fresh : ∀ k, ¬ v.map.Refers k → v'.map.Refers k → v'.contents k = Contents.empty
  /-- A new name is one of a new file. -/
  apart : ∀ name k, v.map.names.lookup name = none → v'.map.names.lookup name = some k →
    ¬ v.map.Refers k
  sizes : ∀ stat ∈ e.2.stats, stat.size = (v.contents stat.ino).size

/-- **A request on a volume.** -/
inductive VolumeStep : Volume → Request × Reply → Volume → Prop where
  | entry {v v' : Volume} {e : Request × Reply} (step : EntryStep v e v') : VolumeStep v e v'
  | read {v : Volume} {n : ℕ} {k : UInt64} (held : v.map.handles n = some k) (memory : Memory)
      (tmpBlock : Block) (size : UInt64) (offset : ℤ) :
      VolumeStep v (.read memory tmpBlock size offset (ofCInt n),
        .bytes ((v.contents k).read memory size offset)) v
  | write {v : Volume} {n : ℕ} {k : UInt64} {memory : Memory} {tmpBlock : Block} {size : UInt64}
      {offset ret : ℤ} {c : Contents} (held : v.map.handles n = some k)
      (written : (v.contents k).Write memory tmpBlock offset size ret c) :
      VolumeStep v (.write memory tmpBlock size offset (ofCInt n), .code ret) (v.setContents k c)
  | opendir {v : Volume} {n : ℕ} (fresh : v.map.handles n = none) (flags : UInt64) :
      VolumeStep v (.opendir [slash] flags, .handle (0, some (ofCInt n))) v
  | releasedir {v : Volume} {n : ℕ} (other : v.map.handles n = none) :
      VolumeStep v (.releasedir (ofCInt n), .code 0) v

/-- **The request writes the file.** -/
def NameMap.Writes (m : NameMap) (k : UInt64) (r : Request) : Prop :=
  ∃ memory tmpBlock size offset n, m.handles n = some k ∧
    r = .write memory tmpBlock size offset (ofCInt n)

/-- A name of a file, or a handle of it. -/
inductive FileRef where
  | name (name : CString)
  | handle (n : ℕ)

/-- The file that it refers to. -/
def NameMap.target (m : NameMap) : FileRef → Option UInt64
  | .name name => m.names.lookup name
  | .handle n => m.handles n

/-- The request after which it does not refer to it any more. -/
def FileRef.dropped : FileRef → Request
  | .name file => .unlink (slash :: file)
  | .handle n => .release (ofCInt n)

/-- **The disk has the volume on it**, and is sound. -/
structure Volume.On (v : Volume) (x : Session) : Prop where
  sound : ∃ A L, x.Sound A L
  map : v.map.OnDisk x
  contents : ∀ k, v.map.Refers k → v.contents k = x.state.fs.contents k

/-! ### What a volume keeps -/

section Keeps

variable {m m' : NameMap} {v v' : Volume} {r : Request} {reply : Reply} {k : UInt64} {n : ℕ}
  {ref : FileRef}

theorem NameMap.refers_of_target (h : m.target ref = some k) : m.Refers k := by
  cases ref with
  | name name => exact Or.inl ⟨name, h⟩
  | handle n => exact Or.inr ⟨n, h⟩

/-- A new handle is none of the others. -/
theorem NameMap.target_opened (h : m.target ref = some k) (hfresh : m.handles n = none)
    (j : UInt64) : (m.opened n j).target ref = some k := by
  cases ref with
  | name name => exact h
  | handle i =>
    refine (Function.update_of_ne ?_ _ _).trans h
    rintro rfl
    exact Option.some_ne_none k (h.symm.trans hfresh)

/-- **A request on a name keeps the other names and handles.** -/
theorem NameStep.target (h : NameStep m (r, reply) m') (href : m.target ref = some k)
    (hdrop : r ≠ ref.dropped) : m'.target ref = some k := by
  cases h with
  | getattr | getattrMissing | createFails | createExists | unlinkMissing | openMissing | readdir =>
    exact href
  | createReopens _ _ fresh => exact m.target_opened href fresh _
  | opens _ fresh => exact m.target_opened href fresh _
  | @creates _ name _ _ j n unbound fresh =>
    cases ref with
    | name name' =>
      refine (Finmap.lookup_insert_of_ne _ ?_).trans href
      rintro rfl
      exact Option.some_ne_none k (href.symm.trans unbound)
    | handle i => exact (m.target_opened href fresh j :)
  | @unlinks name _ bound =>
    cases ref with
    | name name' =>
      refine (Finmap.lookup_erase_ne ?_).trans href
      rintro rfl
      exact hdrop rfl
    | handle i => exact href
  | @releases n _ held =>
    cases ref with
    | name name' => exact href
    | handle i =>
      refine (Function.update_of_ne ?_ _ _).trans href
      rintro rfl
      exact hdrop rfl

theorem VolumeStep.target (h : VolumeStep v (r, reply) v') (href : v.map.target ref = some k)
    (hdrop : r ≠ ref.dropped) : v'.map.target ref = some k := by
  cases h with
  | entry step => exact step.names.target href hdrop
  | read | write | opendir | releasedir => exact href

/-- **A file keeps its contents** in a request that does not write it. -/
theorem VolumeStep.keeps (h : VolumeStep v (r, reply) v') (href : v.map.target ref = some k)
    (hdrop : r ≠ ref.dropped) (hwrites : ¬ v.map.Writes k r) :
    v'.map.target ref = some k ∧ v'.contents k = v.contents k := by
  have href' := h.target href hdrop
  refine ⟨href', ?_⟩
  cases h with
  | entry step =>
    exact step.kept k (NameMap.refers_of_target href) (NameMap.refers_of_target href')
  | read | opendir | releasedir => rfl
  | @write n j memory tmpBlock size offset _ c held written =>
    refine Function.update_of_ne ?_ _ _
    rintro rfl
    exact hwrites ⟨memory, tmpBlock, size, offset, n, held, rfl⟩

end Keeps

/-! ## Requests -/

/-- **The condition on a request**: a block that it makes an index block is blank, and what
`DiskReady` says. -/
def Session.VolumeReady (x : Session) : Request → Prop
  | .write _ _ size offset fh =>
    let inumber := (x.state.fdPool.slot (toCInt fh).toNat).inumber
    x.state.fs.IndexReady (x.state.fs.logicalInode inumber) (blockRange offset size).firstBlock
      (blockRange offset size).lastBlock
  | r => x.DiskReady r

/-- **The requests on a volume.** -/
def Request.OnVolume (r : Request) : Prop :=
  r.OnName ∨ r.OnDir ∨ r.Transfers

/-- **A request that meets its condition**, over `fs.c`. -/
def ReadyServe (x : Session) (e : Request × Reply) (y : Session) : Prop :=
  x.VolumeReady e.1 ∧ Serve fsLayer x e y

/-- **A request on a volume**, over `fs.c`. -/
def VolumeServe (x : Session) (e : Request × Reply) (y : Session) : Prop :=
  e.1.OnVolume ∧ ReadyServe x e y

section Step

variable {m : NameMap} {v : Volume} {x y : Session} {A : List UInt64} {L : FreeList} {r : Request}
  {reply : Reply} {e : Request × Reply} {k : UInt64} {b b' : Ledger} {ev : LedgerEvent}

/-- **A file is referred to** if there is an entry or a handle of it to count. -/
theorem NameMap.OnDisk.refers_iff (hm : m.OnDisk x) : m.Refers k ↔ 0 < x.diskRefs k := by
  rw [NameMap.Refers, Session.diskRefs, Session.handlesOf, Nat.add_pos_iff_pos_or_pos,
    List.count_pos_iff, List.count_pos_iff]
  refine or_congr ?_ ?_
  · constructor
    · rintro ⟨name, hname⟩
      obtain ⟨e, he, -, rfl⟩ := (hm.binds name k).mp hname
      exact List.mem_map_of_mem he
    · intro hk
      obtain ⟨e, he, rfl⟩ := List.mem_map.mp hk
      exact ⟨_, hm.binds.lookup_of_entry he⟩
  · constructor
    · rintro ⟨n, hn⟩
      obtain ⟨hmem, rfl⟩ := (hm.holds n k).mp hn
      exact List.mem_map.mpr ⟨n, hmem, rfl⟩
    · intro hk
      obtain ⟨n, hn, rfl⟩ := List.mem_map.mp hk
      exact ⟨n, (hm.holds n _).mpr ⟨hn, rfl⟩⟩

/-- Entries with distinct names are those of a map. -/
theorem exists_binds {slots : List DirEntry}
    (hnodup : ((live slots).map fun e => cString e.name).Nodup) : ∃ names, Binds names slots := by
  induction slots with
  | nil =>
    refine ⟨∅, fun name k => ?_⟩
    rw [Finmap.lookup_empty]
    refine iff_of_false (Option.some_ne_none k).symm ?_
    rintro ⟨e, he, -⟩
    exact absurd he List.not_mem_nil
  | cons e slots ih =>
    by_cases hused : e.inumber = 0
    · rw [live_cons_of_unused hused] at hnodup
      obtain ⟨names, hnames⟩ := ih hnodup
      exact ⟨names, hnames.of_perm (List.Perm.of_eq (live_cons_of_unused hused))⟩
    · rw [live_cons_of_used hused] at hnodup
      obtain ⟨hnew, hrest⟩ := List.nodup_cons.mp hnodup
      obtain ⟨names, hnames⟩ := ih hrest
      refine ⟨_, hnames.insert (List.Perm.of_eq (live_cons_of_used hused)) fun d hd heq => ?_⟩
      exact hnew (List.mem_map.mpr ⟨d, hd, heq⟩)

/-- **A sound disk has a volume on it.** -/
theorem Session.Sound.volume (h : x.Sound A L) : ∃ v : Volume, v.On x := by
  obtain ⟨names, hbinds⟩ := exists_binds h.distinct
  refine ⟨⟨⟨names, fun n => if n ∈ x.files then some (x.state.fdPool.slot n).inumber else none⟩,
    x.state.fs.contents⟩, ⟨A, L, h⟩, ⟨hbinds, fun n k => ?_⟩, fun _ _ => rfl⟩
  dsimp only
  split
  · next hn => exact ⟨fun hk => ⟨hn, Option.some.inj hk⟩, fun hk => congrArg some hk.2⟩
  · next hn => exact iff_of_false (Option.some_ne_none k).symm fun hk => hn hk.1

/-- The root directory is not referred to. -/
theorem NameMap.OnDisk.ne_root (hm : m.OnDisk x) (h : x.Sound A L) (hk : m.Refers k) : k ≠ 1 := by
  obtain ⟨name, hname⟩ | ⟨n, hn⟩ := hk
  · obtain ⟨e, he, -, rfl⟩ := (hm.binds name k).mp hname
    exact (h.named e he).1
  · obtain ⟨hmem, rfl⟩ := (hm.holds n k).mp hn
    exact h.held n hmem

/-- **What comes into use** was on the free inode list. -/
theorem FreeChange.mem_of_taken {l : List UInt64} {last : UInt64} (h : FreeChange b ev b')
    (hl : b.Listed last l) (hk1 : k ≠ 1) (hold : b.refs k = 0) (hnew : 0 < b'.refs k) :
    k ∈ l := by
  cases h with
  | same inodes list table refs =>
    exact absurd ((refs k hk1).mpr hold) (Nat.pos_iff_ne_zero.mp hnew)
  | @popped j links unused sets pops deallocated refs taken =>
    by_cases hkj : k = j
    · subst hkj
      obtain ⟨l, rfl⟩ := hl.eq_cons unused.valid pops.1
      exact List.mem_cons_self
    · rw [refs k hkj, hold] at hnew
      exact absurd hnew (Nat.lt_irrefl 0)
  | @pushed j used sets pushed unused refs =>
    by_cases hkj : k = j
    · rw [hkj, unused.refs] at hnew
      exact absurd hnew (Nat.lt_irrefl 0)
    · rw [refs k hkj, hold] at hnew
      exact absurd hnew (Nat.lt_irrefl 0)

/-- **A request that keeps a file keeps its contents.** -/
theorem Volume.On.contents_kept {m' : NameMap} {A' : List UInt64} {L' : FreeList} (hv : v.On x)
    (h : x.Sound A L) (h' : y.Sound A' L') (hm' : m'.OnDisk y)
    (hfiles : ∀ k ∈ A', k ≠ 1 → k ∈ A ∧ SameFile x.state.fs y.state.fs k ∨
      k ∉ A ∧ EmptyFile y.state.fs k) (hk : v.map.Refers k) (hk' : m'.Refers k) :
    y.state.fs.contents k = v.contents k := by
  have hk1 := hv.map.ne_root h hk
  have hmem : k ∈ A := h.mem_files hk1 (hv.map.refers_iff.mp hk)
  have hmem' : k ∈ A' := h'.mem_files hk1 (hm'.refers_iff.mp hk')
  have hsame := ((hfiles k hmem' hk1).resolve_right fun hnew => hnew.1 hmem).2
  rw [hv.contents k hk]
  exact congrArg₂ Contents.mk hsame.size (funext hsame.block)

/-- **One request on a name** is one on the volume. -/
theorem DiskServe.volume (hv : v.On x) (hname : e.1.OnName) (hserve : DiskServe x e y) :
    ∃ v', EntryStep v e v' ∧ v'.On y := by
  obtain ⟨r, reply⟩ := e
  obtain ⟨A, L, h⟩ := hv.sound
  obtain ⟨m', hstep, hm', hstats⟩ := hserve.names h hv.map hname
  obtain ⟨A', L', ev, b', hbears, hchange, -, hentries, hfiles⟩ := hserve.bears h
  have h' := hbears.sound
  refine ⟨⟨m', y.state.fs.contents⟩, ⟨hstep,
    fun k hk hk' => hv.contents_kept h h' hm' hfiles hk hk', fun k hk hk' => ?_,
    fun name k hnone hname => ?_, fun stat hstat => ?_⟩,
    ⟨⟨A', L', h'⟩, hm', fun _ _ => rfl⟩⟩
  · have hk1 := hm'.ne_root h' hk'
    have hmem' : k ∈ A' := h'.mem_files hk1 (hm'.refers_iff.mp hk')
    have hold : x.diskLedger.refs k = 0 := by
      rw [h.refs hk1]
      exact Nat.eq_zero_of_not_pos fun hpos => hk (hv.map.refers_iff.mpr hpos)
    have hnew : 0 < b'.refs k := by
      rw [← hbears.refs k hk1]
      exact hm'.refers_iff.mp hk'
    have hfree := hchange.mem_of_taken h.listed hk1 hold hnew
    have hempty := ((hfiles k hmem' hk1).resolve_left fun hkept =>
      h.disk.shelved.apart k hfree hkept.1).2
    exact congrArg₂ Contents.mk hempty.size (funext hempty.block)
  · obtain ⟨e, he, rfl, rfl⟩ := (hm'.binds name k).mp hname
    rw [hbears.slots] at he
    rw [hv.map.refers_iff, Nat.pos_iff_ne_zero, not_not]
    refine (hentries e he).resolve_left fun hold => ?_
    exact absurd ((hv.map.binds.lookup_of_entry hold).symm.trans hnone) (Option.some_ne_none _)
  · obtain ⟨hdisk, hbound⟩ := hstats stat hstat
    rw [hv.contents _ (Or.inl hbound), Filesystem.contents]
    generalize x.state.fs.logicalInode stat.ino = u at hdisk
    rw [hdisk]
    rfl

/-- **One request on the root directory** leaves the volume as it is. -/
theorem DiskServe.volume_of_onDir (hv : v.On x) (hdir : r.OnDir)
    (hserve : DiskServe x (r, reply) y) : VolumeStep v (r, reply) v ∧ v.On y := by
  obtain ⟨A, L, h⟩ := hv.sound
  have hm' := hserve.names_of_onDir h hv.map hdir
  obtain ⟨A', L', ev, b', hbears, -, -, -, hfiles⟩ := hserve.bears h
  refine ⟨?_, ⟨⟨A', L', hbears.sound⟩, hm', fun k hk =>
    (hv.contents_kept h hbears.sound hm' hfiles hk hk).symm⟩⟩
  obtain ⟨n, hn, hcase⟩ := hserve.handle_of_onDir h hdir
  have hnone : v.map.handles n = none := hv.map.holds.eq_none hn
  obtain ⟨flags, rfl, rfl⟩ | ⟨rfl, rfl⟩ := hcase
  · exact .opendir hnone flags
  · exact .releasedir hnone

/-! ### Reads and writes -/

/-- The condition on a write, for the handle that the client has. -/
theorem Holding.indexReady {n : ℕ} {memory : Memory} {tmpBlock : Block} {size : UInt64}
    {offset : ℤ} (h : Holding x.state A L n (x.state.fdPool.slot n).inumber)
    (hready : x.VolumeReady (.write memory tmpBlock size offset (ofCInt n))) :
    x.state.fs.IndexReady (x.state.fs.logicalInode (x.state.fdPool.slot n).inumber)
      (blockRange offset size).firstBlock (blockRange offset size).lastBlock := by
  rw [Session.VolumeReady, h.fd] at hready
  exact hready

/-- What a transfer leaves of the map. -/
theorem NameMap.OnDisk.transferred (hm : m.OnDisk x)
    (hslots : y.state.fs.diskSlots = x.state.fs.diskSlots)
    (hpool : y.state.fdPool = x.state.fdPool) (hfiles : y.files = x.files) : m.OnDisk y where
  binds := by
    rw [hslots]
    exact hm.binds
  holds := by
    rw [hfiles, hpool]
    exact hm.holds

/-- **The volume after a transfer**, for the contents of the one file. -/
theorem Volume.On.transferred (hv : v.On x) (h : x.Sound A L) (hk : v.map.Refers k)
    (ht : Transferred x.state y.state A L k) (hfiles : y.files = x.files)
    (hdirs : y.dirs = x.dirs) : (v.setContents k (y.state.fs.contents k)).On y := by
  have hk1 := hv.map.ne_root h hk
  obtain ⟨h', hslots⟩ := h.transferred hk1 ht hfiles hdirs
  refine ⟨⟨A, L, h'⟩, hv.map.transferred hslots ht.pool hfiles, fun j hj => ?_⟩
  by_cases hjk : j = k
  · rw [hjk]
    exact Function.update_self k _ v.contents
  · have hmem : j ∈ A := h.mem_files (hv.map.ne_root h hj) (hv.map.refers_iff.mp hj)
    refine (Function.update_of_ne hjk _ v.contents).trans ((hv.contents j hj).trans ?_)
    rw [Filesystem.contents, Filesystem.contents, ht.changed.others j (h.disk.valid hmem) hjk,
      funext (ht.changed.files j hmem hjk)]

/-- **A read or a write** by a handle, and what it makes of the contents of the file. -/
inductive TransferStep (n : ℕ) (c : Contents) : Request × Reply → Contents → Prop where
  | read (memory : Memory) (tmpBlock : Block) (size : UInt64) (offset : ℤ) :
      TransferStep n c (.read memory tmpBlock size offset (ofCInt n),
        .bytes (c.read memory size offset)) c
  | write {memory : Memory} {tmpBlock : Block} {size : UInt64} {offset ret : ℤ} {c' : Contents}
      (written : c.Write memory tmpBlock offset size ret c') :
      TransferStep n c (.write memory tmpBlock size offset (ofCInt n), .code ret) c'

theorem TransferStep.transfers {n : ℕ} {c c' : Contents} (h : TransferStep n c e c') :
    e.1.Transfers := by
  cases h <;> trivial

/-- **A request transfers no data**, or it is a read or a write of one file, and leaves the
others alone. -/
theorem ReadyServe.cases (h : x.Sound A L) (hserve : ReadyServe x e y) :
    DiskServe x e y ∨ ∃ n ∈ x.files,
      Transferred x.state y.state A L (x.state.fdPool.slot n).inumber ∧ y.files = x.files ∧
        y.dirs = x.dirs ∧
        TransferStep n (x.state.fs.contents (x.state.fdPool.slot n).inumber) e
          (y.state.fs.contents (x.state.fdPool.slot n).inumber) := by
  obtain ⟨r, reply⟩ := e
  obtain ⟨hready, hserve⟩ := hserve
  cases hserve with
  | @serve _ _ s admits run =>
    cases r with
    | read memory tmpBlock size offset fh =>
      obtain ⟨n, hn, rfl⟩ := admits
      obtain ⟨answer, t, hread, hpure⟩ := Run.bind_eq_done.mp run
      cases hpure
      obtain ⟨ht, hsame, rfl⟩ := ((h.holding hn).sfsRead memory tmpBlock size offset).post hread
      refine Or.inr ⟨n, hn, ht, rfl, rfl, ?_⟩
      show TransferStep _ _ _ (s.fs.contents _)
      rw [hsame]
      exact .read memory tmpBlock size offset
    | write memory tmpBlock size offset fh =>
      obtain ⟨n, hn, rfl⟩ := admits
      obtain ⟨ret, t, hwrite, hpure⟩ := Run.bind_eq_done.mp run
      cases hpure
      obtain ⟨ht, hwritten⟩ := ((h.holding hn).sfsWrite memory tmpBlock size offset
        ((h.holding hn).indexReady hready)).post hwrite
      exact Or.inr ⟨n, hn, ht, rfl, rfl, .write hwritten⟩
    | _ => exact Or.inl ⟨id, hready, .serve admits run⟩

/-- **A request of the client** on a sound disk is one on the volume. -/
theorem VolumeServe.volume (hv : v.On x) (hserve : VolumeServe x e y) :
    ∃ v', VolumeStep v e v' ∧ v'.On y := by
  obtain ⟨A, L, h⟩ := hv.sound
  obtain ⟨hkind, hserve⟩ := hserve
  obtain hdisk | ⟨n, hn, ht, hfiles, hdirs, hstep⟩ := hserve.cases h
  · obtain hname | hdir | htransfers := hkind
    · obtain ⟨v', hstep, hv'⟩ := hdisk.volume hv hname
      exact ⟨v', .entry hstep, hv'⟩
    · exact ⟨v, DiskServe.volume_of_onDir hv hdir hdisk⟩
    · exact absurd htransfers hdisk.1
  · have hheld := (hv.map.holds n _).mpr ⟨hn, rfl⟩
    have hon := hv.transferred h (Or.inr ⟨n, hheld⟩) ht hfiles hdirs
    rw [← hv.contents _ (Or.inr ⟨n, hheld⟩)] at hstep
    generalize y.state.fs.contents (x.state.fdPool.slot n).inumber = c at hstep hon
    cases hstep with
    | read memory tmpBlock size offset =>
      rw [Volume.setContents, Function.update_eq_self] at hon
      exact ⟨v, .read hheld memory tmpBlock size offset, hon⟩
    | write written => exact ⟨_, .write hheld written, hon⟩

/-- **Every request returns** that meets its condition. -/
theorem Session.Sound.answers (h : x.Sound A L) (hready : x.VolumeReady r) (hadmits : x.Admits r) :
    ∃ reply y, ReadyServe x (r, reply) y := by
  cases r with
  | read memory tmpBlock size offset fh =>
    obtain ⟨n, hn, rfl⟩ := hadmits
    obtain ⟨answer, s, hrun, -⟩ := (h.holding hn).sfsRead memory tmpBlock size offset
    exact ⟨.bytes answer, _, hready, .serve ⟨n, hn, rfl⟩
      (Run.bind_eq_done.mpr ⟨answer, s, hrun, rfl⟩)⟩
  | write memory tmpBlock size offset fh =>
    obtain ⟨n, hn, rfl⟩ := hadmits
    have hholding := h.holding hn
    obtain ⟨ret, s, hrun, -⟩ := hholding.sfsWrite memory tmpBlock size offset
      (hholding.indexReady hready)
    exact ⟨.code ret, _, hready, .serve ⟨n, hn, rfl⟩
      (Run.bind_eq_done.mpr ⟨ret, s, hrun, rfl⟩)⟩
  | _ =>
    obtain ⟨reply, y, -, hserve⟩ := h.returns (by exact id) (by exact hready) hadmits
    exact ⟨reply, y, hserve⟩

theorem Session.Sound.serves (h : x.Sound A L) (hkind : r.OnVolume)
    (hready : x.VolumeReady r) (hadmits : x.Admits r) : ∃ reply y, VolumeServe x (r, reply) y := by
  obtain ⟨reply, y, hserve⟩ := h.answers hready hadmits
  exact ⟨reply, y, hkind, hserve⟩

end Step

/-! ## Runs -/

section Runs

variable {v : Volume} {x y : Session} {A : List UInt64} {L : FreeList} {tr : List (Request × Reply)}
  {k : UInt64} {e : Request × Reply}

/-- **No inode is lost**: those that nothing refers to are free, and have no links. -/
structure Session.Accounted (x : Session) (L : FreeList) : Prop where
  free : ∀ k, x.state.fs.superblock.ValidInumber k → k ≠ 1 → x.diskRefs k = 0 → k ∈ L.inodes
  links : ∀ k ∈ L.inodes, (x.state.fs.logicalInode k).links = 0

/-- A request that finds room in the directory. -/
def RoomyServe (x : Session) (e : Request × Reply) (y : Session) : Prop :=
  x.DiskHasRoom e.1 ∧ ReadyServe x e y

theorem Session.Accounted.counts (hall : x.Accounted L) (h : x.Sound A L) :
    x.diskLedger.Counts L.last L.inodes := by
  refine ⟨h.listed, fun k hk => ?_, fun k hk => ?_⟩
  · exact hall.free k (h.disk.paired.mirrors.validInumber hk.valid) hk.notRoot
      ((h.refs hk.notRoot).symm.trans hk.refs)
  · exact (h.table (h.disk.shelved.list.valid k hk)).links.trans (hall.links k hk)

theorem Session.Bears.accounted {b : Ledger} (h : x.Bears A L b) {l : List UInt64}
    {last : UInt64} (hl : b.Counts last l) : x.Accounted L := by
  have hlist := h.sound.disk.shelved.list
  have hlinked : Linked L.last (fun k => (b.view.table k).size) b.view.head L.inodes := by
    rw [← h.head]
    exact hlist.linked.congr fun k hk => (h.table k (hlist.valid k hk)).size
  have hvalid : ∀ {k}, x.state.fs.superblock.ValidInumber k → b.view.Valid k := fun hk =>
    (h.sound.valid hk).congr (h.inodes.symm.trans h.sound.disk.paired.mirrors.inodes)
  -- the two lists may end with different numbers, but not with inodes
  have heq : l = L.inodes := by
    refine hl.linked.unique_of_notMem hlinked (fun hmem => ?_) fun hmem => ?_
    · have hlast := (hl.unused _ hmem).valid
      exact h.sound.disk.shelved.stop ⟨hlast.pos, by rw [h.inodes]; exact hlast.le⟩
    · exact hl.stop (hvalid (hlist.valid _ hmem))
  subst heq
  refine ⟨fun k hk hk1 hrefs => hl.all k ⟨hvalid hk, hk1, ?_⟩, fun k hk => ?_⟩
  · rw [← h.refs k hk1]
    exact hrefs
  · exact (h.table k (hlist.valid k hk)).links.symm.trans (hl.links k hk)

/-- Reading and writing files changes no links. -/
theorem Session.Accounted.transferred (hall : x.Accounted L) (h : x.Sound A L) {n : ℕ}
    (hn : n ∈ x.files)
    (ht : Transferred x.state y.state A L (x.state.fdPool.slot n).inumber)
    (hfiles : y.files = x.files) (hdirs : y.dirs = x.dirs) : y.Sound A L ∧ y.Accounted L := by
  obtain ⟨h', hslots⟩ := h.transferred (h.held n hn) ht hfiles hdirs
  refine ⟨h', fun k hk hk1 hrefs => hall.free k ?_ hk1 ?_, fun k hk => ?_⟩
  · rw [Superblock.ValidInumber, ← ht.changed.inodes]
    exact hk
  · rw [Session.diskRefs, hslots, Session.handlesOf, ht.pool, hfiles] at hrefs
    exact hrefs
  · have hother : k ≠ (x.state.fdPool.slot n).inumber := by
      rintro rfl
      exact h.disk.shelved.apart _ hk (h.mem_of_handle hn)
    rw [ht.changed.others k (h.disk.shelved.list.valid k hk) hother]
    exact hall.links k hk

/-- **One request** loses no inode, if there is room for its entry. -/
theorem RoomyServe.accounted (h : x.Sound A L) (hall : x.Accounted L) (hserve : RoomyServe x e y) :
    ∃ A' L', y.Sound A' L' ∧ y.Accounted L' := by
  obtain ⟨r, reply⟩ := e
  obtain ⟨hroom, hserve⟩ := hserve
  obtain hserve | ⟨n, hn, ht, hfiles, hdirs, -⟩ := hserve.cases h
  · obtain ⟨A', L', ev, b', hbears, hchange, hleaks, -⟩ := hserve.bears h
    obtain ⟨l', hl'⟩ := hchange.counts (hall.counts h) (hleaks hroom)
    exact ⟨A', L', hbears.sound, hbears.accounted hl'⟩
  · exact ⟨A, L, hall.transferred h hn ht hfiles hdirs⟩

/-- The links of a file, whether it is referred to or free. -/
theorem Session.Accounted.links_eq (hall : x.Accounted L) (h : x.Sound A L)
    (hk : x.state.fs.superblock.ValidInumber k) (hk1 : k ≠ 1) :
    (x.state.fs.logicalInode k).links.toNat = x.diskRefs k ∧
      (k ∈ L.inodes ↔ x.diskRefs k = 0) := by
  rcases Nat.eq_zero_or_pos (x.diskRefs k) with h0 | hpos
  · have hmem := hall.free k hk hk1 h0
    rw [hall.links k hmem, h0]
    exact ⟨rfl, iff_of_true hmem rfl⟩
  · refine ⟨(h.counted k hk1 hpos).2, iff_of_false (fun hmem => ?_) (Nat.pos_iff_ne_zero.mp hpos)⟩
    exact h.disk.shelved.apart k hmem (h.mem_files hk1 hpos)

/-- Every run keeps the disk sound, and loses no inode. -/
theorem accounted_run (h : x.Sound A L) (hall : x.Accounted L) (hexec : Exec RoomyServe x tr y) :
    ∃ A' L', y.Sound A' L' ∧ y.Accounted L' := by
  refine hexec.invariant (I := fun x => ∃ A L, x.Sound A L ∧ x.Accounted L) ?_ ⟨A, L, h, hall⟩
  rintro s e t ⟨A, L, h, hall⟩ hserve
  exact hserve.accounted h hall

/-- **Links and free inodes on the disk**: in every state that is reached over `fs.c` the disk is
sound, the links of each inode are the entries and the open handles of it, and the free inode
list has exactly the inodes without any. -/
theorem links_and_free_inodes (h : x.Sound A L) (hall : x.Accounted L)
    (hexec : Exec RoomyServe x tr y) :
    ∃ A' L', y.Sound A' L' ∧ ∀ k, y.state.fs.superblock.ValidInumber k → k ≠ 1 →
      (y.state.fs.logicalInode k).links.toNat = y.diskRefs k ∧
        (k ∈ L'.inodes ↔ y.diskRefs k = 0) := by
  obtain ⟨A', L', h', hall'⟩ := accounted_run h hall hexec
  exact ⟨A', L', h', fun k hk hk1 => hall'.links_eq h' hk hk1⟩

end Runs

/-! ## The empty volume -/

/-- No names and no handles. -/
def Volume.empty : Volume :=
  ⟨NameMap.empty, fun _ => Contents.empty⟩

section Empty

variable {s : SfsState DirFiles} {A : List UInt64} {L : FreeList}

theorem rootLength_of_empty {fs : Filesystem DirFiles} (h : (fs.logicalInode 1).size = 0) :
    fs.rootLength = 0 := by
  rw [Filesystem.rootLength, h]
  rfl

theorem diskSlots_of_empty {fs : Filesystem DirFiles} (h : (fs.logicalInode 1).size = 0) :
    fs.diskSlots = [] := by
  rw [Filesystem.diskSlots, rootLength_of_empty h]
  rfl

theorem diskRefs_of_empty (h : (s.fs.logicalInode 1).size = 0) (k : UInt64) :
    Session.diskRefs ⟨s, [], []⟩ k = 0 := by
  show ((live s.fs.diskSlots).map DirEntry.inumber).count k + 0 = 0
  rw [diskSlots_of_empty h]
  rfl

/-- There is a block for the first entry. -/
theorem takesEntry_of_empty {fs : Filesystem DirFiles} {n : UInt64} {nodes : List UInt64}
    (himage : Image fs (n :: nodes) A []) (hsize : (fs.logicalInode 1).size = 0)
    (hpointer : (fs.logicalInode 1).pointer 0 = 0) : fs.TakesEntry := by
  have hplace : fs.rootPlace = 0 := by
    rw [Filesystem.rootPlace, rootLength_of_empty hsize]
    rfl
  obtain ⟨m, hfree⟩ : ∃ m, fs.nextFree = some m := by
    obtain ⟨-, hnil, -⟩ | ⟨m, -, hfree, -⟩ := allocate_spec himage.state.reliable himage.chain
    · exact absurd hnil (List.cons_ne_nil _ _)
    · exact ⟨m, hfree⟩
  have hresolve : fs.disk.resolve (fs.logicalInode 1) 0 = some 0 := by
    rw [Disk.resolve, if_pos (by decide)]
    exact congrArg some hpointer
  refine fun _ => ⟨fun nodes _ hrefuses => ?_, ?_⟩
  · rw [Filesystem.RefusesEntry, hplace, Filesystem.Refuses, show UInt64.ofNat 0 = 0 from rfl,
      hresolve, hfree] at hrefuses
    exact hrefuses.2.1 (by decide)
  · rw [hplace]
    rintro ⟨h12, -⟩
    exact absurd h12 (by decide)

/-- **A sound disk with an empty root directory**, on which nothing is open. -/
theorem SoundDisk.sound_of_empty (h : SoundDisk s.fs A L) (hidle : ¬ s.Locked)
    (hpool : s.fdPool = sfsFiledescriptorPoolInit)
    (hmode : (s.fs.logicalInode 1).mode &&& sIfdir ≠ 0)
    (hsize : (s.fs.logicalInode 1).size = 0) : Session.Sound ⟨s, [], []⟩ A L where
  disk := h
  idle := hidle
  directory := hmode
  size := by
    show (s.fs.logicalInode 1).size.toNat = 512 * s.fs.rootLength
    rw [hsize, rootLength_of_empty hsize]
    rfl
  mapped := (rootLength_of_empty hsize).trans_le (Nat.zero_le _)
  distinct := by
    show ((live s.fs.diskSlots).map _).Nodup
    rw [diskSlots_of_empty hsize]
    exact List.nodup_nil
  named e he := by
    rw [show Filesystem.diskSlots _ = [] from diskSlots_of_empty hsize] at he
    exact absurd he List.not_mem_nil
  pool := by
    show ∃ free, s.fdPool.Handles ([] ++ []) free
    rw [hpool]
    exact ⟨_, handles_init⟩
  held n hn := absurd hn List.not_mem_nil
  heldDirs _ hn := absurd hn List.not_mem_nil
  counted k _ hk := absurd (diskRefs_of_empty hsize k) (Nat.pos_iff_ne_zero.mp hk)

/-- **The empty volume** is on it. -/
theorem Session.Sound.on_empty (h : Session.Sound ⟨s, [], []⟩ A L)
    (hsize : (s.fs.logicalInode 1).size = 0) : Volume.empty.On ⟨s, [], []⟩ := by
  have hnone : ∀ {name}, Volume.empty.map.names.lookup name = none := Finmap.lookup_empty _
  refine ⟨⟨A, L, h⟩, ⟨fun name k => ?_, fun n k => ?_⟩, fun k hk => ?_⟩
  · rw [show Filesystem.diskSlots _ = [] from diskSlots_of_empty hsize, hnone]
    refine iff_of_false (Option.some_ne_none k).symm ?_
    rintro ⟨e, he, -⟩
    exact absurd he List.not_mem_nil
  · exact iff_of_false (Option.some_ne_none k).symm fun hn => absurd hn.1 List.not_mem_nil
  · obtain ⟨name, hname⟩ | ⟨n, hn⟩ := hk
    · exact absurd (hnone.symm.trans hname) (Option.some_ne_none k).symm
    · exact absurd hn (Option.some_ne_none k).symm

end Empty

/-! ## A small volume -/

/-- The superblock of a disk like that of four inodes, on which the free chain begins with
block 3. -/
def spareBlock : Superblock :=
  { fourInodes with signature := sfsFileTypeSignature, freeBlocksHead := 3 }

def spareBlank : Filesystem DirFiles :=
  Filesystem.blank spareBlock ⟨fun _ _ => Block.zero, []⟩

/-- The free chain 3, 4, of index nodes without slots. -/
def spareChain : Filesystem DirFiles :=
  spareBlank.writeBlock 3 (Block.zero.setWord 0 4)

/-- A disk with an empty root directory, three free inodes and two free blocks. -/
def spareDisk : Filesystem DirFiles :=
  spareChain.putInodes freshInodes

/-- A session with it, before the first request. -/
def spareSession : Session :=
  ⟨⟨[], sfsFiledescriptorPoolInit, spareDisk⟩, [], []⟩

section Sample

theorem block_spareChain : spareChain.disk.block (3 : UInt64).toNat = Block.zero.setWord 0 4 ∧
    spareChain.disk.block (4 : UInt64).toNat = Block.zero := by
  have hreliable : spareBlank.Reliable := reliable_blank (by decide) (by decide)
  refine ⟨Filesystem.block_writeBlock _ _ _, ?_⟩
  rw [spareChain, Filesystem.block_writeBlock_of_ne _ (hreliable.holds (by decide)) (by decide)]
  exact block_blank (by decide)

theorem inodeState_spareChain : InodeState spareChain := by
  have hstate : InodeState spareBlank := by
    refine ⟨reliable_blank (by decide) (by decide), ⟨?_, ?_⟩,
      ⟨Or.inl rfl, fun _ => rfl, fun h => absurd rfl h⟩⟩
    · show spareBlock.inodes.toNat ≤ 3 * spareBlock.inodeTableBlocks.toNat
      decide
    · show spareBlock.inodeTableBlocks < spareBlock.blocks
      decide
  have hframe : AllocatorFrame (· = 3) spareBlank spareChain :=
    AllocatorFrame.of_writeBlock _ (hstate.reliable.holds (by decide)) rfl
  refine DataStep.inodeState ⟨hframe, ?_⟩ hstate
  rintro b rfl
  exact Superblock.notInTable_of_inRange (s := spareBlock) (by decide) (by decide)

theorem image_spareChain : Image spareChain [3, 4] [] [] := by
  obtain ⟨h3, h4⟩ := block_spareChain
  have hcensus : census spareChain [3, 4] [] [] = [3, 4] := by
    rw [census, poolOf_cons, poolOf_cons, h3, h4, Block.slots_setWord_zero, Block.slots_zero,
      poolOf_nil]
    rfl
  refine ⟨inodeState_spareChain, ⟨rfl, by decide, ?_, by decide, ?_⟩, List.nodup_nil,
    fun k hk => absurd hk List.not_mem_nil, ?_, fun b hb => ?_⟩
  · rw [Disk.nextNode, h3, Block.word_setWord _ _ (by decide)]
  · show Disk.nextNode _ 4 = 0
    rw [Disk.nextNode, h4, Block.word_zero]
  · rw [hcensus]
    decide
  · rw [hcensus] at hb
    show spareBlock.inRange b = true
    simp only [List.mem_cons, List.not_mem_nil, or_false] at hb
    obtain rfl | rfl := hb <;> decide

/-- Putting inodes into their places keeps the data blocks. -/
theorem keeps_putInodes {fs : Filesystem DirFiles} {l : List Inode} (h : InodeState fs)
    (hcached : fs.cachedBlock = 0) (hl : ∀ v ∈ l, fs.superblock.ValidInumber v.inumber) :
    Keeps fs (fs.putInodes l) := by
  induction l with
  | nil => exact ⟨rfl, rfl, rfl, fun _ _ => rfl⟩
  | cons v l ih =>
    have hl' : ∀ u ∈ l, fs.superblock.ValidInumber u.inumber := fun u hu =>
      hl u (List.mem_cons_of_mem v hu)
    obtain ⟨hstate, -, hsuperblock⟩ := inodeState_putInodes h hcached hl'
    have hrest := ih hl'
    have hput : Keeps (fs.putInodes l) (fs.putInodes (v :: l)) := keeps_putInode hstate (by
      rw [hsuperblock]
      exact hl v List.mem_cons_self)
    refine ⟨hput.superblock.trans hrest.superblock, hput.mallocs.trans hrest.mallocs,
      hput.size.trans hrest.size, fun m hm => (hput.block m ?_).trans (hrest.block m hm)⟩
    rw [hsuperblock]
    exact hm

theorem spareDisk_spec : InodeState spareDisk ∧ spareDisk.superblock = spareBlock ∧
    ∀ v ∈ freshInodes, spareDisk.logicalInode v.inumber = v := by
  have hvalid : ∀ v ∈ freshInodes, spareBlock.ValidInumber v.inumber := valid_freshInodes
  obtain ⟨h, -, hsuperblock⟩ := inodeState_putInodes inodeState_spareChain rfl hvalid
  exact ⟨h, hsuperblock, fun v hv =>
    logicalInode_putInodes inodeState_spareChain rfl hvalid (by decide) hv⟩

/-- The inode of the root directory. -/
theorem root_spareDisk : spareDisk.logicalInode 1 = { emptyDirectory 1 with links := 1 } :=
  spareDisk_spec.2.2 { emptyDirectory 1 with links := 1 } List.mem_cons_self

theorem free_spareDisk (k next : UInt64) (h : freeInode k next ∈ freshInodes) :
    spareDisk.logicalInode k = freeInode k next := by
  have hinode := spareDisk_spec.2.2 _ h
  have hinumber : (freeInode k next).inumber = k := rfl
  rw [hinumber] at hinode
  exact hinode

/-- Blocks 3 and 4 are free, and the root directory has none. -/
theorem image_spareDisk : Image spareDisk [3, 4] [1] [] := by
  have hvalid : ∀ v ∈ freshInodes, spareBlock.ValidInumber v.inumber := valid_freshInodes
  have himage : Image spareDisk [3, 4] [] [] :=
    image_spareChain.of_keeps spareDisk_spec.1 (keeps_putInodes inodeState_spareChain rfl hvalid)
  refine himage.addFile List.not_mem_nil ?_ ?_
  · rw [spareDisk_spec.2.1]
    exact hvalid { emptyDirectory 1 with links := 1 } List.mem_cons_self
  · rw [Filesystem.ownedBy, root_spareDisk]
    exact Inode.owned_of_empty (fun i => Inode.pointer_zero i) _

theorem freeInodes_spareDisk : FreeInodes spareDisk [2, 3, 4] := by
  have h2 := free_spareDisk 2 3 (by simp [freshInodes])
  have h3 := free_spareDisk 3 4 (by simp [freshInodes])
  have h4 := free_spareDisk 4 0 (by simp [freshInodes])
  refine ⟨?_, fun k hk => ?_, fun k hk => ?_⟩
  · rw [spareDisk_spec.2.1]
    refine ⟨rfl, by decide, ?_, by decide, ?_, by decide, ?_⟩
    · exact congrArg Inode.size h2
    · exact congrArg Inode.size h3
    · exact congrArg Inode.size h4
  · rw [spareDisk_spec.2.1]
    simp only [List.mem_cons, List.not_mem_nil, or_false] at hk
    obtain rfl | rfl | rfl := hk <;> constructor <;> decide
  · simp only [List.mem_cons, List.not_mem_nil, or_false] at hk
    obtain rfl | rfl | rfl := hk
    · exact congrArg Inode.inumber h2
    · exact congrArg Inode.inumber h3
    · exact congrArg Inode.inumber h4

/-- The numbers of its inodes. -/
theorem validInumber_spareDisk {k : UInt64} (hk : spareDisk.superblock.ValidInumber k) :
    k = 1 ∨ k ∈ [2, 3, 4] := by
  rw [or_iff_not_imp_left]
  intro hk1
  refine (mem_list_iff Block.zero k).mpr ⟨?_, hk1⟩
  rw [spareDisk_spec.2.1] at hk
  show (freshFilesystem Block.zero).superblock.ValidInumber k
  rw [superblock_freshFilesystem]
  exact hk

theorem links_spareDisk {k : UInt64} (hk : k ∈ [2, 3, 4]) :
    (spareDisk.logicalInode k).links = 0 := by
  simp only [List.mem_cons, List.not_mem_nil, or_false] at hk
  obtain rfl | rfl | rfl := hk
  · exact congrArg Inode.links (free_spareDisk 2 3 (by simp [freshInodes]))
  · exact congrArg Inode.links (free_spareDisk 3 4 (by simp [freshInodes]))
  · exact congrArg Inode.links (free_spareDisk 4 0 (by simp [freshInodes]))

/-- **The disk is sound.** -/
theorem soundDisk_spareDisk : SoundDisk spareDisk [1] ⟨[2, 3, 4], 0⟩ where
  shelved := by
    refine ⟨⟨[3, 4], image_spareDisk⟩, freeInodes_spareDisk,
      fun h0 => absurd h0.1 (UInt64.lt_irrefl 0), fun k hk => ?_, ?_⟩
    · simp only [List.mem_cons, List.not_mem_nil, or_false] at hk
      obtain rfl | rfl | rfl := hk <;> decide
    · rw [spareDisk_spec.2.1]
      decide
  root := List.mem_cons_self
  own k hk := by
    obtain rfl | hk := validInumber_spareDisk hk
    · exact congrArg Inode.inumber root_spareDisk
    · exact freeInodes_spareDisk.own k hk
  alive k hk hlinks := by
    obtain rfl | hk := validInumber_spareDisk hk
    · exact List.mem_cons_self
    · exact absurd (links_spareDisk hk) hlinks
  memory _ := rfl

theorem size_spareDisk : (spareDisk.logicalInode 1).size = 0 := by
  rw [root_spareDisk]
  rfl

theorem diskSlots_spareDisk : spareDisk.diskSlots = [] :=
  diskSlots_of_empty size_spareDisk

theorem sound_spareSession : spareSession.Sound [1] ⟨[2, 3, 4], 0⟩ := by
  refine soundDisk_spareDisk.sound_of_empty (s := ⟨[], sfsFiledescriptorPoolInit, spareDisk⟩)
    (fun hlocked => absurd hlocked (Option.some_ne_none _ ∘ Eq.symm)) rfl ?_ size_spareDisk
  show (spareDisk.logicalInode 1).mode &&& sIfdir ≠ 0
  rw [root_spareDisk]
  decide

/-- No inode is lost. -/
theorem accounted_spareSession : spareSession.Accounted ⟨[2, 3, 4], 0⟩ where
  free _ hk hk1 _ := (validInumber_spareDisk hk).resolve_left hk1
  links _ hk := links_spareDisk hk

theorem on_spareSession : Volume.empty.On spareSession :=
  sound_spareSession.on_empty size_spareDisk

/-- **A file can be created on it.** -/
theorem diskReady_createA : spareSession.DiskReady createA := by
  refine ⟨by decide, fun _ => ?_, takesEntry_of_empty image_spareDisk size_spareDisk ?_⟩
  · show spareDisk.superblock.ValidInumber spareDisk.superblock.freeInodeHead
    rw [spareDisk_spec.2.1]
    exact ⟨by decide, by decide⟩
  · show (spareDisk.logicalInode 1).pointer 0 = 0
    rw [root_spareDisk]
    exact Inode.pointer_zero 0

/-- Bytes to write. -/
def ones : Memory := fun _ => 1

/-- A file is created, and bytes are written by the handle 0. -/
def createAndWrite : Sfs DirFiles ((ℤ × Option UInt64) × ℤ) := do
  let created ← sfsCreate fsLayer ⟨0, 0, 0⟩ [slash, 97] 0 0
  let written ← sfsWrite fsLayer ones Block.zero 512 0 0
  return (created, written)

/-- The block `tmp_block` is on the stack, with what was there. -/
def writeOnes : Request :=
  .write ones Block.zero 512 0 0

def readBack (fh : UInt64) : Request :=
  .read (fun _ => 0) Block.zero 512 0 fh

/-- **The file is created and written.** -/
theorem createAndWrite_spareSession : ∃ s s',
    (createA.reply fsLayer).run spareSession.state = .done (.handle (0, some 0)) s ∧
    (writeOnes.reply fsLayer).run s = .done (.code 512) s' := by
  have hvalue : (createAndWrite.run spareSession.state).value = some ((0, some 0), 512) := by
    decide +kernel
  obtain ⟨s', hrun⟩ := Outcome.exists_of_value hvalue
  obtain ⟨created, s, hcreate, hrest⟩ := Run.bind_eq_done.mp hrun
  obtain ⟨written, t, hwrite, hpure⟩ := Run.bind_eq_done.mp hrest
  cases hpure
  exact ⟨s, s', Run.bind_eq_done.mpr ⟨_, _, hcreate, rfl⟩, Run.bind_eq_done.mpr ⟨_, _, hwrite, rfl⟩⟩

/-- The file can be written. -/
theorem volumeReady_writeOnes (x : Session) : x.VolumeReady writeOnes :=
  fun _ hlast => absurd hlast (by decide : ¬ sfsNdirBlocks ≤ (blockRange 0 512).lastBlock)

/-- **A file is created and written**, and is the one that the client has open. -/
theorem serve_spareSession : ∃ x y, x.files = [0] ∧ y.files = [0] ∧ y.dirs = [] ∧
    spareSession.DiskHasRoom createA ∧
    VolumeServe spareSession (createA, .handle (0, some 0)) x ∧
    VolumeServe x (writeOnes, .code 512) y := by
  obtain ⟨s, s', hcreate, hwrite⟩ := createAndWrite_spareSession
  have hroom : spareSession.DiskHasRoom createA := by
    intro name _ _
    rw [show spareSession.state.fs.diskSlots = [] from diskSlots_spareDisk]
    decide
  exact ⟨⟨s, [0], []⟩, ⟨s', [0], []⟩, rfl, rfl, rfl, hroom, ⟨Or.inl ⟨[97], fileName_a, rfl⟩,
    diskReady_createA, .serve (by decide : (0 : UInt8) ∉ [slash, 97]) hcreate⟩,
    ⟨Or.inr (Or.inr trivial), volumeReady_writeOnes _,
      .serve ⟨0, List.mem_cons_self, rfl⟩ hwrite⟩⟩

/-- **A file is created, written and read.** -/
theorem volumeServe_spareSession : ∃ answer y,
    Exec (fun x e y => x.DiskHasRoom e.1 ∧ VolumeServe x e y) spareSession
      [(createA, .handle (0, some 0)), (writeOnes, .code 512), (readBack 0, answer)] y := by
  obtain ⟨x, y, -, hfiles, -, hroom, hcreate, hwrite⟩ := serve_spareSession
  obtain ⟨v, -, hv⟩ := hcreate.volume on_spareSession
  obtain ⟨v', -, hv'⟩ := hwrite.volume hv
  obtain ⟨A, L, h⟩ := hv'.sound
  obtain ⟨answer, z, hread⟩ := h.serves (r := readBack 0) (Or.inr (Or.inr trivial)) trivial
    ⟨0, hfiles ▸ List.mem_cons_self, rfl⟩
  exact ⟨answer, z,
    .cons ⟨hroom, hcreate⟩ (.cons ⟨trivial, hwrite⟩ (.cons ⟨trivial, hread⟩ (.nil z)))⟩

/-- The link counts after it. -/
theorem links_and_free_inodes_spareSession : ∃ tr y, ∃ L' : FreeList,
    Exec RoomyServe spareSession tr y ∧
    tr.length = 3 ∧ ∀ k, y.state.fs.superblock.ValidInumber k → k ≠ 1 →
      (y.state.fs.logicalInode k).links.toNat = y.diskRefs k ∧
        (k ∈ L'.inodes ↔ y.diskRefs k = 0) := by
  obtain ⟨answer, y, hexec⟩ := volumeServe_spareSession
  have hserves : Exec RoomyServe spareSession _ y := hexec.mono fun _ _ _ h => ⟨h.1, h.2.2⟩
  obtain ⟨A', L', -, hlinks⟩ :=
    links_and_free_inodes sound_spareSession accounted_spareSession hserves
  exact ⟨_, y, L', hserves, rfl, hlinks⟩

end Sample

end SimpleFileSystem
