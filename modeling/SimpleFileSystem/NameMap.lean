import SimpleFileSystem.LinkCounts
import Mathlib.Data.Finmap

/-!
# The root directory as a finite map

What the root directory is for is a finite map from names to inodes, with a table of the
open handles beside it.  `NameStep` is what its clients may then expect of each request on a
name or a handle: what it answers, and how the map changes.

`Serve.names` matches every request of a session with such a step, and
`root_is_name_map` every run.  The search of `sfs_getattr` is the one that goes wrong: it
follows a pointer into memory that it has freed, so the condition on it is that the memory
still holds the number of the inode.
-/

namespace SimpleFileSystem

/-! ## The map -/

/-- The inodes of the names, and those of the open handles. -/
structure NameMap where
  names : Finmap fun _ : CString => UInt64
  handles : ℕ → Option UInt64

namespace NameMap

/-- No names and no handles. -/
def empty : NameMap :=
  ⟨∅, fun _ => none⟩

/-- With a handle more. -/
def opened (m : NameMap) (n : ℕ) (k : UInt64) : NameMap :=
  { m with handles := Function.update m.handles n (some k) }

/-- With a handle less. -/
def closed (m : NameMap) (n : ℕ) : NameMap :=
  { m with handles := Function.update m.handles n none }

/-- **All names**, each once, with the attributes of the inode that it is bound to. -/
structure Catalogue (m : NameMap) (all : List (CString × Stat)) : Prop where
  nodup : (all.map Prod.fst).Nodup
  mem : ∀ name k, m.names.lookup name = some k ↔ ∃ stat, (name, stat) ∈ all ∧ stat.ino = k

/-- The calls of a filler that lists all names. -/
def listing (all : List (CString × Stat)) : List FillerCall :=
  [(dot, none), (dot ++ dot, none)] ++ all.map fun entry => (entry.1, some entry.2)

end NameMap

/-- **A request on a finite map.** -/
inductive NameStep : NameMap → Request × Reply → NameMap → Prop where
  | getattr {m : NameMap} {name : CString} {k : UInt64} {stat : Stat}
      (bound : m.names.lookup name = some k) (ino : stat.ino = k) :
      NameStep m (.getattr (slash :: name), .stat (0, some stat)) m
  | getattrMissing {m : NameMap} {name : CString} (unbound : m.names.lookup name = none) :
      NameStep m (.getattr (slash :: name), .stat (-enoent, none)) m
  | creates {m : NameMap} {context : FuseContext} {name : CString} {mode : UInt32}
      {flags k : UInt64} {n : ℕ} (unbound : m.names.lookup name = none)
      (fresh : m.handles n = none) :
      NameStep m (.create context (slash :: name) mode flags, .handle (0, some (ofCInt n)))
        ⟨m.names.insert name k, Function.update m.handles n (some k)⟩
  /-- There is no free inode, or no room in the directory. -/
  | createFails {m : NameMap} {context : FuseContext} {name : CString} {mode : UInt32}
      {flags : UInt64} {ret : ℤ} (unbound : m.names.lookup name = none)
      (failed : ret = -edquot ∨ ret = -1) :
      NameStep m (.create context (slash :: name) mode flags, .handle (ret, none)) m
  | createExists {m : NameMap} {context : FuseContext} {name : CString} {mode : UInt32}
      {flags k : UInt64} (bound : m.names.lookup name = some k) (excl : flags &&& oExcl ≠ 0) :
      NameStep m (.create context (slash :: name) mode flags, .handle (-eexist, none)) m
  | createReopens {m : NameMap} {context : FuseContext} {name : CString} {mode : UInt32}
      {flags k : UInt64} {n : ℕ} (bound : m.names.lookup name = some k)
      (shared : flags &&& oExcl = 0) (fresh : m.handles n = none) :
      NameStep m (.create context (slash :: name) mode flags, .handle (0, some (ofCInt n)))
        (m.opened n k)
  | unlinks {m : NameMap} {name : CString} {k : UInt64} (bound : m.names.lookup name = some k) :
      NameStep m (.unlink (slash :: name), .code 0) { m with names := m.names.erase name }
  | unlinkMissing {m : NameMap} {name : CString} (unbound : m.names.lookup name = none) :
      NameStep m (.unlink (slash :: name), .code (-enoent)) m
  | opens {m : NameMap} {name : CString} {flags k : UInt64} {n : ℕ}
      (bound : m.names.lookup name = some k) (fresh : m.handles n = none) :
      NameStep m (.open (slash :: name) flags, .handle (0, some (ofCInt n))) (m.opened n k)
  | openMissing {m : NameMap} {name : CString} {flags : UInt64}
      (unbound : m.names.lookup name = none) :
      NameStep m (.open (slash :: name) flags, .handle (-enoent, none)) m
  | releases {m : NameMap} {n : ℕ} {k : UInt64} (held : m.handles n = some k) :
      NameStep m (.release (ofCInt n), .code 0) (m.closed n)
  | readdir {m : NameMap} {filler : List FillerCall → Bool} {calls : List FillerCall}
      {all : List (CString × Stat)} (catalogue : m.Catalogue all)
      (lists : Lists filler [] (NameMap.listing all) calls) :
      NameStep m (.readdir filler [slash], .listing (0, calls)) m

/-- The requests on files of the root directory. -/
def Request.OnName : Request → Prop
  | .getattr path => ∃ name, FileName name ∧ path = slash :: name
  | .create _ path _ _ => ∃ name, FileName name ∧ path = slash :: name
  | .unlink path => ∃ name, FileName name ∧ path = slash :: name
  | .open path _ => ∃ name, FileName name ∧ path = slash :: name
  | .release _ => True
  | .readdir _ _ => True
  | _ => False

/-- The requests that open and close the root directory. -/
def Request.OnDir : Request → Prop
  | .opendir _ _ => True
  | .releasedir _ => True
  | _ => False

/-! ## The entries in use -/

/-- The map has the names and inode numbers of the entries. -/
def Binds (names : Finmap fun _ : CString => UInt64) (slots : List DirEntry) : Prop :=
  ∀ name k, names.lookup name = some k ↔ ∃ e ∈ live slots, cString e.name = name ∧ e.inumber = k

section Binds

variable {names : Finmap fun _ : CString => UInt64} {slots slots' A B : List DirEntry}
  {e e' : DirEntry} {name : CString} {k : UInt64} {b : Ledger}

theorem Binds.lookup_of_entry (h : Binds names slots) (he : e ∈ live slots) :
    names.lookup (cString e.name) = some e.inumber :=
  (h _ _).mpr ⟨e, he, rfl, rfl⟩

theorem Binds.lookup_of_unbound (h : Binds names b.slots) (hnone : b.Unbound name) :
    names.lookup name = none := by
  rw [Option.eq_none_iff_forall_ne_some]
  intro k hk
  obtain ⟨e, he, hname, -⟩ := (h name k).mp hk
  exact hnone e he hname

theorem Binds.of_perm (h : Binds names slots) (hperm : (live slots').Perm (live slots)) :
    Binds names slots' := by
  intro name k
  simp only [h name k, hperm.mem_iff]

/-- **A new binding.** -/
theorem Binds.insert (h : Binds names slots) (hperm : (live slots').Perm (e :: live slots))
    (hname : ∀ d ∈ live slots, cString d.name ≠ cString e.name) :
    Binds (names.insert (cString e.name) e.inumber) slots' := by
  intro name k
  by_cases heq : name = cString e.name
  · subst heq
    rw [Finmap.lookup_insert]
    constructor
    · rintro hk
      exact ⟨e, hperm.mem_iff.mpr List.mem_cons_self, rfl, Option.some.inj hk⟩
    · rintro ⟨d, hd, hdname, rfl⟩
      rcases List.mem_cons.mp (hperm.mem_iff.mp hd) with rfl | hd
      · rfl
      · exact absurd hdname (hname d hd)
  · rw [Finmap.lookup_insert_of_ne _ heq, h name k]
    constructor
    · rintro ⟨d, hd, hdname, hk⟩
      exact ⟨d, hperm.mem_iff.mpr (List.mem_cons_of_mem e hd), hdname, hk⟩
    · rintro ⟨d, hd, hdname, hk⟩
      rcases List.mem_cons.mp (hperm.mem_iff.mp hd) with rfl | hd
      · exact absurd hdname.symm heq
      · exact ⟨d, hd, hdname, hk⟩

/-- **A binding less.** -/
theorem Binds.erase (h : Binds names slots) (hperm : (live slots).Perm (e :: live slots'))
    (hname : ∀ d ∈ live slots', cString d.name ≠ cString e.name) :
    Binds (names.erase (cString e.name)) slots' := by
  intro name k
  by_cases heq : name = cString e.name
  · subst heq
    rw [Finmap.lookup_erase]
    refine ⟨fun hk => absurd hk (Option.some_ne_none k).symm, ?_⟩
    rintro ⟨d, hd, hdname, -⟩
    exact absurd hdname (hname d hd)
  · rw [Finmap.lookup_erase_ne heq, h name k]
    constructor
    · rintro ⟨d, hd, hdname, hk⟩
      rcases List.mem_cons.mp (hperm.mem_iff.mp hd) with rfl | hd
      · exact absurd hdname.symm heq
      · exact ⟨d, hd, hdname, hk⟩
    · rintro ⟨d, hd, hdname, hk⟩
      exact ⟨d, hperm.mem_iff.mpr (List.mem_cons_of_mem e hd), hdname, hk⟩

end Binds

/-! ## The handles -/

/-- The map has the inode numbers of the handles. -/
def Holds (handles : ℕ → Option UInt64) (files : List ℕ) (pool : FdPool) : Prop :=
  ∀ n k, handles n = some k ↔ n ∈ files ∧ (pool.slot n).inumber = k

section Holds

variable {handles : ℕ → Option UInt64} {files opened : List ℕ} {pool pool' : FdPool} {n : ℕ}
  {k : UInt64}

theorem Holds.eq_none (h : Holds handles files pool) (hn : n ∉ files) : handles n = none :=
  Option.eq_none_iff_forall_ne_some.mpr fun k hk => hn ((h n k).mp hk).1

theorem Holds.open (h : Holds handles files pool) (hfiles : files ⊆ opened)
    (hhandle : HandleOpened pool pool' opened n k) :
    Holds (Function.update handles n (some k)) (n :: files) pool' := by
  intro m j
  by_cases hmn : m = n
  · subst hmn
    rw [Function.update_self, hhandle.inumber, Option.some.injEq]
    exact ⟨fun hk => ⟨List.mem_cons_self, hk⟩, And.right⟩
  · rw [Function.update_of_ne hmn, h m j, List.mem_cons, or_iff_right hmn]
    refine and_congr_right fun hm => ?_
    rw [hhandle.others m (hfiles hm)]

theorem Holds.close (h : Holds handles files pool) (hfiles : files ⊆ opened)
    (hnodup : files.Nodup) (hhandle : HandleClosed pool pool' opened n) :
    Holds (Function.update handles n none) (files.erase n) pool' := by
  intro m j
  rw [hnodup.mem_erase_iff]
  by_cases hmn : m = n
  · subst hmn
    rw [Function.update_self]
    exact ⟨fun hk => absurd hk (Option.some_ne_none j).symm, fun hm => absurd rfl hm.1.1⟩
  · rw [Function.update_of_ne hmn, h m j, and_iff_right hmn]
    refine and_congr_right fun hm => ?_
    rw [hhandle.others m (hfiles hm) hmn]

end Holds

/-! ## Every request is one on the map -/

/-- **The map of a session.** -/
structure NameMap.Tracks (m : NameMap) (x : Session) (b : Ledger) : Prop where
  describes : x.Describes b
  binds : Binds m.names b.slots
  holds : Holds m.handles x.files b.pool

namespace NameMap.Tracks

variable {m : NameMap} {x : Session} {b b' : Ledger} {s : SfsState DirFiles} {n : ℕ}
  {k : UInt64} {e : DirEntry} {names : Finmap fun _ : CString => UInt64}

theorem files_subset (h : m.Tracks x b) : x.files ⊆ b.opened := fun _ hn =>
  h.describes.mem_opened (List.mem_append_left _ hn)

theorem nodup_files (h : m.Tracks x b) : x.files.Nodup :=
  (List.nodup_append.mp h.describes.nodup).1

/-- A change that leaves the handles alone. -/
theorem same (h : m.Tracks x b) (hbooks : b'.Books s) (hpool : b'.pool = b.pool)
    (hopened : b'.opened = b.opened) (hbinds : Binds names b'.slots) :
    Tracks ⟨names, m.handles⟩ ⟨s, x.files, x.dirs⟩ b' where
  describes := h.describes.same hbooks hpool hopened
  binds := hbinds
  holds := by rw [hpool]; exact h.holds

/-- A handle more. -/
theorem openFile (h : m.Tracks x b) (hbooks : b'.Books s)
    (hhandle : HandleOpened b.pool b'.pool b.opened n k) (hopened : b'.opened = n :: b.opened)
    (hk1 : k ≠ 1) (hbinds : Binds names b'.slots) :
    m.handles n = none ∧
      Tracks ⟨names, Function.update m.handles n (some k)⟩ ⟨s, n :: x.files, x.dirs⟩ b' :=
  ⟨h.holds.eq_none fun hn => hhandle.fresh (h.files_subset hn),
    h.describes.openFile hbooks hhandle hopened hk1, hbinds,
    h.holds.open h.files_subset hhandle⟩

/-- All names, with the attributes of their inodes. -/
theorem catalogue (h : m.Tracks x b) :
    m.Catalogue ((live b.slots).map fun e =>
      (cString e.name, sfsFsInodeToStat (b.view.table e.inumber))) where
  nodup := by
    rw [List.map_map]
    exact h.describes.books.balanced.distinct
  mem name k := by
    have hino : ∀ e ∈ live b.slots,
        (sfsFsInodeToStat (b.view.table e.inumber)).ino = e.inumber := by
      intro e he
      have hb := h.describes.books.balanced
      exact (hb.counted _ (hb.files e he).1 (Ledger.Balanced.refs_of_entry he)).1.inumber
    rw [h.binds name k]
    constructor
    · rintro ⟨e, he, rfl, rfl⟩
      exact ⟨_, List.mem_map.mpr ⟨e, he, rfl⟩, hino e he⟩
    · rintro ⟨stat, hmem, rfl⟩
      obtain ⟨e, he, heq⟩ := List.mem_map.mp hmem
      cases heq
      exact ⟨e, he, rfl, (hino e he).symm⟩

end NameMap.Tracks

section Step

variable {m : NameMap} {x y : Session} {b b' : Ledger} {r : Request} {reply : Reply}
  {ev : LedgerEvent} {s : SfsState DirFiles} {allocate : Fs DirFiles (Option Inode)}
  {handsOut : View → UInt64 → UInt64 → Prop} {name : CString} {flags : UInt64}

/-- What the entry with the name tells of the map. -/
theorem NameMap.Tracks.lookup (h : m.Tracks x b) {e : DirEntry} (he : b.HasEntry e)
    (hname : cString e.name = name) : m.names.lookup name = some e.inumber := by
  rw [← hname]
  exact h.binds.lookup_of_entry he.mem

/-- A request that looks changes nothing. -/
theorem NameMap.Tracks.look (h : m.Tracks x b) (hbooks : b'.Books s)
    (hstep : LedgerStep handsOut b .look b') : m.Tracks ⟨s, x.files, x.dirs⟩ b' := by
  obtain ⟨hpool, hopened⟩ := hstep.handles h.describes.books.balanced
  have hslots : b'.slots = b.slots := by
    cases hstep
    rfl
  refine h.same hbooks hpool hopened ?_
  rw [hslots]
  exact h.binds

/-- A handle of a bound name. -/
theorem NameMap.Tracks.opens (h : m.Tracks x b) (hbooks : b'.Books s) {k : UInt64} {n : ℕ}
    (hstep : LedgerStep handsOut b (.opens k n) b') :
    m.handles n = none ∧ (m.opened n k).Tracks
      ⟨s, Reply.handles (.handle (0, some (ofCInt n))) ++ x.files, x.dirs⟩ b' := by
  obtain ⟨hhandle, hopened, hk1⟩ := hstep.handles h.describes.books.balanced
  have hslots : b'.slots = b.slots := by
    cases hstep
    rfl
  rw [handles_of_opened hbooks.balanced (List.Perm.of_eq hopened)]
  refine h.openFile hbooks hhandle hopened hk1 ?_
  rw [hslots]
  exact h.binds

theorem path_ne_slash (hname : FileName name) : slash :: name ≠ [slash] :=
  fun e => hname.nonempty (List.cons.inj e).2

/-- **`sfs_create` on the map.** -/
theorem NameMap.Tracks.create (h : m.Tracks x b) (hbooks : b'.Books s)
    (hstep : LedgerStep handsOut b ev b') {a : ℤ × Option UInt64}
    (hans : CreateAnswer b name flags a ev) (context : FuseContext) (mode : UInt32) :
    ∃ m', NameStep m (.create context (slash :: name) mode flags, .handle a) m' ∧
      m'.Tracks ⟨s, Reply.handles (.handle a) ++ x.files, x.dirs⟩ b' := by
  obtain ⟨e, he, hname, hexcl, rfl, rfl⟩ | ⟨e, n, he, hname, hshared, rfl, rfl⟩ |
    ⟨hnone, rfl, rfl⟩ | ⟨hnone, rfl, k, rfl⟩ | ⟨hnone, k, n, rfl, rfl⟩ := hans
  · exact ⟨m, .createExists (h.lookup he hname) hexcl, h.look hbooks hstep⟩
  · obtain ⟨hfresh, htracks⟩ := h.opens hbooks hstep
    exact ⟨_, .createReopens (h.lookup he hname) hshared hfresh, htracks⟩
  · exact ⟨m, .createFails (h.binds.lookup_of_unbound hnone) (Or.inl rfl), h.look hbooks hstep⟩
  · obtain ⟨hpool, hopened⟩ := hstep.handles h.describes.books.balanced
    refine ⟨m, .createFails (h.binds.lookup_of_unbound hnone) (Or.inr rfl), ?_⟩
    cases hstep
    exact h.same hbooks hpool hopened h.binds
  · obtain ⟨hhandle, hopened, hk1⟩ := hstep.handles h.describes.books.balanced
    have hbinds : Binds (m.names.insert name k) b'.slots := by
      cases hstep with
      | creates root fills fresh nonempty stored unused sets handed deallocated handle =>
        have hk0 : k ≠ 0 := Ne.symm (UInt64.ne_of_lt unused.valid.1)
        have hinsert := h.binds.insert (fills.live_perm hk0) fun d hd => by
          rw [stored]
          exact fresh d hd
        rw [stored] at hinsert
        exact hinsert
    obtain ⟨hfresh, htracks⟩ := h.openFile hbooks hhandle hopened hk1 hbinds
    rw [handles_of_opened hbooks.balanced (List.Perm.of_eq hopened)]
    exact ⟨_, .creates (h.binds.lookup_of_unbound hnone) hfresh, htracks⟩

/-- **`sfs_unlink` on the map.** -/
theorem NameMap.Tracks.unlink (h : m.Tracks x b) (hbooks : b'.Books s)
    (hstep : LedgerStep handsOut b ev b') {a : ℤ} (hfile : FileName name)
    (hans : UnlinkAnswer b (slash :: name) name a ev) :
    ∃ m', NameStep m (.unlink (slash :: name), .code a) m' ∧
      m'.Tracks ⟨s, x.files, x.dirs⟩ b' := by
  obtain ⟨hpath, -⟩ | ⟨-, hnone, rfl, rfl⟩ | ⟨-, e, he, hname, rfl, rfl⟩ := hans
  · exact absurd hpath (path_ne_slash hfile)
  · exact ⟨m, .unlinkMissing (h.binds.lookup_of_unbound hnone), h.look hbooks hstep⟩
  · obtain ⟨hpool, hopened⟩ := hstep.handles h.describes.books.balanced
    have hbinds : Binds (m.names.erase name) b'.slots := by
      cases hstep with
      | @unlinks w' A B e e' slots used emptied root dropped =>
        have hperm := live_emptied (A := A) (B := B) used emptied
        rw [← slots] at hperm
        have hdistinct := ((hperm.map fun e => cString e.name).nodup_iff).mp
          h.describes.books.balanced.distinct
        have herase := h.binds.erase hperm fun d hd heq =>
          (List.nodup_cons.mp hdistinct).1 (List.mem_map.mpr ⟨d, hd, heq⟩)
        rw [hname] at herase
        exact herase
    exact ⟨_, .unlinks (h.lookup he hname), h.same hbooks hpool hopened hbinds⟩

/-- **Every request of a session** is one on the map. -/
theorem Serve.names (h : m.Tracks x b) (hname : r.OnName) (hcareful : x.Careful r)
    (hcreate : b.MayCreate allocate handsOut r)
    (hserve : Serve (loggedLayer allocate) x (r, reply) y) :
    ∃ m' b', NameStep m (r, reply) m' ∧ m'.Tracks y b' := by
  have hmeets := h.describes.meets hcareful hcreate
  obtain ⟨ev, b', hstep, hy, hans⟩ := hserve.ledger h.describes hmeets
  suffices hmatch : ∃ m', NameStep m (r, reply) m' ∧ m'.Tracks y b' by
    obtain ⟨m', hnames, htracks⟩ := hmatch
    exact ⟨m', b', hnames, htracks⟩
  cases hserve with
  | @serve _ _ s admits run =>
  have hbooks : b'.Books s := by
    have hbooks := hy.books
    rw [Session.after_state] at hbooks
    exact hbooks
  cases r with
  | getattr path =>
    obtain ⟨name, hfile, rfl⟩ := hname
    cases reply with
    | stat a =>
      obtain ⟨hpath, -⟩ | ⟨-, hnone, rfl, rfl⟩ | ⟨-, e, he, hentry, rfl, rfl⟩ :=
        (nameAnswer_file hfile).mp hans
      · exact absurd hpath (path_ne_slash hfile)
      · exact ⟨m, .getattrMissing (h.binds.lookup_of_unbound hnone), h.look hbooks hstep⟩
      · exact ⟨m, .getattr (h.lookup he hentry) he.plain.inumber, h.look hbooks hstep⟩
    | _ => exact hans.elim
  | create context path mode flags =>
    obtain ⟨name, hfile, rfl⟩ := hname
    cases reply with
    | handle a => exact h.create hbooks hstep ((nameAnswer_file hfile).mp hans) context mode
    | _ => exact hans.elim
  | unlink path =>
    obtain ⟨name, hfile, rfl⟩ := hname
    cases reply with
    | code a => exact h.unlink hbooks hstep hfile ((nameAnswer_file hfile).mp hans)
    | _ => exact hans.elim
  | «open» path flags =>
    obtain ⟨name, hfile, rfl⟩ := hname
    cases reply with
    | handle a =>
      obtain ⟨hnone, rfl, rfl⟩ | ⟨e, n, he, hentry, rfl, rfl⟩ := (nameAnswer_file hfile).mp hans
      · exact ⟨m, .openMissing (h.binds.lookup_of_unbound hnone), h.look hbooks hstep⟩
      · obtain ⟨hfresh, htracks⟩ := h.opens hbooks hstep
        exact ⟨_, .opens (h.lookup he hentry) hfresh, htracks⟩
    | _ => exact hans.elim
  | release fh =>
    cases reply with
    | code a =>
      obtain ⟨rfl, n, k, rfl, rfl⟩ := hans
      obtain ⟨hhandle, hopened, hk, hk1⟩ := hstep.handles h.describes.books.balanced
      have hslots : b'.slots = b.slots := by
        cases hstep
        rfl
      have hn : n ∈ x.files :=
        (List.mem_append.mp (h.describes.opened.mem_iff.mp hhandle.mem)).resolve_right
          fun hdir => hk1 (hk ▸ h.describes.dirs n hdir)
      have hfd := h.describes.books.balanced.fd_of_opened hhandle.mem
      refine ⟨_, .releases ((h.holds n k).mpr ⟨hn, hk⟩), hy, ?_, ?_⟩
      · rw [hslots]
        exact h.binds
      · show Holds _ (x.files.erase (toCInt (ofCInt n)).toNat) _
        rw [hfd]
        exact h.holds.close h.files_subset h.nodup_files hhandle
    | _ => exact hans.elim
  | readdir filler path =>
    cases reply with
    | listing a =>
      cases (show path = [slash] from admits)
      obtain ⟨ret, calls⟩ := a
      obtain ⟨hret, hlists, rfl⟩ := hans
      cases (show ret = 0 from hret)
      refine ⟨m, .readdir h.catalogue ?_, h.look hbooks hstep⟩
      rw [NameMap.listing, List.map_map]
      exact hlists
    | _ => exact hans.elim
  | _ => exact hname.elim

/-- **A request on the root directory** leaves the map alone. -/
theorem Serve.names_of_onDir (h : m.Tracks x b) (hdir : r.OnDir)
    (hmeets : b.Meets allocate handsOut r) (hserve : Serve (loggedLayer allocate) x (r, reply) y) :
    ∃ b', m.Tracks y b' := by
  obtain ⟨ev, b', hstep, hy, hans⟩ := hserve.ledger h.describes hmeets
  have hhandles := hstep.handles h.describes.books.balanced
  cases hserve with
  | @serve _ _ s admits run =>
  cases r with
  | opendir path flags =>
    cases reply with
    | handle a =>
      obtain ⟨n, rfl, rfl⟩ := hans
      have hslots : b'.slots = b.slots := by
        cases hstep
        rfl
      refine ⟨b', hy, ?_, fun i k => (h.holds i k).trans (and_congr_right fun hi => ?_)⟩
      · rw [hslots]
        exact h.binds
      · rw [hhandles.1.others i (h.files_subset hi)]
    | _ => exact hans.elim
  | releasedir fh =>
    cases reply with
    | code a =>
      obtain ⟨rfl, n, rfl, rfl⟩ := hans
      have hslots : b'.slots = b.slots := by
        cases hstep
        rfl
      refine ⟨b', hy, ?_, fun i k => (h.holds i k).trans (and_congr_right fun hi => ?_)⟩
      · rw [hslots]
        exact h.binds
      · -- the handle is one of the root directory, and so it is none of a file
        have hne : i ≠ n := by
          rintro rfl
          exact h.describes.files i hi hhandles.2.2
        rw [hhandles.1.others i (h.files_subset hi) hne]
    | _ => exact hans.elim
  | _ => exact hdir.elim

end Step

/-! ## Runs -/

/-- The map has the names in the root directory, each once, and the handles. -/
structure NameMap.Agrees (m : NameMap) (x : Session) : Prop where
  distinct : ((live x.state.fs.rootSlots).map fun e => cString e.name).Nodup
  binds : Binds m.names x.state.fs.rootSlots
  holds : Holds m.handles x.files x.state.fdPool

theorem NameMap.Tracks.agrees {m : NameMap} {x : Session} {b : Ledger} (h : m.Tracks x b) :
    m.Agrees x where
  distinct := by
    rw [h.describes.slots]
    exact h.describes.books.balanced.distinct
  binds := by
    rw [h.describes.slots]
    exact h.binds
  holds := by
    rw [h.describes.books.pool]
    exact h.holds

/-- Requests on names, each in a state that meets its condition. -/
structure Session.NameReady (allocate : Fs DirFiles (Option Inode)) (x : Session) (r : Request) :
    Prop where
  onName : r.OnName
  careful : x.Careful r
  /-- `sfs_fs_inode_allocate` fails, or returns an inode that is not in use. -/
  allocates : ∀ b, x.Describes b → b.MayCreate allocate (fun _ _ _ => True) r

/-- Such a request, served. -/
def NameServe (allocate : Fs DirFiles (Option Inode)) (x : Session) (e : Request × Reply)
    (y : Session) : Prop :=
  x.NameReady allocate e.1 ∧ Serve (loggedLayer allocate) x e y

section Runs

variable {x y : Session} {tr : List (Request × Reply)} {allocate : Fs DirFiles (Option Inode)}

/-- A session starts with the empty map. -/
theorem Session.Fresh.tracks (hx : x.Fresh) : NameMap.empty.Tracks x x.ledger where
  describes := hx.describes
  binds name k := by
    rw [Session.ledger, hx.empty, NameMap.empty, Finmap.lookup_empty]
    constructor
    · exact fun hk => absurd hk (Option.some_ne_none k).symm
    · rintro ⟨e, he, -⟩
      exact absurd he List.not_mem_nil
  holds n k := by
    rw [hx.files]
    constructor
    · exact fun hk => absurd hk (Option.some_ne_none k).symm
    · rintro ⟨hn, -⟩
      exact absurd hn List.not_mem_nil

theorem NameMap.Tracks.exec {m : NameMap} {b : Ledger} (h : m.Tracks x b)
    (hexec : Exec (NameServe allocate) x tr y) :
    ∃ m' b', Exec NameStep m tr m' ∧ m'.Tracks y b' := by
  have hstep : ∀ s e t a, (∃ b, NameMap.Tracks a s b) → NameServe allocate s e t →
      ∃ a', NameStep a e a' ∧ ∃ b', a'.Tracks t b' := by
    rintro s ⟨r, reply⟩ t a ⟨b, h⟩ ⟨hready, hserve⟩
    obtain ⟨m', b', hstep, htracks⟩ :=
      hserve.names h hready.onName hready.careful (hready.allocates b h.describes)
    exact ⟨m', hstep, b', htracks⟩
  obtain ⟨m', hnames, b', htracks⟩ := hexec.simulate hstep ⟨b, h⟩
  exact ⟨m', b', hnames, htracks⟩

/-- **The root directory is a finite map from names to inodes**: every run from an empty root
directory is one on the map, which the entries in use and the handles agree with at its end, and
the next request returns. -/
theorem root_is_name_map (hx : x.Fresh) (hexec : Exec (NameServe allocate) x tr y) :
    ∃ m, Exec NameStep NameMap.empty tr m ∧ m.Agrees y ∧
      ∀ r, y.NameReady allocate r → y.Admits r → ∃ reply z,
        NameServe allocate y (r, reply) z := by
  obtain ⟨m, b, hnames, htracks⟩ := hx.tracks.exec hexec
  refine ⟨m, hnames, htracks.agrees, fun r hready hadmits => ?_⟩
  have hb := htracks.describes
  have htransfers : ¬ r.Transfers := by
    cases r with
    | read => exact absurd hready.onName id
    | write => exact absurd hready.onName id
    | _ => exact id
  obtain ⟨reply, s, hrun, -⟩ := hb.reply_ensures hadmits
    (hb.meets hready.careful (hready.allocates b hb)) htransfers
  exact ⟨reply, _, hready, .serve hadmits hrun⟩

/-- It is ready to create the file. -/
theorem nameReady_createA (freed : Block) :
    (freshSession freed).NameReady sfsFsInodeAllocate createA where
  onName := ⟨[97], fileName_a, rfl⟩
  careful := by
    show 0 + 0 + slotsPerSlab < 2 ^ 31
    decide
  allocates b hb := by
    obtain ⟨l, hl⟩ := (fresh_freshSession freed).listing (allFree_freshSession freed)
    have hlisted := hb.listed hl.describes hl.counts.toListed
    exact (hlisted.allocates hlisted.head_of_zero).mono fun _ _ _ _ => trivial

/-- A run that creates it, removes its name and closes the handle. -/
theorem root_is_name_map_createAndDrop : ∃ y,
    Exec (NameServe sfsFsInodeAllocate) (freshSession Block.zero)
      [(createA, .handle (0, some 0)), (.unlink [slash, 97], .code 0), (.release 0, .code 0)] y ∧
    y.files = [] ∧
    ∃ m, Exec NameStep NameMap.empty
        [(createA, .handle (0, some 0)), (.unlink [slash, 97], .code 0), (.release 0, .code 0)] m ∧
      m.Agrees y ∧
      ∀ r, y.NameReady sfsFsInodeAllocate r → y.Admits r → ∃ reply z,
        NameServe sfsFsInodeAllocate y (r, reply) z := by
  obtain ⟨s₁, s₂, s₃, hcreate, hunlink, hrelease⟩ := createAndDrop_freshSession
  have hexec : Exec (NameServe sfsFsInodeAllocate) (freshSession Block.zero)
      [(createA, .handle (0, some 0)), (.unlink [slash, 97], .code 0), (.release 0, .code 0)]
      ⟨s₃, [], []⟩ :=
    .cons ⟨nameReady_createA _, .serve (by decide : (0 : UInt8) ∉ [slash, 97]) hcreate⟩
      (.cons ⟨⟨⟨[97], fileName_a, rfl⟩, trivial, fun _ _ => trivial⟩,
          .serve (by decide : (0 : UInt8) ∉ [slash, 97]) hunlink⟩
        (.cons ⟨⟨trivial, trivial, fun _ _ => trivial⟩,
          .serve ⟨0, List.mem_cons_self, rfl⟩ hrelease⟩ (.nil _)))
  exact ⟨_, hexec, rfl, root_is_name_map (fresh_freshSession _) hexec⟩

/-- **`sfs_getattr` of a bound name aborts**: with zeros in the memory that it has freed, the
number that it reads there is not one of an inode. -/
theorem getattr_of_bound_name_aborts : ∃ n y,
    Exec (NameServe sfsFsInodeAllocate) (freshSession Block.zero)
      [(createA, .handle (0, some (ofCInt (n : ℕ))))] y ∧
    (∃ m, Exec NameStep NameMap.empty [(createA, .handle (0, some (ofCInt n)))] m ∧ m.Agrees y ∧
      m.names.lookup [97] = some 2) ∧ y.Admits getattrA ∧
    (getattrA.reply (loggedLayer sfsFsInodeAllocate)).run y.state = .halt .assertion := by
  obtain ⟨n, s, b, hrun, hafter, hb, hfreed, -, e, he, hname, hinumber⟩ :=
    createA_freshSession Block.zero
  have hexec : Exec (NameServe sfsFsInodeAllocate) (freshSession Block.zero)
      [(createA, .handle (0, some (ofCInt n)))] ⟨s, [n], []⟩ := by
    rw [← hafter]
    exact .cons ⟨nameReady_createA _, .serve (by decide : (0 : UInt8) ∉ [slash, 97]) hrun⟩ (.nil _)
  obtain ⟨m, b', hnames, htracks⟩ := (fresh_freshSession Block.zero).tracks.exec hexec
  have hadmits : Session.Admits ⟨s, [n], []⟩ getattrA := (by decide : (0 : UInt8) ∉ [slash, 97])
  refine ⟨n, ⟨s, [n], []⟩, hexec, ⟨m, hnames, htracks.agrees, ?_⟩, hadmits, ?_⟩
  · rw [← hname, ← hinumber]
    refine htracks.binds.lookup_of_entry ?_
    rw [← htracks.describes.slots, hb.slots]
    exact he
  · rw [getattrA, Request.reply, Run.run_bind,
      sfsGetattr_aborts hb.books (pathName_file fileName_a) (by decide) he hname hfreed rfl]
    rfl

end Runs

end SimpleFileSystem
