import SimpleFileSystem.FreedMemory
import SimpleFileSystem.InodeList

/-!
# Link counts and the free inode list

The inodes that no entry and no handle names are on the free inode list: `sfs_create` takes
one off, and the request that takes the last link away puts it back, `sfs_unlink` or
`sfs_release`, whichever is the later one.  `Ledger.Listed` is what a list has to satisfy
for `sfs_fs_inode_allocate` to hand out only such inodes, and `Ledger.Counts` is that it has
all of them.

`FreeChange.counts` says that every change of a ledger keeps these,
and `link_counts_are_references` that they hold in every session that is reached.
-/

namespace SimpleFileSystem

/-! ## The list -/

/-- The head of the list is handed out, and the next inode is the head. -/
def Pops (w : View) (k head : UInt64) : Prop :=
  k = w.head ∧ head = (w.table k).size

namespace Ledger

/-- **A free inode list** of inodes that are not in use, the last of which points to `last`. -/
structure Listed (b : Ledger) (last : UInt64) (l : List UInt64) : Prop where
  linked : Linked last (fun k => (b.view.table k).size) b.view.head l
  stop : ¬ b.view.Valid last
  unused : ∀ k ∈ l, b.Unused k
  own : ∀ k ∈ l, (b.view.table k).inumber = k

/-- **All of them**, without links. -/
structure Counts (b : Ledger) (last : UInt64) (l : List UInt64) : Prop
    extends b.Listed last l where
  all : ∀ k, b.Unused k → k ∈ l
  links : ∀ k ∈ l, (b.view.table k).links = 0

namespace Listed

variable {b b' : Ledger} {l : List UInt64} {k last : UInt64} {w : View}

theorem head_cons (h : b.Listed last (k :: l)) : b.view.head = k :=
  h.linked.1

/-- A list that ends with 0 has 0 or an inode for its head. -/
theorem head_of_zero (h : b.Listed 0 l) (h0 : b.view.head ≠ 0) : b.view.Valid b.view.head := by
  cases l with
  | nil => exact absurd h.linked h0
  | cons k l =>
    rw [h.head_cons]
    exact (h.unused k List.mem_cons_self).valid

/-- **`sfs_fs_inode_allocate`** hands out the head, which is not in use. -/
theorem allocates (h : b.Listed last l) (hhead : b.view.head ≠ 0 → b.view.Valid b.view.head) :
    b.Allocates sfsFsInodeAllocate Pops := by
  intro fs w hshows htouched
  cases l with
  | nil =>
    have h0 : w.head = 0 := by
      rw [htouched.head]
      by_contra hne
      exact h.stop ((show b.view.head = last from h.linked) ▸ hhead hne)
    refine (hshows.allocate_empty h0).mono ?_
    rintro _ fs' ⟨rfl, h'⟩
    exact h'
  | cons k l =>
    have hunused := h.unused k List.mem_cons_self
    have hhead : w.head = k := htouched.head.trans h.head_cons
    have htable : w.table k = b.view.table k := htouched.others k hunused.notRoot
    have hown := h.own k List.mem_cons_self
    refine (hshows.allocate_ensures (by rw [hhead]; exact htouched.valid hunused.valid)).mono ?_
    rintro _ fs' ⟨rfl, h'⟩
    rw [hhead, htable] at h' ⊢
    refine ⟨by rw [hown]; exact hunused, _, ⟨?_, ?_⟩, h'⟩
    · rw [hown, h.head_cons]
    · rw [hown]

/-- The list is not empty if its head is an inode. -/
theorem eq_cons (h : b.Listed last l) (hk : b.view.Valid k) (hhead : k = b.view.head) :
    ∃ l', l = k :: l' := by
  cases l with
  | nil => exact absurd hk (hhead.trans h.linked ▸ h.stop)
  | cons j l => exact ⟨l, by rw [hhead, h.head_cons]⟩

/-- A change of inodes that are in use. -/
theorem congr (h : b.Listed last l) (hinodes : b'.view.inodes = b.view.inodes)
    (hhead : b'.view.head = b.view.head)
    (htable : ∀ k ∈ l, b'.view.table k = b.view.table k)
    (hrefs : ∀ k ∈ l, b'.refs k = 0) : b'.Listed last l where
  linked := by
    rw [hhead]
    exact h.linked.congr fun k hk => congrArg Inode.size (htable k hk)
  stop hlast := h.stop (hlast.congr hinodes.symm)
  unused k hk :=
    ⟨(h.unused k hk).valid.congr hinodes, (h.unused k hk).notRoot, hrefs k hk⟩
  own k hk := by
    rw [htable k hk]
    exact h.own k hk

/-- The list without its head. -/
theorem tail (h : b.Listed last (k :: l)) {links : UInt32} (hsets : Sets b.view b'.view k links)
    (hhead : Pops b.view k b'.view.head) (hrefs : ∀ j, j ≠ k → b'.refs j = b.refs j) :
    b'.Listed last l := by
  have hne : ∀ j ∈ l, j ≠ k := by
    rintro j hj rfl
    exact (List.nodup_cons.mp h.linked.nodup).1 hj
  have htable : ∀ j ∈ l, b'.view.table j = b.view.table j := fun j hj =>
    hsets.others j (h.unused j (List.mem_cons_of_mem k hj)).notRoot (hne j hj)
  refine ⟨?_, fun hlast => h.stop (hlast.congr hsets.inodes.symm), fun j hj => ?_,
    fun j hj => ?_⟩
  · rw [hhead.2]
    exact h.linked.2.2.congr fun j hj => congrArg Inode.size (htable j hj)
  · have hunused := h.unused j (List.mem_cons_of_mem k hj)
    exact ⟨hunused.valid.congr hsets.inodes, hunused.notRoot,
      (hrefs j (hne j hj)).trans hunused.refs⟩
  · rw [htable j hj]
    exact h.own j (List.mem_cons_of_mem k hj)

/-- An inode that went out of use, in front of the list. -/
theorem cons (h : b.Listed last l) (hk : k ∉ l) {links : UInt32}
    (hsets : Sets b.view b'.view k links) (hpushed : Pushed b.view b'.view k)
    (hunused : b'.Unused k) (hrefs : ∀ j, j ≠ k → b'.refs j = b.refs j) :
    b'.Listed last (k :: l) := by
  have hne : ∀ j ∈ l, j ≠ k := fun j hj e => hk (e ▸ hj)
  have htable : ∀ j ∈ l, b'.view.table j = b.view.table j := fun j hj =>
    hsets.others j (h.unused j hj).notRoot (hne j hj)
  have hvalid : b.view.Valid k := hunused.valid.congr hsets.inodes.symm
  refine ⟨?_, fun hlast => h.stop (hlast.congr hsets.inodes.symm), fun j hj => ?_,
    fun j hj => ?_⟩
  · rw [hpushed.head]
    have hlinked : Linked last (fun k => (b'.view.table k).size) b.view.head l :=
      h.linked.congr fun j hj => congrArg Inode.size (htable j hj)
    exact hlinked.cons (fun e => h.stop (e ▸ hvalid)) hpushed.next
  · rcases List.mem_cons.mp hj with rfl | hj
    · exact hunused
    · exact ⟨(h.unused j hj).valid.congr hsets.inodes, (h.unused j hj).notRoot,
        (hrefs j (hne j hj)).trans (h.unused j hj).refs⟩
  · rcases List.mem_cons.mp hj with rfl | hj
    · exact hsets.inumber
    · rw [htable j hj]
      exact h.own j hj

end Listed

end Ledger

/-! ## What a change of the ledger does to it -/

/-- How the free inodes change. -/
inductive FreeChange (b : Ledger) (ev : LedgerEvent) (b' : Ledger) : Prop where
  | same (inodes : b'.view.inodes = b.view.inodes) (list : ListSame b.view b'.view)
      (table : ∀ k, b.Unused k → b'.view.table k = b.view.table k)
      (refs : ∀ k, k ≠ 1 → (b'.refs k = 0 ↔ b.refs k = 0))
  | popped {k : UInt64} {links : UInt32} (unused : b.Unused k)
      (sets : Sets b.view b'.view k links) (pops : Pops b.view k b'.view.head)
      (deallocated : b'.view.files.deallocated = b.view.files.deallocated)
      (refs : ∀ j, j ≠ k → b'.refs j = b.refs j) (taken : 0 < b'.refs k ∨ ev = .leaks k)
  | pushed {k : UInt64} (used : 0 < b.refs k) (sets : Sets b.view b'.view k 0)
      (pushed : Pushed b.view b'.view k) (unused : b'.Unused k)
      (refs : ∀ j, j ≠ k → b'.refs j = b.refs j)

section Change

variable {b b' : Ledger} {ev : LedgerEvent} {k last : UInt64} {links : UInt32}
  {l : List UInt64}

/-- One inode was written, which is in use before and after. -/
theorem FreeChange.of_sets (hsets : Sets b.view b'.view k links) (hlist : ListSame b.view b'.view)
    (hk : 0 < b.refs k) (hk' : 0 < b'.refs k) (hrefs : ∀ j, j ≠ k → b'.refs j = b.refs j) :
    FreeChange b ev b' := by
  refine .same hsets.inodes hlist (fun j hj => hsets.others j hj.notRoot ?_) fun j _ => ?_
  · rintro rfl
    exact absurd hj.refs (Nat.pos_iff_ne_zero.mp hk)
  · by_cases hjk : j = k
    · rw [hjk]
      exact iff_of_false (Nat.pos_iff_ne_zero.mp hk') (Nat.pos_iff_ne_zero.mp hk)
    · rw [hrefs j hjk]

/-- **A link less**: the inode is pushed if it was the last one. -/
theorem FreeChange.of_dropped (hb : b.Balanced) (hk1 : k ≠ 1)
    (hdropped : Dropped b.view b'.view k) (hk : b.refs k = b'.refs k + 1)
    (hrefs : ∀ j, j ≠ k → b'.refs j = b.refs j) : FreeChange b ev b' := by
  have hpos : 0 < b.refs k := by omega
  have hlinks := (hb.counted k hk1 hpos).2
  have hlist := hdropped.list
  by_cases hone : (b.view.table k).links = 1
  · rw [hone] at hlinks
    have h0 : b'.refs k = 0 := by
      have h1 : (1 : UInt32).toNat = 1 := rfl
      omega
    have hsets := hdropped.sets
    rw [if_pos hone] at hlist
    rw [hone] at hsets
    exact .pushed hpos hsets hlist ⟨(hb.valid k hpos).congr hsets.inodes, hk1, h0⟩ hrefs
  · rw [if_neg hone] at hlist
    refine .of_sets hdropped.sets hlist hpos (Nat.pos_of_ne_zero fun h0 => hone ?_) hrefs
    rw [← UInt32.toNat_inj, hlinks, hk, h0]
    rfl

/-- The inodes other than the root directory were left alone. -/
theorem FreeChange.of_root (hinodes : b'.view.inodes = b.view.inodes)
    (hlist : ListSame b.view b'.view)
    (hothers : ∀ j, j ≠ 1 → b'.view.table j = b.view.table j)
    (hrefs : ∀ j, j ≠ 1 → b'.refs j = b.refs j) : FreeChange b ev b' :=
  .same hinodes hlist (fun j hj => hothers j hj.notRoot) fun j hj => by rw [hrefs j hj]

/-- **Every change of the ledger** is one of these. -/
theorem LedgerStep.freeChange (hb : b.Balanced) (h : LedgerStep Pops b ev b') :
    FreeChange b ev b' := by
  cases h with
  | look root touched =>
    exact .of_root touched.inodes touched.listSame touched.others fun _ _ => rfl
  | @opens w' pool' k n root named added handle =>
    have hk : 0 < b.refs k := Nat.add_pos_left (List.count_pos_iff.mpr named) _
    refine .of_sets added.sets added.list hk ?_ fun j hj => ?_
    · rw [refs_opened w' handle, if_pos rfl]
      exact Nat.succ_pos _
    · rw [refs_opened w' handle, if_neg (Ne.symm hj), Nat.add_zero]
  | @creates w' slots' pool' name k n root fills fresh nonempty stored unused sets handed
      deallocated handle =>
    have hk0 : k ≠ 0 := Ne.symm (UInt64.ne_of_lt unused.valid.1)
    have hnew : (newEntry k name).inumber = k := rfl
    refine .popped unused sets handed deallocated (fun j hj => ?_) (Or.inl ?_)
    · rw [refs_created w' fills hnew hk0 handle, if_neg (Ne.symm hj), Nat.add_zero]
    · rw [refs_created w' fills hnew hk0 handle, if_pos rfl]
      exact Nat.succ_pos _
  | leaks root full used unused sets handed deallocated =>
    exact .popped unused sets handed deallocated (fun _ _ => rfl) (Or.inr rfl)
  | @unlinks w' A B e e' slots used emptied root dropped =>
    have he : e ∈ live b.slots := by
      rw [slots]
      exact mem_live.mpr ⟨List.mem_append_right A List.mem_cons_self, used⟩
    refine .of_dropped hb (hb.files e he).1 dropped ?_ fun j hj => ?_
    · rw [refs_emptied w' slots used emptied, if_pos rfl]
    · rw [refs_emptied w' slots used emptied (j := j), if_neg (Ne.symm hj), Nat.add_zero]
  | @releases w' pool' k n root inumber notRoot dropped handle =>
    refine .of_dropped hb notRoot dropped ?_ fun j hj => ?_
    · rw [refs_closed w' handle hb.nodup inumber, if_pos rfl]
    · rw [refs_closed w' handle hb.nodup inumber (j := j), if_neg (Ne.symm hj), Nat.add_zero]
  | @touches w' k root held notRoot sets list =>
    have hk : 0 < b.refs k := Nat.add_pos_right _ (List.count_pos_iff.mpr held)
    exact .of_sets sets list hk hk fun _ _ => rfl
  | @opensDir w' pool' n opened' root touched handle perm =>
    refine .of_root touched.inodes touched.listSame touched.others fun j hj => ?_
    rw [refs_of_perm w' b.slots perm, refs_opened w' handle, if_neg (Ne.symm hj), Nat.add_zero]
  | @closesDir w' pool' n root inumber unlinked handle =>
    refine .of_root unlinked.inodes unlinked.list unlinked.others fun j hj => ?_
    rw [refs_closed w' handle hb.nodup inumber (j := j), if_neg (Ne.symm hj), Nat.add_zero]

/-- An inode that is out of use was so, or is the one that was given back. -/
theorem FreeChange.unused_of_unused (hinodes : b'.view.inodes = b.view.inodes) {j : UInt64}
    (hj : b'.Unused j) (hrefs : b.refs j = 0) : b.Unused j :=
  ⟨hj.valid.congr hinodes.symm, hj.notRoot, hrefs⟩

/-- **All inodes that are out of use** still are on the list. -/
theorem FreeChange.counts (h : FreeChange b ev b') (hl : b.Counts last l)
    (hleaks : ∀ k, ev ≠ .leaks k) : ∃ l', b'.Counts last l' := by
  cases h with
  | same inodes list table refs =>
    have hlisted := hl.congr inodes list.head (fun j hj => table j (hl.unused j hj)) fun j hj =>
      (refs j (hl.unused j hj).notRoot).mpr (hl.unused j hj).refs
    refine ⟨l, hlisted, fun j hj => hl.all j ?_, fun j hj => ?_⟩
    · exact unused_of_unused inodes hj ((refs j hj.notRoot).mp hj.refs)
    · rw [table j (hl.unused j hj)]
      exact hl.links j hj
  | @popped k links unused sets pops deallocated refs taken =>
    have hpos := taken.resolve_right (hleaks k)
    obtain ⟨l, rfl⟩ := hl.eq_cons unused.valid pops.1
    refine ⟨l, hl.tail sets pops refs, fun i hi => ?_, fun i hi => ?_⟩
    · have hik : i ≠ k := fun e => absurd hi.refs (by rw [e]; exact Nat.pos_iff_ne_zero.mp hpos)
      have hold := hl.all i (unused_of_unused sets.inodes hi ((refs i hik).symm.trans hi.refs))
      exact (List.mem_cons.mp hold).resolve_left hik
    · have hik : i ≠ k := by
        rintro rfl
        exact (List.nodup_cons.mp hl.linked.nodup).1 hi
      have hi' := List.mem_cons_of_mem k hi
      rw [sets.others i (hl.unused i hi').notRoot hik]
      exact hl.links i hi'
  | @pushed k used sets pushed unused refs =>
    have hk : k ∉ l := fun hk => absurd (hl.unused k hk).refs (Nat.pos_iff_ne_zero.mp used)
    refine ⟨k :: l, hl.cons hk sets pushed unused refs, fun j hj => ?_, fun j hj => ?_⟩
    · by_cases hjk : j = k
      · exact hjk ▸ List.mem_cons_self
      · exact List.mem_cons_of_mem k
          (hl.all j (unused_of_unused sets.inodes hj ((refs j hjk).symm.trans hj.refs)))
    · rcases List.mem_cons.mp hj with rfl | hj
      · exact sets.links
      · have hjk : j ≠ k := fun e => hk (e ▸ hj)
        rw [sets.others j (hl.unused j hj).notRoot hjk]
        exact hl.links j hj

/-- **An inode is deallocated** when its last link goes, and at no other time. -/
theorem FreeChange.deallocated (h : FreeChange b ev b') {j : UInt64} (hj1 : j ≠ 1) :
    b'.view.files.deallocated.count j =
      b.view.files.deallocated.count j + if 0 < b.refs j ∧ b'.refs j = 0 then 1 else 0 := by
  cases h with
  | same inodes list table refs =>
    rw [list.deallocated, if_neg, Nat.add_zero]
    rintro ⟨hpos, h0⟩
    exact absurd ((refs j hj1).mp h0) (Nat.pos_iff_ne_zero.mp hpos)
  | @popped k links unused sets pops deallocated refs taken =>
    rw [deallocated, if_neg, Nat.add_zero]
    rintro ⟨hpos, h0⟩
    by_cases hjk : j = k
    · rw [hjk, unused.refs] at hpos
      exact absurd hpos (Nat.lt_irrefl 0)
    · rw [refs j hjk] at h0
      omega
  | @pushed k used sets pushed unused refs =>
    rw [pushed.deallocated]
    by_cases hjk : j = k
    · rw [hjk, List.count_cons_self, if_pos ⟨used, unused.refs⟩]
    · rw [List.count_cons_of_ne (Ne.symm hjk), if_neg, Nat.add_zero]
      rw [refs j hjk]
      omega

theorem FreeChange.inodes (h : FreeChange b ev b') : b'.view.inodes = b.view.inodes := by
  cases h with
  | same inodes => exact inodes
  | popped unused sets => exact sets.inodes
  | pushed used sets => exact sets.inodes

end Change

/-! ## Sessions -/

namespace Session

/-- How many entries in use name an inode. -/
def entriesOf (x : Session) (k : UInt64) : ℕ :=
  ((live x.state.fs.rootSlots).map DirEntry.inumber).count k

/-- How many open files there are of an inode. -/
def handlesOf (x : Session) (k : UInt64) : ℕ :=
  (x.files.map fun n => (x.state.fdPool.slot n).inumber).count k

/-- A new name finds room in the directory. -/
def HasRoom (x : Session) : Request → Prop
  | .create _ path _ _ => ∀ name, pathName path = .inr name →
      (∀ e ∈ live x.state.fs.rootSlots, cString e.name ≠ name) →
        (live x.state.fs.rootSlots).length < mappedBlocks
  | _ => True

/-- All inodes but that of the root directory are free, and without links. -/
structure AllFree (x : Session) : Prop where
  list : ∃ l, FreeInodes x.state.fs l ∧
    (∀ k, k ∈ l ↔ x.state.fs.superblock.ValidInumber k ∧ k ≠ 1) ∧
    ∀ k ∈ l, (x.state.fs.logicalInode k).links = 0
  lt_int : ∀ k, x.state.fs.superblock.ValidInumber k → (inodeBlock k).toNat < 2 ^ 31

/-- **The links of every file are its entries and open handles**, and the files without any
are on the free inode list. -/
structure Counted (x : Session) : Prop where
  links : ∀ k, x.state.fs.superblock.ValidInumber k → k ≠ 1 →
    (x.state.fs.logicalInode k).links.toNat = x.entriesOf k + x.handlesOf k
  list : ∃ l, FreeInodes x.state.fs l ∧
    ∀ k, x.state.fs.superblock.ValidInumber k → k ≠ 1 →
      (k ∈ l ↔ x.entriesOf k = 0 ∧ x.handlesOf k = 0)

end Session

/-- **A request with room for its name**, over `sfs_fs_inode_allocate`. -/
def CountedServe (x : Session) (e : Request × Reply) (y : Session) : Prop :=
  x.Careful e.1 ∧ x.HasRoom e.1 ∧ Serve (loggedLayer sfsFsInodeAllocate) x e y

/-- The ledger of a session, with its list. -/
structure Session.Listing (x : Session) (b : Ledger) (l : List UInt64) : Prop where
  describes : x.Describes b
  counts : b.Counts 0 l
  lt_int : ∀ k, 0 < k → k ≤ b.view.inodes → (inodeBlock k).toNat < 2 ^ 31

section Runs

variable {x y z : Session} {b : Ledger} {l : List UInt64} {k : UInt64} {r : Request}
  {reply : Reply} {e : Request × Reply} {tr : List (Request × Reply)}

theorem Session.Describes.refs (h : x.Describes b) (hk1 : k ≠ 1) :
    b.refs k = x.entriesOf k + x.handlesOf k := by
  have hdirs : (x.dirs.map fun n => (b.pool.slot n).inumber).count k = 0 := by
    refine List.count_eq_zero.mpr fun hk => ?_
    obtain ⟨n, hn, rfl⟩ := List.mem_map.mp hk
    exact hk1 (h.dirs n hn)
  have hheld := (h.opened.map fun n => (b.pool.slot n).inumber).count_eq k
  rw [List.map_append, List.count_append, hdirs, Nat.add_zero] at hheld
  rw [Ledger.refs, Ledger.held, hheld, Session.entriesOf, Session.handlesOf, h.slots, h.books.pool]
  rfl

/-- Every ledger of a session has the free inode list of the others. -/
theorem Session.Describes.listed (h : x.Describes b) {b' : Ledger} (h' : x.Describes b')
    {last : UInt64} (hl : b'.Listed last l) : b.Listed last l := by
  have hshows := h.books.shows
  have hshows' := h'.books.shows
  have hvalid : ∀ k ∈ l, b.view.Valid k := fun k hk =>
    (hl.unused k hk).valid.congr (hshows.inodes.symm.trans hshows'.inodes)
  have htable : ∀ k ∈ l, b.view.table k = b'.view.table k := fun k hk =>
    (hshows.table k (hvalid k hk)).symm.trans (hshows'.table k (hl.unused k hk).valid)
  refine ⟨?_, fun hlast => hl.stop (hlast.congr (hshows'.inodes.symm.trans hshows.inodes)),
    fun k hk => ⟨hvalid k hk, (hl.unused k hk).notRoot, ?_⟩, fun k hk => ?_⟩
  · rw [← hshows.head, hshows'.head]
    exact hl.linked.congr fun k hk => congrArg Inode.size (htable k hk)
  · have hunused := hl.unused k hk
    rw [h.refs hunused.notRoot, ← h'.refs hunused.notRoot]
    exact hunused.refs
  · rw [htable k hk]
    exact hl.own k hk

theorem Session.Listing.valid (h : x.Listing b l) (hk : x.state.fs.superblock.ValidInumber k) :
    b.view.Valid k := by
  have hle : k ≤ b.view.inodes := by
    rw [← h.describes.books.shows.inodes]
    exact hk.2
  exact ⟨hk.1, hle, h.lt_int k hk.1 hle⟩

theorem Session.Listing.table (h : x.Listing b l)
    (hk : x.state.fs.superblock.ValidInumber k) :
    x.state.fs.logicalInode k = b.view.table k :=
  h.describes.books.shows.table k (h.valid hk)

/-- **The counts of a session** are those of its ledger. -/
theorem Session.Listing.counted (h : x.Listing b l) : x.Counted where
  links k hk hk1 := by
    rw [h.table hk, ← h.describes.refs hk1]
    rcases Nat.eq_zero_or_pos (b.refs k) with h0 | hpos
    · rw [h.counts.links k (h.counts.all k ⟨h.valid hk, hk1, h0⟩), h0]
      rfl
    · exact (h.describes.books.balanced.counted k hk1 hpos).2
  list := by
    have hshows := h.describes.books.shows
    have hvalid : ∀ k ∈ l, x.state.fs.superblock.ValidInumber k := fun k hk =>
      hshows.valid (h.counts.unused k hk).valid
    refine ⟨l, ⟨?_, hvalid, fun k hk => ?_⟩, fun k hk hk1 => ?_⟩
    · rw [hshows.head]
      refine h.counts.linked.congr fun k hk => ?_
      rw [Filesystem.nextInode, h.table (hvalid k hk)]
    · rw [h.table (hvalid k hk)]
      exact h.counts.own k hk
    · have hrefs := h.describes.refs hk1
      constructor
      · intro hkl
        have h0 := (h.counts.unused k hkl).refs
        omega
      · rintro ⟨hentries, hhandles⟩
        exact h.counts.all k ⟨h.valid hk, hk1, by omega⟩

/-- There is room, so nothing leaks. -/
theorem Session.Describes.not_leaks (h : x.Describes b) (hroom : x.HasRoom r) {ev : LedgerEvent}
    {b' : Ledger} {handsOut : View → UInt64 → UInt64 → Prop} (hans : b.Answered r reply ev)
    (hstep : LedgerStep handsOut b ev b') (k : UInt64) : ev ≠ .leaks k := by
  rintro rfl
  have hlength : (live b.slots).length = mappedBlocks := by
    cases hstep with
    | leaks root full used unused sets handed deallocated =>
      rw [live, List.filter_eq_self.mpr fun e he => decide_eq_true (used e he)]
      exact full
  have hmay := Ledger.Answered.may hans
  cases r with
  | create context path mode flags =>
    cases reply with
    | handle a =>
      obtain ⟨ret, -, hev⟩ | ⟨name, hpath, ⟨e, -, -, -, -, hev⟩ | ⟨e, n, -, -, -, -, hev⟩ |
        ⟨-, -, hev⟩ | ⟨hnone, -, -⟩ | ⟨-, k, n, -, hev⟩⟩ := NameAnswer.elim hans
      · cases hev
      · cases hev
      · cases hev
      · cases hev
      · have hlt := hroom name hpath (by rw [h.slots]; exact hnone)
        rw [h.slots, hlength] at hlt
        exact Nat.lt_irrefl _ hlt
      · cases hev
    | _ => exact hans.elim
  | _ => exact absurd hmay Bool.false_ne_true

/-- **One request** keeps the list. -/
theorem Session.Listing.step (h : x.Listing b l) (hserve : CountedServe x e y) :
    ∃ b' l' ev, y.Listing b' l' ∧ FreeChange b ev b' := by
  obtain ⟨r, reply⟩ := e
  obtain ⟨hcareful, hroom, hserve⟩ := hserve
  have hcreate : b.MayCreate sfsFsInodeAllocate Pops r := by
    cases r with
    | create => exact h.counts.allocates h.counts.head_of_zero
    | _ => trivial
  obtain ⟨ev, b', hstep, hy, hans⟩ :=
    hserve.ledger h.describes (h.describes.meets hcareful hcreate)
  have hchange := hstep.freeChange h.describes.books.balanced
  obtain ⟨l', hcounts⟩ := hchange.counts h.counts (h.describes.not_leaks hroom hans hstep)
  refine ⟨b', l', ev, ⟨hy, hcounts, fun k hk hle => ?_⟩, hchange⟩
  rw [hchange.inodes] at hle
  exact h.lt_int k hk hle

theorem Session.Fresh.listing (hx : x.Fresh) (hfree : x.AllFree) :
    ∃ l, x.Listing x.ledger l := by
  obtain ⟨l, hlist, hall, hlinks⟩ := hfree.list
  refine ⟨l, hx.describes, ⟨⟨hlist.linked, fun h0 => absurd h0.pos (UInt64.lt_irrefl 0),
    fun k hk => ?_, hlist.own⟩, fun k hk => ?_, hlinks⟩, fun k hk hle => hfree.lt_int k ⟨hk, hle⟩⟩
  · obtain ⟨hvalid, hk1⟩ := (hall k).mp hk
    exact ⟨⟨hvalid.1, hvalid.2, hfree.lt_int k hvalid⟩, hk1, hx.refs k⟩
  · exact (hall k).mpr ⟨⟨hk.valid.pos, hk.valid.le⟩, hk.notRoot⟩

/-- **Link counts are references**: in every session that is reached from an empty root
directory the links of each file are its entries and open handles, the files without any are
on the free inode list, `sfs_fs_inode_deallocate` is called on a file in the request that
makes both zero and in no other, and `sfs_release` of an open handle does not fail. -/
theorem link_counts_are_references (hx : x.Fresh) (hfree : x.AllFree)
    (hexec : Exec CountedServe x tr y) :
    y.Counted ∧
    (∀ e z, CountedServe y e z → ∀ k, k ≠ 1 →
      z.state.fs.files.deallocated.count k = y.state.fs.files.deallocated.count k +
        if 0 < y.entriesOf k + y.handlesOf k ∧ z.entriesOf k + z.handlesOf k = 0 then 1 else 0) ∧
    ∀ n ∈ y.files, ∃ s,
      (sfsRelease (loggedLayer sfsFsInodeAllocate) (ofCInt n)).run y.state = .done 0 s := by
  obtain ⟨b, l, h⟩ : ∃ b l, y.Listing b l := by
    obtain ⟨l, hl⟩ := hx.listing hfree
    refine hexec.invariant (I := fun x => ∃ b l, x.Listing b l) ?_ ⟨_, l, hl⟩
    rintro s e t ⟨b, l, h⟩ hserve
    obtain ⟨b', l', ev, h', -⟩ := h.step hserve
    exact ⟨b', l', h'⟩
  refine ⟨h.counted, fun e z hserve k hk1 => ?_, fun n hn => ?_⟩
  · obtain ⟨b', l', ev, h', hchange⟩ := h.step hserve
    have hcount := hchange.deallocated hk1
    rw [← h.describes.books.shows.files, ← h'.describes.books.shows.files,
      h.describes.refs hk1, h'.describes.refs hk1] at hcount
    exact hcount
  · obtain ⟨ret, s, hrun, ev, b', -, -, -, rfl, -⟩ : Run.Ensures _ _ (Answers Pops b _) :=
      sfsRelease_ensures h.describes.books (h.describes.mem_opened (List.mem_append_left _ hn)) rfl
        (h.describes.files n hn)
    exact ⟨s, hrun⟩

end Runs

/-! ## A session with three free inodes -/

section Sample

variable (freed : Block)

theorem freeInodes_freshFilesystem : FreeInodes (freshFilesystem freed) [2, 3, 4] := by
  have h2 : (freshFilesystem freed).logicalInode 2 = freeInode 2 3 :=
    logicalInode_freeInode freed (by simp [freshInodes])
  have h3 : (freshFilesystem freed).logicalInode 3 = freeInode 3 4 :=
    logicalInode_freeInode freed (by simp [freshInodes])
  have h4 : (freshFilesystem freed).logicalInode 4 = freeInode 4 0 :=
    logicalInode_freeInode freed (by simp [freshInodes])
  refine ⟨?_, fun k hk => ?_, fun k hk => ?_⟩
  · rw [superblock_freshFilesystem]
    refine ⟨rfl, by decide, ?_, by decide, ?_, by decide, ?_⟩
    · exact congrArg Inode.size h2
    · exact congrArg Inode.size h3
    · exact congrArg Inode.size h4
  · rw [superblock_freshFilesystem]
    simp only [List.mem_cons, List.not_mem_nil, or_false] at hk
    obtain rfl | rfl | rfl := hk <;> constructor <;> decide
  · simp only [List.mem_cons, List.not_mem_nil, or_false] at hk
    obtain rfl | rfl | rfl := hk
    · exact congrArg Inode.inumber h2
    · exact congrArg Inode.inumber h3
    · exact congrArg Inode.inumber h4

/-- The inodes of that disk. -/
theorem mem_list_iff (k : UInt64) :
    k ∈ [2, 3, 4] ↔ (freshSession freed).state.fs.superblock.ValidInumber k ∧ k ≠ 1 := by
  have hsuperblock : (freshSession freed).state.fs.superblock = fourInodes :=
    superblock_freshFilesystem freed
  have h4 : (4 : UInt64).toNat = 4 := rfl
  rw [hsuperblock, Superblock.ValidInumber, show fourInodes.inodes = 4 from rfl,
    UInt64.lt_iff_toNat_lt, UInt64.le_iff_toNat_le, h4]
  simp only [List.mem_cons, List.not_mem_nil, or_false, ← UInt64.toNat_inj, ne_eq]
  show k.toNat = 2 ∨ k.toNat = 3 ∨ k.toNat = 4 ↔ (0 < k.toNat ∧ k.toNat ≤ 4) ∧ ¬ k.toNat = 1
  omega

theorem lt_int_of_mem {k : UInt64} (hk : k ∈ [1, 2, 3, 4]) : (inodeBlock k).toNat < 2 ^ 31 := by
  simp only [List.mem_cons, List.not_mem_nil, or_false] at hk
  obtain rfl | rfl | rfl | rfl := hk <;> decide

/-- **All its files are free.** -/
theorem allFree_freshSession : (freshSession freed).AllFree where
  list := by
    have h2 : (freshFilesystem freed).logicalInode 2 = freeInode 2 3 :=
      logicalInode_freeInode freed (by simp [freshInodes])
    have h3 : (freshFilesystem freed).logicalInode 3 = freeInode 3 4 :=
      logicalInode_freeInode freed (by simp [freshInodes])
    have h4 : (freshFilesystem freed).logicalInode 4 = freeInode 4 0 :=
      logicalInode_freeInode freed (by simp [freshInodes])
    refine ⟨[2, 3, 4], freeInodes_freshFilesystem freed, mem_list_iff freed, fun k hk => ?_⟩
    simp only [List.mem_cons, List.not_mem_nil, or_false] at hk
    obtain rfl | rfl | rfl := hk
    · exact congrArg Inode.links h2
    · exact congrArg Inode.links h3
    · exact congrArg Inode.links h4
  lt_int k hk := by
    by_cases hk1 : k = 1
    · rw [hk1]
      decide
    · exact lt_int_of_mem (List.mem_cons_of_mem 1 ((mem_list_iff freed k).mpr ⟨hk, hk1⟩))

/-- It has room for a name. -/
theorem countedServe_createA {reply : Reply} {s : SfsState DirFiles}
    (hrun : (createA.reply (loggedLayer sfsFsInodeAllocate)).run (freshSession freed).state =
      .done reply s) :
    CountedServe (freshSession freed) (createA, reply)
      ((freshSession freed).after s reply createA) := by
  refine ⟨?_, fun name hname hunbound => ?_, .serve (by decide : (0 : UInt8) ∉ [slash, 97]) hrun⟩
  · show 0 + 0 + slotsPerSlab < 2 ^ 31
    decide
  · rw [(fresh_freshSession freed).empty]
    decide

/-- A run that creates a file, removes its name and closes the handle on it. -/
theorem link_counts_are_references_createAndDrop : ∃ y,
    Exec CountedServe (freshSession Block.zero)
      [(createA, .handle (0, some 0)), (.unlink [slash, 97], .code 0), (.release 0, .code 0)] y ∧
    y.files = [] ∧ y.Counted ∧
    (∀ e z, CountedServe y e z → ∀ k, k ≠ 1 →
      z.state.fs.files.deallocated.count k = y.state.fs.files.deallocated.count k +
        if 0 < y.entriesOf k + y.handlesOf k ∧ z.entriesOf k + z.handlesOf k = 0 then 1 else 0) ∧
    ∀ n ∈ y.files, ∃ s,
      (sfsRelease (loggedLayer sfsFsInodeAllocate) (ofCInt n)).run y.state = .done 0 s := by
  obtain ⟨s₁, s₂, s₃, hcreate, hunlink, hrelease⟩ := createAndDrop_freshSession
  have hexec : Exec CountedServe (freshSession Block.zero)
      [(createA, .handle (0, some 0)), (.unlink [slash, 97], .code 0), (.release 0, .code 0)]
      ⟨s₃, [], []⟩ :=
    .cons (countedServe_createA _ hcreate)
      (.cons ⟨trivial, trivial, .serve (by decide : (0 : UInt8) ∉ [slash, 97]) hunlink⟩
        (.cons ⟨trivial, trivial, .serve ⟨0, List.mem_cons_self, rfl⟩ hrelease⟩ (.nil _)))
  exact ⟨_, hexec, rfl, link_counts_are_references (fresh_freshSession _)
    (allFree_freshSession _) hexec⟩

/-- Memory in which a directory entry has the number of that inode. -/
def strayMemory : Block :=
  Block.setDirEntry Block.zero 0 ⟨strayInumber, strncpy256 []⟩

/-- **`sfs_getattr` loses the link counts**: with such memory after `free`, a `sfs_getattr` of the
file that was created reads a block past the end of the disk, and the inode table in the cache is
all zeros.  The file has a name and an open handle, and no links. -/
theorem getattr_loses_links : ∃ n y z,
    Exec CountedServe (freshSession strayMemory) [(createA, .handle (0, some (ofCInt (n : ℕ))))] y ∧
    Serve (loggedLayer sfsFsInodeAllocate) y (getattrA, .stat (-1, none)) z ∧
    z.handlesOf 2 = 1 ∧ (z.state.fs.logicalInode 2).links = 0 ∧ ¬ z.Counted := by
  obtain ⟨n, s, b, hrun, hafter, hb, hfreed, hslot, e, he, hname, hinumber⟩ :=
    createA_freshSession strayMemory
  have hexec : Exec CountedServe (freshSession strayMemory)
      [(createA, .handle (0, some (ofCInt n)))] ⟨s, [n], []⟩ := by
    rw [← hafter]
    exact .cons (countedServe_createA _ hrun) (.nil _)
  have hstray : (Block.dirEntry strayMemory 0).inumber = strayInumber := by
    rw [strayMemory, Block.dirEntry_setDirEntry]
  obtain ⟨s', hget, hpool, hinodes, hzeros⟩ := sfsGetattr_forgets hb.books
    (pathName_file fileName_a) (by decide) he hname hfreed hstray
  have hserve : Serve (loggedLayer sfsFsInodeAllocate) ⟨s, [n], []⟩ (getattrA, .stat (-1, none))
      ⟨s', [n], []⟩ := by
    refine .serve (by decide : (0 : UInt8) ∉ [slash, 97]) ?_
    rw [getattrA, Request.reply, Run.run_bind, hget]
    rfl
  have hlinks : (s'.fs.logicalInode 2).links = 0 := congrArg Inode.links (hzeros 2 (by decide))
  have hhandles : Session.handlesOf ⟨s', [n], []⟩ 2 = 1 := by
    show List.count 2 [(s'.fdPool.slot n).inumber] = 1
    rw [hpool, hb.books.pool, hslot]
    decide
  refine ⟨n, ⟨s, [n], []⟩, ⟨s', [n], []⟩, hexec, hserve, hhandles, hlinks, fun hcounted => ?_⟩
  have hpos : 0 < b.refs 2 := by
    rw [← hinumber]
    exact Ledger.Balanced.refs_of_entry he
  have hvalid : s'.fs.superblock.ValidInumber 2 := by
    refine ⟨by decide, ?_⟩
    rw [hinodes, hb.books.shows.inodes]
    exact (hb.books.balanced.valid 2 hpos).le
  have hcount := hcounted.links 2 hvalid (by decide)
  rw [hhandles] at hcount
  rw [hlinks] at hcount
  have hzero : (0 : UInt32).toNat = 0 := rfl
  omega

end Sample

end SimpleFileSystem
