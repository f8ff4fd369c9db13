import SimpleFileSystem.Paths
import SimpleFileSystem.RootEntries

/-!
# Entries, handles, and the links that they are

The links of a file are its entries in the root directory and its open handles.  A
`Ledger` is what there is to count --- the slots of the directory, the open handles, the
inodes --- and `Balanced` says that the counts come out right, along with what the
requests need to keep them so: that the entries in use have distinct names, and that no
name or handle of a file is one of the root directory.

`LedgerStep` lists what a request may do to a ledger.  Each of its cases is balanced
(`LedgerStep.balanced`), and what a request does is one of them.
-/

namespace SimpleFileSystem

/-! ## Counting -/

/-- The entries in use. -/
def live (slots : List DirEntry) : List DirEntry :=
  slots.filter fun e => e.inumber ≠ 0

/-- The slots of the root directory, the open handles, and what shows of the rest. -/
structure Ledger where
  view : View
  slots : List DirEntry
  pool : FdPool
  opened : List ℕ

namespace Ledger

/-- The inode numbers of the entries. -/
def named (b : Ledger) : List UInt64 :=
  (live b.slots).map DirEntry.inumber

/-- The inode numbers of the open handles. -/
def held (b : Ledger) : List UInt64 :=
  b.opened.map fun n => (b.pool.slot n).inumber

/-- **How many entries and open handles name an inode.** -/
def refs (b : Ledger) (k : UInt64) : ℕ :=
  b.named.count k + b.held.count k

/-- No entry has the name. -/
def Unbound (b : Ledger) (name : CString) : Prop :=
  ∀ e ∈ live b.slots, cString e.name ≠ name

/-- **The links of every file are its entries and open handles.** -/
structure Balanced (b : Ledger) : Prop where
  root : RootDir b.view b.slots
  distinct : ((live b.slots).map fun e => cString e.name).Nodup
  files : ∀ e ∈ live b.slots, e.inumber ≠ 1 ∧ cString e.name ≠ []
  pool : ∃ free, b.pool.Handles b.opened free
  valid : ∀ k, 0 < b.refs k → b.view.Valid k
  counted : ∀ k, k ≠ 1 → 0 < b.refs k →
    (b.view.table k).Plain k ∧ (b.view.table k).links.toNat = b.refs k

end Ledger

section Live

variable {slots slots' A B : List DirEntry} {e e' : DirEntry}

theorem mem_live : e ∈ live slots ↔ e ∈ slots ∧ e.inumber ≠ 0 := by
  simp [live]

theorem live_append : live (A ++ B) = live A ++ live B :=
  List.filter_append _ _

theorem live_cons_of_used (he : e.inumber ≠ 0) : live (e :: B) = e :: live B := by
  simp [live, he]

theorem live_cons_of_unused (he : e.inumber = 0) : live (e :: B) = live B := by
  simp [live, he]

/-- **An entry is added** to the entries in use. -/
theorem Fills.live_perm (h : Fills e slots slots') (he : e.inumber ≠ 0) :
    (live slots').Perm (e :: live slots) := by
  cases h with
  | reuse A B _ hd =>
    rw [live_append, live_cons_of_used he, live_append, live_cons_of_unused hd]
    exact List.perm_middle
  | grow =>
    rw [live_append, live_cons_of_used he]
    exact List.perm_append_singleton e (live slots)

/-- An entry is removed from the entries in use. -/
theorem live_emptied (he : e.inumber ≠ 0) (he' : e'.inumber = 0) :
    (live (A ++ e :: B)).Perm (e :: live (A ++ e' :: B)) := by
  rw [live_append, live_cons_of_used he, live_append, live_cons_of_unused he']
  exact List.perm_middle

theorem length_live_le : (live slots).length ≤ slots.length :=
  List.length_filter_le _ _

end Live

/-! ## Handles -/

/-- A handle on an inode was opened. -/
structure HandleOpened (pool pool' : FdPool) (opened : List ℕ) (n : ℕ) (k : UInt64) : Prop where
  fresh : n ∉ opened
  handles : ∃ free, pool'.Handles (n :: opened) free
  inumber : (pool'.slot n).inumber = k
  others : ∀ m ∈ opened, pool'.slot m = pool.slot m

/-- A handle was closed. -/
structure HandleClosed (pool pool' : FdPool) (opened : List ℕ) (n : ℕ) : Prop where
  mem : n ∈ opened
  handles : ∃ free, pool'.Handles (opened.erase n) free
  others : ∀ m ∈ opened, m ≠ n → pool'.slot m = pool.slot m

section Held

variable {b : Ledger} {pool' : FdPool} {n : ℕ} {k : UInt64} (w' : View) (slots' : List DirEntry)

theorem HandleOpened.held (h : HandleOpened b.pool pool' b.opened n k) :
    Ledger.held ⟨w', slots', pool', n :: b.opened⟩ = k :: b.held := by
  show (pool'.slot n).inumber :: b.opened.map (fun m => (pool'.slot m).inumber) = _
  rw [h.inumber]
  refine congrArg (k :: ·) (List.map_congr_left fun m hm => ?_)
  rw [h.others m hm]

theorem HandleClosed.held (h : HandleClosed b.pool pool' b.opened n) (hnodup : b.opened.Nodup) :
    b.held.Perm ((b.pool.slot n).inumber ::
      Ledger.held ⟨w', slots', pool', b.opened.erase n⟩) := by
  have hsame : Ledger.held ⟨w', slots', pool', b.opened.erase n⟩ =
      (b.opened.erase n).map fun m => (b.pool.slot m).inumber := by
    refine List.map_congr_left fun m hm => ?_
    rw [h.others m (List.mem_of_mem_erase hm) (hnodup.mem_erase_iff.mp hm).1]
  rw [hsame, Ledger.held]
  exact (List.perm_cons_erase h.mem).map fun m => (b.pool.slot m).inumber

end Held

namespace Ledger.Balanced

variable {b : Ledger} {e : DirEntry} {k : UInt64} {n : ℕ}

theorem nodup (h : b.Balanced) : b.opened.Nodup := by
  obtain ⟨free, hfree⟩ := h.pool
  exact (List.nodup_append.mp hfree.nodup).2.1

theorem refs_of_entry (he : e ∈ live b.slots) : 0 < b.refs e.inumber :=
  Nat.add_pos_left (List.count_pos_iff.mpr (List.mem_map_of_mem he)) _

theorem refs_of_handle (hn : n ∈ b.opened) : 0 < b.refs (b.pool.slot n).inumber :=
  Nat.add_pos_right _ (List.count_pos_iff.mpr (List.mem_map.mpr ⟨n, hn, rfl⟩))

/-- There are never so many links that the count would wrap. -/
theorem refs_lt (h : b.Balanced) (k : UInt64) : b.refs k + 1 < 2 ^ 32 := by
  obtain ⟨free, hfree⟩ := h.pool
  have hhandles : b.opened.length ≤ b.pool.capacity := by
    have hlength := hfree.perm.length_eq
    rw [List.length_append, List.length_range] at hlength
    omega
  have hsmall := hfree.small
  have hmapped := h.root.mapped
  unfold mappedBlocks at hmapped
  have hnamed : b.named.count k ≤ b.slots.length := by
    refine Nat.le_trans List.count_le_length ?_
    rw [Ledger.named, List.length_map]
    exact length_live_le
  have hheld : b.held.count k ≤ b.opened.length := by
    refine Nat.le_trans List.count_le_length (Nat.le_of_eq ?_)
    rw [Ledger.held, List.length_map]
  unfold Ledger.refs
  omega

end Ledger.Balanced

/-! ## What a request may do -/

/-- What a request did to the entries and handles. -/
inductive LedgerEvent where
  /-- It looked at them, and changed none. -/
  | look
  | opens (k : UInt64) (n : ℕ)
  | creates (name : CString) (k : UInt64) (n : ℕ)
  /-- It took an inode, and found no room for its entry. -/
  | leaks (k : UInt64)
  | unlinks (e : DirEntry)
  | releases (k : UInt64) (n : ℕ)
  /-- It read or wrote a file. -/
  | touches (k : UInt64)
  | opensDir (n : ℕ)
  | closesDir (n : ℕ)

/-- An inode that may be handed out: it is none of the root directory, and no entry and no
handle names it. -/
structure Ledger.Unused (b : Ledger) (k : UInt64) : Prop where
  valid : b.view.Valid k
  notRoot : k ≠ 1
  refs : b.refs k = 0

/-- **A link of the root directory is gone.** -/
structure RootUnlinked (w w' : View) : Prop where
  inodes : w'.inodes = w.inodes
  rootLinks : (w'.table 1).links = (w.table 1).links - 1
  others : ∀ j, j ≠ 1 → w'.table j = w.table j
  list : ListSame w w'

/-- **A change of a ledger**; `handsOut` says which inode is handed out, and what the head
of the free inode list is then. -/
inductive LedgerStep (handsOut : View → UInt64 → UInt64 → Prop) :
    Ledger → LedgerEvent → Ledger → Prop where
  | look {b : Ledger} {w' : View} (root : RootDir w' b.slots) (touched : RootTouched b.view w') :
      LedgerStep handsOut b .look { b with view := w' }
  | opens {b : Ledger} {w' : View} {pool' : FdPool} {k : UInt64} {n : ℕ}
      (root : RootDir w' b.slots) (named : k ∈ b.named) (added : Added b.view w' k)
      (handle : HandleOpened b.pool pool' b.opened n k) :
      LedgerStep handsOut b (.opens k n)
        { b with view := w', pool := pool', opened := n :: b.opened }
  | creates {b : Ledger} {w' : View} {slots' : List DirEntry} {pool' : FdPool} {name : CString}
      {k : UInt64} {n : ℕ} (root : RootDir w' slots')
      (fills : Fills (newEntry k name) b.slots slots') (fresh : b.Unbound name)
      (nonempty : name ≠ []) (stored : cString (newEntry k name).name = name)
      (unused : b.Unused k) (sets : Sets b.view w' k 2) (handed : handsOut b.view k w'.head)
      (deallocated : w'.files.deallocated = b.view.files.deallocated)
      (handle : HandleOpened b.pool pool' b.opened n k) :
      LedgerStep handsOut b (.creates name k n) ⟨w', slots', pool', n :: b.opened⟩
  | leaks {b : Ledger} {w' : View} {k : UInt64} (root : RootDir w' b.slots)
      (full : b.slots.length = mappedBlocks) (used : ∀ e ∈ b.slots, e.inumber ≠ 0)
      (unused : b.Unused k) (sets : Sets b.view w' k 1) (handed : handsOut b.view k w'.head)
      (deallocated : w'.files.deallocated = b.view.files.deallocated) :
      LedgerStep handsOut b (.leaks k) { b with view := w' }
  | unlinks {b : Ledger} {w' : View} {A B : List DirEntry} {e e' : DirEntry}
      (slots : b.slots = A ++ e :: B) (used : e.inumber ≠ 0) (emptied : e'.inumber = 0)
      (root : RootDir w' (A ++ e' :: B)) (dropped : Dropped b.view w' e.inumber) :
      LedgerStep handsOut b (.unlinks e) { b with view := w', slots := A ++ e' :: B }
  | releases {b : Ledger} {w' : View} {pool' : FdPool} {k : UInt64} {n : ℕ}
      (root : RootDir w' b.slots) (inumber : (b.pool.slot n).inumber = k) (notRoot : k ≠ 1)
      (dropped : Dropped b.view w' k) (handle : HandleClosed b.pool pool' b.opened n) :
      LedgerStep handsOut b (.releases k n)
        { b with view := w', pool := pool', opened := b.opened.erase n }
  | touches {b : Ledger} {w' : View} {k : UInt64} (root : RootDir w' b.slots) (held : k ∈ b.held)
      (notRoot : k ≠ 1) (sets : Sets b.view w' k (b.view.table k).links)
      (list : ListSame b.view w') : LedgerStep handsOut b (.touches k) { b with view := w' }
  -- the links of the root directory stay as they are
  | opensDir {b : Ledger} {w' : View} {pool' : FdPool} {n : ℕ} {opened' : List ℕ}
      (root : RootDir w' b.slots) (touched : RootTouched b.view w')
      (handle : HandleOpened b.pool pool' b.opened n 1) (perm : opened'.Perm (n :: b.opened)) :
      LedgerStep handsOut b (.opensDir n) { b with view := w', pool := pool', opened := opened' }
  | closesDir {b : Ledger} {w' : View} {pool' : FdPool} {n : ℕ} (root : RootDir w' b.slots)
      (inumber : (b.pool.slot n).inumber = 1) (unlinked : RootUnlinked b.view w')
      (handle : HandleClosed b.pool pool' b.opened n) :
      LedgerStep handsOut b (.closesDir n)
        { b with view := w', pool := pool', opened := b.opened.erase n }

namespace Ledger.Balanced

variable {b b' : Ledger} {k : UInt64} {handsOut : View → UInt64 → UInt64 → Prop} {ev : LedgerEvent}

/-- No inode of a file was written, and only the count of the root directory changed. -/
theorem of_root (h : b.Balanced) (hslots : b'.slots = b.slots)
    (hinodes : b'.view.inodes = b.view.inodes)
    (hothers : ∀ j, j ≠ 1 → b'.view.table j = b.view.table j) (hroot : RootDir b'.view b'.slots)
    (hpool : ∃ free, b'.pool.Handles b'.opened free)
    (hsame : ∀ j, j ≠ 1 → b'.refs j = b.refs j) : b'.Balanced where
  root := hroot
  distinct := by rw [hslots]; exact h.distinct
  files := by rw [hslots]; exact h.files
  pool := hpool
  valid j hj := by
    refine View.Valid.congr ?_ hinodes
    by_cases hj1 : j = 1
    · rw [hj1]
      exact h.root.valid
    · rw [hsame j hj1] at hj
      exact h.valid j hj
  counted j hj1 hj := by
    rw [hsame j hj1] at hj ⊢
    rw [hothers j hj1]
    exact h.counted j hj1 hj

/-- One inode was written, and only its count changed. -/
theorem of_sets (h : b.Balanced) {links : UInt32} (hsets : Sets b.view b'.view k links)
    (hroot : RootDir b'.view b'.slots)
    (hdistinct : ((live b'.slots).map fun e => cString e.name).Nodup)
    (hfiles : ∀ e ∈ live b'.slots, e.inumber ≠ 1 ∧ cString e.name ≠ [])
    (hpool : ∃ free, b'.pool.Handles b'.opened free)
    (hsame : ∀ j, j ≠ k → b'.refs j = b.refs j)
    (hk : 0 < b'.refs k → b.view.Valid k ∧ links.toNat = b'.refs k) : b'.Balanced where
  root := hroot
  distinct := hdistinct
  files := hfiles
  pool := hpool
  valid j hj := by
    refine View.Valid.congr ?_ hsets.inodes
    by_cases hjk : j = k
    · rw [hjk] at hj ⊢
      exact (hk hj).1
    · rw [hsame j hjk] at hj
      exact h.valid j hj
  counted j hj1 hj := by
    by_cases hjk : j = k
    · rw [hjk] at hj ⊢
      rw [hsets.links]
      exact ⟨⟨hsets.inumber, hsets.pointers⟩, (hk hj).2⟩
    · rw [hsame j hjk] at hj ⊢
      rw [hsets.others j hj1 hjk]
      exact h.counted j hj1 hj

end Ledger.Balanced

/-! ### What each does to the counts -/

section Refs

variable {b : Ledger} {slots' A B : List DirEntry} {n : ℕ} {e e' : DirEntry} {j k : UInt64}
  (w' : View) {pool' : FdPool}

variable (pool') in
theorem named_fills (h : Fills e b.slots slots') (he : e.inumber ≠ 0) :
    (Ledger.named ⟨w', slots', pool', b.opened⟩).Perm (e.inumber :: b.named) :=
  (h.live_perm he).map DirEntry.inumber

theorem named_emptied (hslots : b.slots = A ++ e :: B) (he : e.inumber ≠ 0)
    (he' : e'.inumber = 0) :
    b.named.Perm (e.inumber :: Ledger.named { b with view := w', slots := A ++ e' :: B }) := by
  rw [Ledger.named, hslots]
  exact (live_emptied he he').map DirEntry.inumber

/-- A handle more. -/
theorem refs_opened (h : HandleOpened b.pool pool' b.opened n k) :
    Ledger.refs { b with view := w', pool := pool', opened := n :: b.opened } j =
      b.refs j + if k = j then 1 else 0 := by
  have hheld : Ledger.held { b with view := w', pool := pool', opened := n :: b.opened } =
      k :: b.held := h.held w' b.slots
  rw [Ledger.refs, hheld, List.count_cons]
  show b.named.count j + (b.held.count j + if (k == j) = true then 1 else 0) = _
  rw [Ledger.refs, Nat.add_assoc]
  simp

/-- The order of the handles does not matter. -/
theorem refs_of_perm {opened opened' : List ℕ} (slots : List DirEntry)
    (h : opened'.Perm opened) :
    Ledger.refs ⟨w', slots, pool', opened'⟩ j = Ledger.refs ⟨w', slots, pool', opened⟩ j := by
  have hheld := (h.map fun n => (pool'.slot n).inumber).count_eq j
  exact congrArg (List.count j ((live slots).map DirEntry.inumber) + ·) hheld

/-- A handle less. -/
theorem refs_closed (h : HandleClosed b.pool pool' b.opened n) (hnodup : b.opened.Nodup)
    (hk : (b.pool.slot n).inumber = k) :
    b.refs j = Ledger.refs { b with view := w', pool := pool', opened := b.opened.erase n } j +
      if k = j then 1 else 0 := by
  have hheld := (h.held w' b.slots hnodup).count_eq j
  rw [hk, List.count_cons] at hheld
  rw [Ledger.refs, hheld]
  show b.named.count j + (_ + if (k == j) = true then 1 else 0) = b.named.count j + _ + _
  rw [Nat.add_assoc]
  simp

/-- An entry less. -/
theorem refs_emptied (hslots : b.slots = A ++ e :: B) (he : e.inumber ≠ 0)
    (he' : e'.inumber = 0) :
    b.refs j = Ledger.refs { b with view := w', slots := A ++ e' :: B } j +
      if e.inumber = j then 1 else 0 := by
  have hnamed := (named_emptied w' hslots he he').count_eq j
  rw [List.count_cons] at hnamed
  rw [Ledger.refs, hnamed]
  show _ + (if (e.inumber == j) = true then 1 else 0) + b.held.count j = _ + b.held.count j + _
  simp only [beq_iff_eq]
  omega

/-- An entry and a handle more. -/
theorem refs_created (hfills : Fills e b.slots slots') (he : e.inumber = k) (hk : k ≠ 0)
    (h : HandleOpened b.pool pool' b.opened n k) :
    Ledger.refs ⟨w', slots', pool', n :: b.opened⟩ j = b.refs j + if k = j then 2 else 0 := by
  subst he
  have hnamed := (named_fills w' pool' hfills hk).count_eq j
  have hheld : Ledger.held ⟨w', slots', pool', n :: b.opened⟩ = e.inumber :: b.held :=
    h.held w' slots'
  rw [List.count_cons] at hnamed
  rw [Ledger.refs, hheld, List.count_cons]
  show (Ledger.named ⟨w', slots', pool', b.opened⟩).count j + _ = _
  rw [hnamed, Ledger.refs]
  simp only [beq_iff_eq]
  split <;> omega

end Refs

/-! ### Every change is balanced -/

section Step

variable {b b' : Ledger} {handsOut : View → UInt64 → UInt64 → Prop} {ev : LedgerEvent}
  {links : UInt32} {n : ℕ}

theorem toNat_links_add (h : links.toNat + 1 < 2 ^ 32) : (links + 1).toNat = links.toNat + 1 := by
  rw [UInt32.toNat_add]
  exact Nat.mod_eq_of_lt h

theorem toNat_links_sub (h : 0 < links.toNat) : (links - 1).toNat = links.toNat - 1 :=
  UInt32.toNat_sub_of_le _ _ (UInt32.le_iff_toNat_le.mpr h)

/-- A link less of a file that has this many. -/
theorem links_dropped (h : links.toNat = n + 1) : (links - 1).toNat = n := by
  rw [toNat_links_sub (by omega), h, Nat.add_sub_cancel]

/-- **Every change keeps the counts right.** -/
theorem LedgerStep.balanced (hb : b.Balanced) (h : LedgerStep handsOut b ev b') :
    b'.Balanced := by
  cases h with
  | look root touched =>
    exact hb.of_root rfl touched.inodes touched.others root hb.pool fun j _ => rfl
  | @opens w' pool' k n root named added handle =>
    have hk : 0 < b.refs k := Nat.add_pos_left (List.count_pos_iff.mpr named) _
    have hk1 : k ≠ 1 := by
      obtain ⟨e, he, rfl⟩ := List.mem_map.mp named
      exact (hb.files e he).1
    refine hb.of_sets added.sets root hb.distinct hb.files handle.handles (fun j hj => ?_)
      fun _ => ⟨hb.valid k hk, ?_⟩
    · rw [refs_opened w' handle, if_neg (Ne.symm hj), Nat.add_zero]
    · rw [refs_opened w' handle, if_pos rfl, ← (hb.counted k hk1 hk).2]
      exact toNat_links_add (by rw [(hb.counted k hk1 hk).2]; exact hb.refs_lt k)
  | @creates w' slots' pool' name k n root fills fresh nonempty stored unused sets handed
      deallocated handle =>
    have hk0 : k ≠ 0 := Ne.symm (UInt64.ne_of_lt unused.valid.1)
    have hnew : (newEntry k name).inumber = k := rfl
    have hperm := fills.live_perm hk0
    refine hb.of_sets sets root ?_ (fun e he => ?_) handle.handles (fun j hj => ?_)
      fun _ => ⟨unused.valid, ?_⟩
    · refine ((hperm.map fun e => cString e.name).nodup_iff).mpr ?_
      rw [List.map_cons, stored, List.nodup_cons]
      refine ⟨fun hmem => ?_, hb.distinct⟩
      obtain ⟨e, he, hname⟩ := List.mem_map.mp hmem
      exact fresh e he hname
    · rcases List.mem_cons.mp (hperm.mem_iff.mp he) with rfl | he
      · exact ⟨unused.notRoot, by rw [stored]; exact nonempty⟩
      · exact hb.files e he
    · rw [refs_created w' fills hnew hk0 handle, if_neg (Ne.symm hj), Nat.add_zero]
    · rw [refs_created w' fills hnew hk0 handle, if_pos rfl, unused.refs]
      rfl
  | @leaks w' k root full used unused sets handed deallocated =>
    refine hb.of_sets sets root hb.distinct hb.files hb.pool (fun j _ => rfl) fun hk => ?_
    have hrefs : Ledger.refs { b with view := w' } k = 0 := unused.refs
    rw [hrefs] at hk
    exact absurd hk (Nat.lt_irrefl 0)
  | @unlinks w' A B e e' slots used emptied root dropped =>
    have he : e ∈ live b.slots := by
      rw [slots]
      exact mem_live.mpr ⟨List.mem_append_right A List.mem_cons_self, used⟩
    have hpos := Ledger.Balanced.refs_of_entry he
    have hk1 := (hb.files e he).1
    have hperm := live_emptied (A := A) (B := B) used emptied
    rw [← slots] at hperm
    refine hb.of_sets dropped.sets root ?_ (fun d hd => ?_) hb.pool (fun j hj => ?_)
      fun _ => ⟨hb.valid _ hpos, links_dropped ?_⟩
    · have hnodup := ((hperm.map fun e => cString e.name).nodup_iff).mp hb.distinct
      exact (List.nodup_cons.mp hnodup).2
    · exact hb.files d (hperm.mem_iff.mpr (List.mem_cons_of_mem e hd))
    · rw [refs_emptied w' slots used emptied (j := j), if_neg (Ne.symm hj), Nat.add_zero]
    · rw [(hb.counted _ hk1 hpos).2, refs_emptied w' slots used emptied, if_pos rfl]
  | @releases w' pool' k n root inumber notRoot dropped handle =>
    subst inumber
    have hpos := Ledger.Balanced.refs_of_handle handle.mem
    refine hb.of_sets dropped.sets root hb.distinct hb.files handle.handles (fun j hj => ?_)
      fun _ => ⟨hb.valid _ hpos, links_dropped ?_⟩
    · rw [refs_closed w' handle hb.nodup rfl (j := j), if_neg (Ne.symm hj), Nat.add_zero]
    · rw [(hb.counted _ notRoot hpos).2, refs_closed w' handle hb.nodup rfl, if_pos rfl]
  | @touches w' k root held notRoot sets list =>
    have hpos : 0 < b.refs k := Nat.add_pos_right _ (List.count_pos_iff.mpr held)
    exact hb.of_sets sets root hb.distinct hb.files hb.pool (fun j _ => rfl)
      fun _ => ⟨hb.valid k hpos, (hb.counted k notRoot hpos).2⟩
  | @opensDir w' pool' n opened' root touched handle perm =>
    refine hb.of_root rfl touched.inodes touched.others root ?_ fun j hj => ?_
    · obtain ⟨free, hfree⟩ := handle.handles
      exact ⟨free, hfree.of_perm perm⟩
    · rw [refs_of_perm w' b.slots perm, refs_opened w' handle, if_neg (Ne.symm hj), Nat.add_zero]
  | @closesDir w' pool' n root inumber unlinked handle =>
    refine hb.of_root rfl unlinked.inodes unlinked.others root handle.handles fun j hj => ?_
    rw [refs_closed w' handle hb.nodup inumber (j := j), if_neg (Ne.symm hj), Nat.add_zero]

end Step

end SimpleFileSystem
