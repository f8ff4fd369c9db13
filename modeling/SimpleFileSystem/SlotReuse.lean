import SimpleFileSystem.CacheFaults
import SimpleFileSystem.DirSessions
import SimpleFileSystem.Library.FirstFit

/-!
# The slots of a directory are cells

What links and removals do to the slots of a directory is what calls on a table of cells
that is filled first fit do to it: `dirCall_refines`.  So the directory is as long as the
most entries that were in it at one time, and it takes another one unless it has 76.

The cells of a directory are read off its blocks (`HasCells`).  A removal may deallocate
an inode, and that it succeeds is assumed (`Frees`).
-/

namespace SimpleFileSystem

/-- What is in a slot. -/
def DirEntry.cell (e : DirEntry) : Option DirEntry :=
  if e.inumber = 0 then none else some e

/-- What a call is to the cells. -/
def DirEvent.cell : DirEvent → Option (CellEvent DirEntry)
  | .linked e ret => some (.insert e (decide (ret = 0)))
  | .unlinked i e _ => some (.remove i e)
  | _ => none

/-- **The directory has these cells**, and the caller's copy of its inode is the one that is
stored. -/
structure Filesystem.HasCells (fs : Filesystem DirFiles) (d : UInt64) (directory : Inode)
    (cells : List (Option DirEntry)) : Prop where
  stored : fs.logicalInode d = directory
  size : directory.size.toNat = 512 * cells.length
  cell : ∀ i (hi : i < cells.length),
    cells[i] = (Block.dirEntry (fs.files.blocks d (UInt64.ofNat i)) 0).cell

/-! ## Deallocations that succeed -/

/-- The inode `k` was deallocated, and of the others none was written. -/
structure Spares (k : UInt64) (fs fs' : Filesystem DirFiles) : Prop where
  state : InodeState fs'
  inodes : fs'.superblock.inodes = fs.superblock.inodes
  blocks : fs'.files.blocks = fs.files.blocks
  inumber : (fs'.logicalInode k).inumber = k
  others : ∀ j, fs.superblock.ValidInumber j → j ≠ k → fs'.logicalInode j = fs.logicalInode j

/-- **`sfs_fs_inode_deallocate` succeeds** where a removal of an entry that names `k` calls
it: with the inode that it has read, and of which it has taken the last link. -/
def Filesystem.Frees (L : InodeLayer DirFiles) (fs : Filesystem DirFiles) (k : UInt64) : Prop :=
  ∀ v fs₁ t fs₂, (sfsFsReadInode k).run fs = .done (some v) fs₁ → v.links = 1 →
    (time : Fs DirFiles UInt64).run fs₁ = .done t fs₂ →
    Run.Ensures (L.deallocate (v.unlinked t)) fs₂ fun ret fs₃ => ret = 0 ∧ Spares k fs₂ fs₃

/-- **The calls on the directory** whose deallocations succeed. -/
def FreeingCall (L : InodeLayer DirFiles) (d : UInt64) (s : Filesystem DirFiles × DirCursor)
    (ev : DirEvent) (t : Filesystem DirFiles × DirCursor) : Prop :=
  DirCall L d s ev t ∧
    match ev with
    | .unlinked _ e _ => s.1.Frees L e.inumber
    | _ => True

/-- An inode that is linked lies in a block whose number the inode cache can hold. -/
def DirEvent.LinksLow : DirEvent → Prop
  | .linked e _ => (inodeBlock e.inumber).toNat < 2 ^ 31
  | _ => True

/-- What the calls answer: no removal fails. -/
def DirEvent.Answered : DirEvent → Prop
  | .unlinked _ _ ret => ret = 0
  | .linked _ ret => ret = 0 ∨ ret = -1
  | _ => True

/-! ## The invariant -/

/-- The view that shows everything. -/
def Filesystem.view (fs : Filesystem DirFiles) : View where
  inodes := fs.superblock.inodes
  table := fs.logicalInode
  head := fs.superblock.freeInodeHead
  files := fs.files
  freed := fs.host.freed

theorem looks_view {fs : Filesystem DirFiles} (h : InodeState fs) : Looks fs fs.view :=
  ⟨h, rfl, fun _ _ => rfl, rfl, rfl, rfl⟩

/-- The entries in use name inodes other than the directory, which have their numbers. -/
def View.Names (w : View) (d : UInt64) (slots : List DirEntry) : Prop :=
  ∀ e ∈ slots, e.inumber ≠ 0 →
    w.Valid e.inumber ∧ e.inumber ≠ d ∧ (w.table e.inumber).inumber = e.inumber

/-- Inodes other than the directory that had their numbers have them. -/
structure Numbered (d : UInt64) (w w' : View) : Prop where
  inodes : w'.inodes = w.inodes
  inumber : ∀ j, w.Valid j → j ≠ d → (w.table j).inumber = j → (w'.table j).inumber = j

namespace Numbered

variable {d : UInt64} {w w' w'' : View} {slots : List DirEntry}

theorem names (h : Numbered d w w') (hnames : w.Names d slots) : w'.Names d slots := by
  intro e he hused
  obtain ⟨hvalid, hne, hinumber⟩ := hnames e he hused
  exact ⟨hvalid.congr h.inodes, hne, h.inumber _ hvalid hne hinumber⟩

theorem trans (h : Numbered d w w') (h' : Numbered d w' w'') : Numbered d w w'' where
  inodes := h'.inodes.trans h.inodes
  inumber j hj hne hj' := h'.inumber j (hj.congr h.inodes) hne (h.inumber j hj hne hj')

theorem of_touched (h : DirTouched d w w') : Numbered d w w' where
  inodes := h.inodes
  inumber j _ hne hj := by rw [h.others j hne, hj]

theorem setInode (w : View) (v : Inode) : Numbered d w (w.setInode v) where
  inodes := rfl
  inumber j _ _ hj := by
    by_cases hjv : j = v.inumber
    · rw [hjv, View.setInode_table_self]
    · rw [View.setInode_table_of_ne hjv, hj]

end Numbered

/-- **Between two calls**: what the filesystem looks like, and which slots the directory
has. -/
def Slotted (d : UInt64) (slots : List DirEntry) (s : Filesystem DirFiles × DirCursor) : Prop :=
  ∃ w, Looks s.1 w ∧ s.2.Holds d w slots ∧ w.Names d slots

section Cells

variable {d : UInt64} {slots slots' A B : List DirEntry} {e e' : DirEntry}

theorem cell_of_used (he : e.inumber ≠ 0) : e.cell = some e :=
  if_neg he

theorem cell_of_unused (he : e.inumber = 0) : e.cell = none :=
  if_pos he

theorem cell_eq_none_iff : e.cell = none ↔ e.inumber = 0 := by
  unfold DirEntry.cell
  split <;> simp_all

theorem none_notMem_cells : none ∉ slots.map DirEntry.cell ↔ ∀ c ∈ slots, c.inumber ≠ 0 := by
  simp [cell_eq_none_iff]

/-- **An entry is added** to the first empty cell. -/
theorem Fills.cellStep (h : Fills e slots slots') (he : e.inumber ≠ 0)
    (hmapped : slots'.length ≤ mappedBlocks) :
    CellStep mappedBlocks (slots.map DirEntry.cell) (.insert e true)
      (slots'.map DirEntry.cell) := by
  cases h with
  | reuse A B used unused =>
    simp only [List.map_append, List.map_cons, cell_of_used he, cell_of_unused unused]
    exact CellStep.fill _ _ (none_notMem_cells.mpr used)
  | grow _ used =>
    simp only [List.map_append, List.map_cons, List.map_nil, cell_of_used he]
    refine CellStep.grow _ (none_notMem_cells.mpr used) ?_
    rw [List.length_append] at hmapped
    rw [List.length_map]
    exact hmapped

/-- What the blocks hold. -/
theorem Slotted.hasCells {s : Filesystem DirFiles × DirCursor} (h : Slotted d slots s) :
    s.1.HasCells d s.2.directory (slots.map DirEntry.cell) := by
  obtain ⟨w, hlooks, hholds, -⟩ := h
  refine ⟨?_, ?_, fun i hi => ?_⟩
  · rw [hholds.directory]
    exact hlooks.table d hholds.dir.valid
  · rw [hholds.directory, List.length_map]
    exact hholds.dir.size
  · rw [List.length_map] at hi
    rw [List.getElem_map, hlooks.files, ← hholds.dir.slot i hi]
    rfl

end Cells

/-! ## The calls -/

theorem serves_looks (allocate : Fs DirFiles (Option Inode)) :
    Serves (loggedLayer allocate) Looks := by
  have hserves := serves_loggedLayer allocate (I := fun _ => True) fun _ _ h _ _ => h
  simpa only [and_true] using hserves

section Calls

variable {allocate : Fs DirFiles (Option Inode)} {fs fs' : Filesystem DirFiles} {w w' : View}
  {d : UInt64} {slots slots' A B : List DirEntry} {e x : DirEntry} {c : DirCursor}
  {it : DirIterator} {ev : DirEvent} {s t : Filesystem DirFiles × DirCursor} {i : ℕ}

/-- An entry in use stays where it is when another is added. -/
theorem Fills.getElem? (h : Fills x slots slots') (hi : slots[i]? = some e) (he : e.inumber ≠ 0) :
    slots'[i]? = some e := by
  cases h with
  | reuse A B used unused =>
    rcases Nat.lt_trichotomy i A.length with hlt | rfl | hgt
    · rw [List.getElem?_append_left hlt] at hi ⊢
      exact hi
    · rw [List.getElem?_append_right (Nat.le_refl _), Nat.sub_self] at hi
      cases hi
      exact absurd unused he
    · obtain ⟨n, hn⟩ : ∃ n, i - A.length = n + 1 := ⟨i - A.length - 1, by omega⟩
      rw [List.getElem?_append_right (Nat.le_of_lt hgt), hn, List.getElem?_cons_succ] at hi ⊢
      exact hi
  | grow _ used =>
    rw [List.getElem?_append_left (List.getElem?_eq_some_iff.mp hi).1]
    exact hi

theorem Fills.length_le (h : Fills x slots slots') : slots.length ≤ slots'.length := by
  cases h with
  | reuse => simp
  | grow => simp

theorem Fills.mem (h : Fills x slots slots') (he : e ∈ slots') : e = x ∨ e ∈ slots := by
  cases h with
  | reuse A B =>
    simp only [List.mem_append, List.mem_cons] at he ⊢
    tauto
  | grow =>
    simp only [List.mem_append, List.mem_singleton] at he
    tauto

/-- The iterator stays in place when an entry is added. -/
theorem Fills.placed (h : Fills x slots slots') (directory : Inode) (hc : c.Placed slots) :
    (c.withDirectory directory).Placed slots' := by
  cases c with
  | closed => exact hc
  | ready it =>
    obtain ⟨n, hn, hplace⟩ := hc
    exact ⟨n, Nat.le_trans hn h.length_le, hplace⟩
  | returned it j =>
    obtain ⟨hj, hentry, hslot, hused⟩ := hc
    exact ⟨hj, hentry, h.getElem? hslot hused, hused⟩

/-- Another inode of the directory with the same slots. -/
theorem DirCursor.Placed.withDirectory (directory : Inode) (hc : c.Placed slots) :
    (c.withDirectory directory).Placed slots := by
  cases c <;> exact hc

theorem Looks.released (h : Looks fs w) (block : Block) :
    Run.Ensures (free block : Fs DirFiles Block) fs fun _ fs' => Looks fs' w.released :=
  ((serves_looks sfsFsInodeAllocate).free_ensures h block).mono fun _ _ hpost => hpost.2

/-- What a call does to the cells. -/
def Refines (d : UInt64) (slots : List DirEntry) (ev : DirEvent)
    (t : Filesystem DirFiles × DirCursor) : Prop :=
  ∃ slots', Slotted d slots' t ∧ match ev.cell with
    | none => slots' = slots
    | some a => CellStep mappedBlocks (slots.map DirEntry.cell) a (slots'.map DirEntry.cell)

/-- `sfs_dir_iterate` -/
theorem iterate_refines {directory : Inode} (h : Slotted d slots (fs, .closed directory)) :
    Run.Ensures (sfsDirIterate directory) fs fun answer fs' =>
      Refines d slots .looked (fs', (answer.map DirCursor.ready).getD (.closed directory)) := by
  obtain ⟨w, hlooks, hholds, hnames⟩ := h
  have hself : directory = w.table d := hholds.directory
  subst hself
  have hmalloced := hlooks.of_host fs.malloced.host rfl
  rw [show fs.malloced.host.freed = w.freed from hlooks.freed] at hmalloced
  rw [sfsDirIterate, decide_eq_true hholds.dir.directory, Run.assert_true, Run.pure_bind']
  refine Run.Ensures.bind (P := fun _ fs' => Looks fs' w) (Run.Ensures.of_eq (malloc_run fs)
    hmalloced) fun got fs' h' => ?_
  cases got with
  | false => exact Run.ensures_pure ⟨slots, ⟨w, h', hholds, hnames⟩, rfl⟩
  | true =>
    exact Run.ensures_pure ⟨slots, ⟨w, h', ⟨hholds.dir, rfl, 0, Nat.zero_le _, Or.inl ⟨rfl, rfl⟩⟩,
      hnames⟩, rfl⟩

/-- `sfs_dir_iterclose` -/
theorem close_refines (h : Slotted d slots (fs, c)) (hit : c.iterator = some it) :
    Run.Ensures (sfsDirIterclose it) fs fun _ fs' =>
      Refines d slots .looked (fs', .closed it.inode) := by
  obtain ⟨w, hlooks, hholds, hnames⟩ := h
  obtain ⟨passed, ahead, -, hahead⟩ := hholds.ahead hit
  refine (hlooks.released it.cachedBlock).mono fun _ fs' h' => ?_
  have haccess := (Accessed.refl (d := d) w).released
  exact ⟨slots, ⟨_, h', ⟨haccess.directory hholds.dir, hahead.inode, trivial⟩,
    (Numbered.of_touched haccess.touched).names hnames⟩, rfl⟩

/-- `sfs_dir_iternext` -/
theorem next_refines (h : Slotted d slots (fs, c)) (hit : c.iterator = some it)
    (wantInode : Bool) :
    Run.Ensures (sfsDirIternext (loggedLayer allocate) wantInode it) fs fun answer fs' =>
      match answer with
      | .stop directory => Refines d slots .ended (fs', .closed directory)
      | .entry it' j inode => Refines d slots
          (.found (Block.dirEntry it'.cachedBlock j) wantInode inode) (fs', .returned it' j) := by
  obtain ⟨w, hlooks, hholds, hnames⟩ := h
  obtain ⟨passed, ahead, rfl, hahead⟩ := hholds.ahead hit
  have hvalid : wantInode = true → ∀ e ∈ ahead, e.inumber ≠ 0 → w.Valid e.inumber :=
    fun _ e he hused => (hnames e (List.mem_append_right _ he) hused).1
  refine (sfsDirIternext_ensures (serves_looks allocate) hlooks hahead hvalid).mono ?_
  rintro answer fs' ⟨w', haccess, h', hpost⟩
  have hdir := haccess.directory hholds.dir
  have hnames' := (Numbered.of_touched haccess.touched).names hnames
  cases answer with
  | stop directory =>
    exact ⟨_, ⟨w', h', ⟨hdir, hpost.1, trivial⟩, hnames'⟩, rfl⟩
  | entry it' j inode =>
    obtain ⟨-, unused, e, ahead', rfl, -, hstops, hahead'⟩ := hpost
    have hj := hstops.first
    subst hj
    have hentry : it'.entry = 1 := by
      rcases hahead'.place with ⟨-, hlength⟩ | ⟨hone, -⟩
      · rw [hstops.iblock, List.length_append] at hlength
        exact absurd hlength (by simp)
      · exact hone
    refine ⟨_, ⟨w', h', ⟨hdir, hahead'.inode, rfl, hentry, ?_, ?_⟩, hnames'⟩, rfl⟩
    · rw [hstops.entry, hstops.iblock, ← List.append_assoc]
      rw [List.getElem?_append_right (Nat.le_refl _), Nat.sub_self, List.getElem?_cons_zero]
    · rw [hstops.entry]
      exact hstops.used

/-- **`sfs_dir_iter_unlink`** of the entry that was returned. -/
theorem unlink_refines (h : Slotted d slots (fs, .returned it 0))
    (hfrees : fs.Frees (loggedLayer allocate) (Block.dirEntry it.cachedBlock 0).inumber) :
    Run.Ensures (sfsDirIterUnlink (loggedLayer allocate) it 0) fs fun answer fs' =>
      answer.1 = 0 ∧ Refines d slots
        (.unlinked it.iblock.toNat (Block.dirEntry it.cachedBlock 0) answer.1)
        (fs', .ready answer.2) := by
  obtain ⟨w, hlooks, hholds, hnames⟩ := h
  obtain ⟨-, hplace, hslot, hused⟩ := hholds.placed
  generalize he : Block.dirEntry it.cachedBlock 0 = e at hfrees hslot hused ⊢
  obtain ⟨hlt, hget⟩ := List.getElem?_eq_some_iff.mp hslot
  -- the slots before the entry and after it
  obtain ⟨A, B, hslots, hlength⟩ : ∃ A B, slots = A ++ e :: B ∧ A.length = it.iblock.toNat := by
    refine ⟨slots.take it.iblock.toNat, slots.drop (it.iblock.toNat + 1), ?_, ?_⟩
    · rw [← hget, List.getElem_cons_drop, List.take_append_drop]
    · rw [List.length_take, Nat.min_eq_left (Nat.le_of_lt hlt)]
  subst hslots
  obtain ⟨hvalid, hne, hinumber⟩ := hnames e (List.mem_append_right A List.mem_cons_self) hused
  have hserves := serves_looks allocate
  refine (hserves.sfsDirIterUnlink_ensures hserves hlooks hholds.dir hholds.directory hlength.symm
    he hvalid hinumber hne (P := Numbered d w) (fun hone fs₁ t fs₂ hread htime h₂ => ?_)
    fun _ t _ h₃ => ⟨h₃, Numbered.setInode w _⟩).mono ?_
  · refine (hfrees _ fs₁ t fs₂ hread hone htime).mono ?_
    rintro ret fs₃ ⟨hret, hspares⟩
    have hvalid' : ∀ j, w.Valid j → j ≠ e.inumber → fs₃.logicalInode j = w.table j :=
      fun j hj hje => (hspares.others j (h₂.valid hj) hje).trans (h₂.table j hj)
    have hinodes : fs₃.view.inodes = w.inodes := hspares.inodes.trans h₂.inodes
    refine ⟨hret, fs₃.view, looks_view hspares.state, ⟨hinodes,
      hvalid' d hholds.dir.valid (Ne.symm hne), ?_⟩, hinodes, fun j hj _ hnum => ?_⟩
    · show fs₃.files.blocks d = _
      rw [hspares.blocks, h₂.files]
    · by_cases hje : j = e.inumber
      · rw [hje]
        exact hspares.inumber
      · exact (congrArg Inode.inumber (hvalid' j hj hje)).trans hnum
  · rintro ⟨ret, it'⟩ fs' ⟨hret, hentry', hiblock', w₁, w', e', hnumbered, htouched, h', hinode,
      hemptied, hdir'⟩
    dsimp only at hret hentry' hiblock' hinode ⊢
    have hnames' : w'.Names d (A ++ e' :: B) := by
      intro x hx hx0
      refine (hnumbered.trans (Numbered.of_touched htouched)).names hnames x ?_ hx0
      rcases List.mem_append.mp hx with hx | hx
      · exact List.mem_append_left _ hx
      · rcases List.mem_cons.mp hx with rfl | hx
        · exact absurd hemptied hx0
        · exact List.mem_append_right _ (List.mem_cons_of_mem _ hx)
    refine ⟨hret, A ++ e' :: B, ⟨w', h', ⟨hdir', hinode, A.length + 1, by simp,
      Or.inr ⟨hentry'.trans hplace, by rw [hiblock', hlength]⟩⟩, hnames'⟩, ?_⟩
    simp only [DirEvent.cell, List.map_append, List.map_cons, cell_of_used hused,
      cell_of_unused hemptied]
    have hmap : (A.map DirEntry.cell).length = A.length := List.length_map _
    rw [← hlength, ← hmap]
    exact CellStep.remove _ _

/-- **`sfs_dir_link`** -/
theorem link_refines (h : Slotted d slots (fs, c)) {name : CString} {v : Inode}
    (hname : name.length ≤ 255) (hvalid : fs.superblock.ValidInumber v.inumber)
    (hne : v.inumber ≠ d) (hlow : (inodeBlock v.inumber).toNat < 2 ^ 31) :
    Run.Ensures (sfsDirLink (loggedLayer allocate) c.directory name v) fs fun answer fs' =>
      (answer.1 = 0 ∨ answer.1 = -1) ∧ Refines d slots
        (.linked (newEntry v.inumber name) answer.1) (fs', c.withDirectory answer.2.1) := by
  obtain ⟨w, hlooks, hholds, hnames⟩ := h
  have hk : w.Valid v.inumber := ⟨hvalid.1, by rw [← hlooks.inodes]; exact hvalid.2, hlow⟩
  have hused : (newEntry v.inumber name).inumber ≠ 0 := Ne.symm (UInt64.ne_of_lt hvalid.1)
  rw [hholds.directory]
  refine ((serves_looks allocate).sfsDirLink_ensures hlooks hholds.dir hname hk).mono ?_
  rintro ⟨ret, directory, inode⟩ fs'
    (⟨rfl, w₁, slots', t, htouched, hdir₁, hfills, h', hdirectory⟩ |
      ⟨rfl, h', hfull, hall, hdirectory⟩)
  · have hlinked : (v.linked t).inumber ≠ d := hne
    refine ⟨Or.inl rfl, slots', ⟨_, h', ⟨(Apart.setInode w₁ hlinked).directory hdir₁, ?_,
      hfills.placed _ hholds.placed⟩, ?_⟩, hfills.cellStep hused hdir₁.mapped⟩
    · rw [DirCursor.directory_withDirectory]
      exact hdirectory.trans (Apart.setInode w₁ hlinked).self.symm
    · have hnumbered := (Numbered.of_touched htouched).trans (Numbered.setInode w₁ (v.linked t))
      intro x hx hx0
      rcases hfills.mem hx with rfl | hx
      · refine ⟨hk.congr htouched.inodes, hne, ?_⟩
        show ((w₁.setInode (v.linked t)).table (v.linked t).inumber).inumber = _
        rw [View.setInode_table_self]
        rfl
      · exact hnumbered.names hnames x hx hx0
  · refine ⟨Or.inr rfl, slots, ⟨w, h', ⟨hholds.dir, ?_, hholds.placed.withDirectory _⟩, hnames⟩,
      CellStep.refuse _ (none_notMem_cells.mpr hall) ?_⟩
    · rw [DirCursor.directory_withDirectory]
      exact hdirectory
    · rw [List.length_map]
      exact hfull

/-- **A call refines one on the cells**, and a removal succeeds. -/
theorem dirCall_refines (h : Slotted d slots s)
    (hcall : FreeingCall (loggedLayer allocate) d s ev t)
    (hlow : ev.LinksLow) : Refines d slots ev t ∧ ev.Answered := by
  obtain ⟨hcall, hfrees⟩ := hcall
  cases hcall with
  | iterate run => exact ⟨(iterate_refines h).post run, trivial⟩
  | close iterator run => exact ⟨(close_refines h iterator).post run, trivial⟩
  | next wantInode iterator run => exact ⟨(next_refines h iterator wantInode).post run, trivial⟩
  | stop wantInode iterator run => exact ⟨(next_refines h iterator wantInode).post run, trivial⟩
  | @unlink fs fs' it it' j ret run =>
    obtain rfl : j = 0 := by
      obtain ⟨w, -, hholds, -⟩ := h
      exact hholds.placed.1
    exact ((unlink_refines h hfrees).post run).symm
  | link short valid other run =>
    exact ((link_refines h short valid other hlow).post run).symm

/-- **What any calls do to the cells.** -/
theorem slotted_of_exec {tr : List DirEvent} (h : Slotted d slots s)
    (hexec : Exec (FreeingCall (loggedLayer allocate) d) s tr t)
    (hlow : ∀ ev ∈ tr, ev.LinksLow) :
    (∃ slots', Slotted d slots' t ∧ Exec (CellStep mappedBlocks) (slots.map DirEntry.cell)
      (tr.filterMap DirEvent.cell) (slots'.map DirEntry.cell)) ∧ ∀ ev ∈ tr, ev.Answered := by
  have hexec' := hexec.restrict hlow
  constructor
  · have hproject : ∃ cells, Exec (CellStep mappedBlocks) (slots.map DirEntry.cell)
        (tr.filterMap DirEvent.cell) cells ∧
        ∃ slots', Slotted d slots' t ∧ cells = slots'.map DirEntry.cell := by
      refine hexec'.project
        (R := fun s cells => ∃ slots, Slotted d slots s ∧ cells = slots.map DirEntry.cell)
        DirEvent.cell ?_ ?_ ⟨slots, h, rfl⟩
      · rintro s ev t _ ⟨slots, hs, rfl⟩ ⟨hlow, hcall⟩ hlabel
        obtain ⟨⟨slots', ht, hstep⟩, -⟩ := dirCall_refines hs hcall hlow
        rw [hlabel] at hstep
        exact ⟨slots', ht, by rw [hstep]⟩
      · rintro s ev t _ a ⟨slots, hs, rfl⟩ ⟨hlow, hcall⟩ hlabel
        obtain ⟨⟨slots', ht, hstep⟩, -⟩ := dirCall_refines hs hcall hlow
        rw [hlabel] at hstep
        exact ⟨_, hstep, slots', ht, rfl⟩
    obtain ⟨cells, hcells, slots', hslotted, rfl⟩ := hproject
    exact ⟨slots', hslotted, hcells⟩
  · refine hexec'.events (I := fun s => ∃ slots, Slotted d slots s) (fun s ev t hs hcall => ?_)
      ⟨slots, h⟩
    obtain ⟨slots, hs⟩ := hs
    obtain ⟨⟨slots', ht, -⟩, hanswered⟩ := dirCall_refines hs hcall.2 hcall.1
    exact ⟨⟨slots', ht⟩, hanswered⟩

/-- The next call returns, whatever it is. -/
def Returns (allocate : Fs DirFiles (Option Inode)) (d : UInt64)
    (s : Filesystem DirFiles × DirCursor) : Prop :=
  (∀ it wantInode, s.2.iterator = some it →
    Run.Ensures (sfsDirIternext (loggedLayer allocate) wantInode it) s.1 fun _ _ => True) ∧
  (∀ it j, s.2 = .returned it j →
    s.1.Frees (loggedLayer allocate) (Block.dirEntry it.cachedBlock j).inumber →
    Run.Ensures (sfsDirIterUnlink (loggedLayer allocate) it j) s.1 fun answer _ => answer.1 = 0) ∧
  ∀ (name : CString) (v : Inode), name.length ≤ 255 → s.1.superblock.ValidInumber v.inumber →
    v.inumber ≠ d → (inodeBlock v.inumber).toNat < 2 ^ 31 →
    Run.Ensures (sfsDirLink (loggedLayer allocate) s.2.directory name v) s.1 fun answer _ =>
      answer.1 = 0 ∨ answer.1 = -1

theorem Slotted.returns (h : Slotted d slots s) : Returns allocate d s := by
  obtain ⟨fs, c⟩ := s
  refine ⟨fun it wantInode hit => ?_, fun it j hc hfrees => ?_,
    fun name v hname hvalid hne hlow => ?_⟩
  · exact (next_refines h hit wantInode).mono fun _ _ _ => trivial
  · dsimp only at hc
    subst hc
    obtain rfl : j = 0 := by
      obtain ⟨w, -, hholds, -⟩ := h
      exact hholds.placed.1
    exact (unlink_refines h hfrees).mono fun _ _ hpost => hpost.1
  · exact (link_refines h hname hvalid hne hlow).mono fun _ _ hpost => hpost.1

/-- **An empty directory**, and its inode in hand. -/
structure Filesystem.EmptyDir (fs : Filesystem DirFiles) (d : UInt64)
    (directory : Inode) : Prop where
  state : InodeState fs
  valid : fs.superblock.ValidInumber d
  stored : fs.logicalInode d = directory
  inumber : directory.inumber = d
  isDir : directory.mode &&& sIfdir ≠ 0
  size : directory.size = 0

theorem Filesystem.EmptyDir.slotted {directory : Inode} (h : fs.EmptyDir d directory)
    (hlow : (inodeBlock d).toNat < 2 ^ 31) : Slotted d [] (fs, .closed directory) := by
  have hself := h.stored
  subst hself
  exact ⟨fs.view, looks_view h.state, ⟨⟨⟨h.valid.1, h.valid.2, hlow⟩, h.inumber, h.isDir,
    congrArg UInt64.toNat h.size, Nat.zero_le _, fun i hi => absurd hi (Nat.not_lt_zero i)⟩, rfl,
    trivial⟩, fun e he => absurd he List.not_mem_nil⟩

/-- **The slots of a directory are used again**, and it is as long as the most entries that
were in it at one time, whatever links and removals there are: the directory goes through
the states of a table of 76 cells that is filled first fit. -/
theorem slots_are_reused {directory : Inode} {tr : List DirEvent} (h : fs.EmptyDir d directory)
    (hexec : Exec (FreeingCall (loggedLayer allocate) d) (fs, .closed directory) tr (fs', c))
    (hd : (inodeBlock d).toNat < 2 ^ 31) (hlow : ∀ ev ∈ tr, ev.LinksLow) :
    (∃ cells, Exec (CellStep 76) [] (tr.filterMap DirEvent.cell) cells ∧
      fs'.HasCells d c.directory cells ∧
      c.directory.size.toNat = 512 * CellEvent.peak 0 (tr.filterMap DirEvent.cell)) ∧
    (∀ tr₁ tr₂ e ret, tr = tr₁ ++ .linked e ret :: tr₂ →
      (ret ≠ 0 ↔ CellEvent.count 0 (tr₁.filterMap DirEvent.cell) = 76)) ∧
    (∀ ev ∈ tr, ev.Answered) ∧ Returns allocate d (fs', c) := by
  obtain ⟨⟨slots', hslotted, hcells⟩, hanswered⟩ := slotted_of_exec (h.slotted hd) hexec hlow
  have hhas := hslotted.hasCells
  have hlength := CellStep.length_of_exec hcells
  rw [List.map_nil, List.length_nil, Nat.zero_max, occupied_nil] at hlength
  refine ⟨⟨_, hcells, hhas, ?_⟩, fun tr₁ tr₂ e ret htr => ?_, hanswered, hslotted.returns⟩
  · rw [← hlength]
    exact hhas.size
  · subst htr
    rw [List.filterMap_append, List.filterMap_cons_some (show DirEvent.cell (.linked e ret) =
      some (.insert e (decide (ret = 0))) from rfl)] at hcells
    have hrefused := CellStep.refused_iff_of_exec hcells (Nat.zero_le _)
    rw [decide_eq_false_iff_not] at hrefused
    exact hrefused

end Calls

/-! ## Two disks with an empty directory -/

section Sample

variable {F : Type} {fs : Filesystem F} {v : Inode}

/-- The inode put into its place on the disk. -/
def Filesystem.putInode (fs : Filesystem F) (v : Inode) : Filesystem F :=
  fs.writeBlock (inodeBlock v.inumber)
    ((fs.disk.block (inodeBlock v.inumber).toNat).setInode (inodeSlot v.inumber) v)

theorem holds_inodeBlock (h : InodeState fs) (hv : fs.superblock.ValidInumber v.inumber) :
    fs.disk.Holds (inodeBlock v.inumber) :=
  h.holds (inTable_inodeBlock h.table.inodes_le hv)

theorem inodeState_putInode (h : InodeState fs) (hcached : fs.cachedBlock = 0)
    (hv : fs.superblock.ValidInumber v.inumber) : InodeState (fs.putInode v) where
  reliable := by
    have hsize := Filesystem.size_writeBlock
      ((fs.disk.block (inodeBlock v.inumber).toNat).setInode (inodeSlot v.inumber) v)
      (holds_inodeBlock h hv)
    exact ⟨h.reliable.noFaults, h.reliable.covers.trans hsize.ge,
      hsize.trans_lt h.reliable.addressable⟩
  table := ⟨h.table.inodes_le, h.table.inDisk⟩
  cache := ⟨Or.inl hcached, h.cache.clean, fun hne => absurd hcached hne⟩

theorem keeps_putInode {fs : Filesystem DirFiles} (h : InodeState fs)
    (hv : fs.superblock.ValidInumber v.inumber) : Keeps fs (fs.putInode v) where
  superblock := rfl
  mallocs := rfl
  size := Filesystem.size_writeBlock _ (holds_inodeBlock h hv)
  block _ hm := Filesystem.block_writeBlock_of_ne _ (holds_inodeBlock h hv)
    (hm _ (inTable_inodeBlock h.table.inodes_le hv))

/-- With an empty cache what is on the disk is what there is. -/
theorem logicalInode_putInode (hcached : fs.cachedBlock = 0)
    (hv : fs.superblock.ValidInumber v.inumber) :
    (fs.putInode v).logicalInode v.inumber = v := by
  have hblock : ¬ (fs.putInode v).cachedBlock = inodeBlock v.inumber := by
    show ¬ fs.cachedBlock = inodeBlock v.inumber
    rw [hcached]
    exact Ne.symm (inodeBlock_ne_zero hv.1)
  rw [Filesystem.logicalInode, Filesystem.tableBlock, if_neg hblock, Filesystem.putInode,
    Filesystem.block_writeBlock]
  exact Block.inode_setInode _ _ (inodeSlot_lt hv.1)

theorem logicalInode_putInode_of_ne {k : UInt64} (h : InodeState fs) (hcached : fs.cachedBlock = 0)
    (hv : fs.superblock.ValidInumber v.inumber) (hk : 0 < k) (hkv : k ≠ v.inumber) :
    (fs.putInode v).logicalInode k = fs.logicalInode k := by
  have hblock : ∀ n, inodeBlock k = n → ¬ fs.cachedBlock = n := by
    rintro n rfl
    rw [hcached]
    exact Ne.symm (inodeBlock_ne_zero hk)
  have hcached' : ¬ (fs.putInode v).cachedBlock = inodeBlock k := hblock _ rfl
  rw [Filesystem.logicalInode, Filesystem.tableBlock, if_neg hcached', Filesystem.logicalInode,
    Filesystem.tableBlock, if_neg (hblock _ rfl), Filesystem.putInode]
  by_cases hsame : inodeBlock v.inumber = inodeBlock k
  · have hslot : inodeSlot v.inumber ≠ inodeSlot k := fun hslot =>
      hkv (inode_place_injective hv.1 hk hsame hslot).symm
    rw [← hsame, Filesystem.block_writeBlock]
    exact Block.inode_setInode_of_ne _ _ hslot
  · rw [Filesystem.block_writeBlock_of_ne _ (holds_inodeBlock h hv) fun hnat =>
      hsame (UInt64.toNat_inj.mp hnat)]

end Sample

/-- A disk that is all zeros but for the inode of an empty directory. -/
def Filesystem.blankDir (s : Superblock) (directory : Inode) : Filesystem DirFiles :=
  (Filesystem.blank s ⟨fun _ _ => Block.zero, []⟩).putInode directory

theorem emptyDir_blankDir {s : Superblock} {directory : Inode}
    (hstate : InodeState (Filesystem.blank s (⟨fun _ _ => Block.zero, []⟩ : DirFiles)))
    (hvalid : s.ValidInumber directory.inumber) (hmode : directory.mode = sIfdir)
    (hsize : directory.size = 0) :
    (Filesystem.blankDir s directory).EmptyDir directory.inumber directory where
  state := inodeState_putInode hstate rfl hvalid
  valid := hvalid
  stored := logicalInode_putInode rfl hvalid
  inumber := rfl
  isDir := by
    rw [hmode]
    decide
  size := hsize

/-- The inode of an empty directory with the number `d`. -/
def emptyDirectory (d : UInt64) : Inode :=
  { Inode.zero with inumber := d, mode := sIfdir }

/-- On a well-formed disk without files the deallocations of an inode succeed whose blocks
are loose. -/
theorem Image.frees {fs : Filesystem DirFiles} {nodes Y : List UInt64} {k : UInt64}
    {allocate : Fs DirFiles (Option Inode)}
    (h : Image fs nodes [] ((fs.logicalInode k).direct.filter (· ≠ 0) ++ Y))
    (hk : fs.superblock.ValidInumber k) (hint : (inodeBlock k).toNat < 2 ^ 31)
    (hself : (fs.logicalInode k).inumber = k) : fs.Frees (loggedLayer allocate) k := by
  rintro v fs₁ t fs₂ hread - htime
  obtain ⟨hv, himage, hframe, hsame⟩ := (h.readInode hk hint).post hread
  rw [← Option.some.inj hv] at hself himage
  rw [time_run] at htime
  obtain ⟨-, rfl⟩ := Outcome.done.inj htime
  have hvalid : fs₁.superblock.ValidInumber k := by
    rw [hframe.superblock]
    exact hk
  -- the deallocation is logged before it is made
  have hstate := ((looks_view himage.ticked.state).withFiles (fs₁.files.logged k)).state
  have hlogged : Image { fs₁.ticked with files := fs₁.files.logged k } nodes []
      (v.direct.filter (· ≠ 0) ++ Y) :=
    ⟨hstate, himage.linked, himage.files, himage.valid, himage.distinct, himage.inRange⟩
  subst hself
  refine Run.Ensures.bind (P := fun _ s => s = { fs₁.ticked with
    files := fs₁.files.logged v.inumber }) ⟨(), _, rfl, rfl⟩ ?_
  rintro _ _ rfl
  refine (deallocate_loose (v := v.unlinked t) hlogged List.not_mem_nil hvalid hint).mono ?_
  rintro ret fs' ⟨hret, nodes', himage', hdeallocated⟩
  have hinodes := congrArg Superblock.inodes hdeallocated.superblock
  refine ⟨hret, himage'.state, hinodes, ?_, ?_, fun j hj hne => hdeallocated.others j hj hne⟩
  · rw [hdeallocated.files]
    rfl
  · have hinode : fs'.logicalInode v.inumber = _ := hdeallocated.inode
    rw [hinode]
    rfl

/-- A link by a caller that has the directory in hand. -/
theorem DirCall.link_of {L : InodeLayer DirFiles} {d : UInt64} {fs fs' : Filesystem DirFiles}
    {c : DirCursor} {name : CString} {v v' directory directory' : Inode} {ret : ℤ}
    (hself : c.directory = directory) (hshort : name.length ≤ 255)
    (hvalid : fs.superblock.ValidInumber v.inumber) (hne : v.inumber ≠ d)
    (hrun : (sfsDirLink L directory name v).run fs = .done (ret, directory', v') fs') :
    DirCall L d (fs, c) (.linked (newEntry v.inumber name) ret)
      (fs', c.withDirectory directory') := by
  subst hself
  exact DirCall.link hshort hvalid hne hrun

/-- What says that the inode 2 can be deallocated on a disk with one free block. -/
def Freeable (fs : Filesystem DirFiles) : Prop :=
  fs.superblock.freeBlocksHead = 3 ∧ fs.superblock.inRange 3 = true ∧
    fs.disk.block 3 = Block.zero ∧ fs.superblock.inodes = 3 ∧ (fs.logicalInode 2).inumber = 2 ∧
    (fs.logicalInode 2).direct.filter (· ≠ 0) = []

instance (fs : Filesystem DirFiles) : Decidable (Freeable fs) :=
  inferInstanceAs (Decidable (fs.superblock.freeBlocksHead = 3 ∧ fs.superblock.inRange 3 = true ∧
    fs.disk.block 3 = Block.zero ∧ fs.superblock.inodes = 3 ∧ (fs.logicalInode 2).inumber = 2 ∧
    (fs.logicalInode 2).direct.filter (· ≠ 0) = []))

theorem Freeable.frees {fs : Filesystem DirFiles} (h : Freeable fs) (hstate : InodeState fs) :
    fs.Frees (loggedLayer sfsFsInodeAllocate) 2 := by
  obtain ⟨hhead, hrange, hblock, hinodes, hself, hdirect⟩ := h
  have himage : Image fs [3] [] ((fs.logicalInode 2).direct.filter (· ≠ 0) ++ []) := by
    rw [hdirect]
    exact image_oneNode hstate hhead hrange hblock
  have hvalid : fs.superblock.ValidInumber 2 := by
    refine ⟨by decide, ?_⟩
    rw [hinodes]
    decide
  exact himage.frees hvalid (by decide) hself

/-- A file is linked, its entry is found and removed, and another file is linked. -/
def linkTwice : Fs DirFiles (Option (Bool × List UInt64 × List ℤ)) := do
  let (ret, directory, _) ←
    sfsDirLink (loggedLayer sfsFsInodeAllocate) (emptyDirectory 1) [97] emptyTwo
  match ← sfsDirIterate directory with
  | none => return none
  | some it =>
    match ← sfsDirIternext (loggedLayer sfsFsInodeAllocate) true it with
    | .stop _ => return none
    | .entry it' j _ =>
      let fs ← get
      let (ret', it'') ← sfsDirIterUnlink (loggedLayer sfsFsInodeAllocate) it' j
      let fs' ← get
      let (ret'', _, _) ←
        sfsDirLink (loggedLayer sfsFsInodeAllocate) it''.inode [98] { emptyTwo with inumber := 3 }
      return some (decide (Freeable fs), [it'.iblock, (Block.dirEntry it'.cachedBlock j).inumber,
        fs'.superblock.inodes], [ret, ret', ret''])

theorem linkTwice_value :
    (linkTwice.run (Filesystem.blankDir oneFreeBlock (emptyDirectory 1))).value =
      some (some (true, [0, 2, 3], [0, 0, 0])) := by
  decide +kernel

/-- **The second link takes the slot** that the removal of the first has left. -/
theorem slots_are_reused_blankDir :
    ∃ (e : DirEntry) (v : Inode) (t : Filesystem DirFiles × DirCursor),
      Exec (FreeingCall (loggedLayer sfsFsInodeAllocate) 1)
        (Filesystem.blankDir oneFreeBlock (emptyDirectory 1), .closed (emptyDirectory 1))
        [.linked (newEntry 2 [97]) 0, .looked, .found e true v, .unlinked 0 e 0,
          .linked (newEntry 3 [98]) 0] t ∧
      e.inumber = 2 ∧ t.2.directory.size.toNat = 512 := by
  have h : (Filesystem.blankDir oneFreeBlock (emptyDirectory 1)).EmptyDir 1 (emptyDirectory 1) :=
    emptyDir_blankDir inodeState_oneFreeBlock (by constructor <;> decide) rfl rfl
  have hvalid : oneFreeBlock.ValidInumber emptyTwo.inumber := by constructor <;> decide
  obtain ⟨last, hrun⟩ := Outcome.exists_of_value linkTwice_value
  obtain ⟨⟨ret, directory, w⟩, fs₁, hlink, hrun⟩ := Run.bind_eq_done.mp hrun
  obtain ⟨answer, fs₂, hiterate, hrun⟩ := Run.bind_eq_done.mp hrun
  cases answer with
  | none => cases Option.some_ne_none _ (Outcome.done.inj hrun).1.symm
  | some it =>
    obtain ⟨answer, fs₃, hnext, hrun⟩ := Run.bind_eq_done.mp hrun
    cases answer with
    | stop directory' => cases Option.some_ne_none _ (Outcome.done.inj hrun).1.symm
    | entry it' j v =>
      obtain ⟨_, _, hget, hrun⟩ := Run.bind_eq_done.mp hrun
      obtain ⟨rfl, rfl⟩ := Outcome.done.inj hget
      obtain ⟨⟨ret', it''⟩, fs₄, hunlink, hrun⟩ := Run.bind_eq_done.mp hrun
      obtain ⟨_, _, hget, hrun⟩ := Run.bind_eq_done.mp hrun
      obtain ⟨rfl, rfl⟩ := Outcome.done.inj hget
      obtain ⟨⟨ret'', directory'', w''⟩, fs₅, hagain, hrun⟩ := Run.bind_eq_done.mp hrun
      have hvalues := Option.some.inj (Outcome.done.inj hrun).1
      simp only [Prod.mk.injEq, List.cons.injEq] at hvalues
      obtain ⟨hfreeable, ⟨hiblock, hinumber, hinodes, -⟩, rfl, rfl, rfl, -⟩ := hvalues
      have hlow : ∀ k : UInt64, k = 2 ∨ k = 3 → (inodeBlock k).toNat < 2 ^ 31 := by
        rintro k (rfl | rfl) <;> decide
      have hfirst : DirCall (loggedLayer sfsFsInodeAllocate) 1
          (Filesystem.blankDir oneFreeBlock (emptyDirectory 1), .closed (emptyDirectory 1))
          (.linked (newEntry emptyTwo.inumber [97]) 0) (fs₁, .closed directory) :=
        DirCall.link_of (show (DirCursor.closed (emptyDirectory 1)).directory = emptyDirectory 1
          from rfl) (by decide) hvalid (by decide) hlink
      have hbefore : Exec (FreeingCall (loggedLayer sfsFsInodeAllocate) 1)
          (Filesystem.blankDir oneFreeBlock (emptyDirectory 1), .closed (emptyDirectory 1))
          [.linked (newEntry 2 [97]) 0, .looked, .found (Block.dirEntry it'.cachedBlock j) true v]
          (fs₃, .returned it' j) :=
        .cons ⟨hfirst, trivial⟩ (.cons ⟨DirCall.iterate hiterate, trivial⟩
          (.cons ⟨DirCall.next true rfl hnext, trivial⟩ (.nil _)))
      obtain ⟨⟨slots, ⟨w, hlooks, -⟩, -⟩, -⟩ := slotted_of_exec (h.slotted (by decide)) hbefore
        (by
          simp only [List.mem_cons, List.not_mem_nil, or_false]
          rintro _ (rfl | rfl | rfl)
          exacts [hlow 2 (Or.inl rfl), trivial, trivial])
      have hfrees : fs₃.Frees (loggedLayer sfsFsInodeAllocate)
          (Block.dirEntry it'.cachedBlock j).inumber := by
        rw [hinumber]
        exact Freeable.frees (of_decide_eq_true hfreeable) hlooks.state
      have hvalid₄ : fs₄.superblock.ValidInumber { emptyTwo with inumber := 3 }.inumber := by
        refine ⟨by decide, ?_⟩
        rw [hinodes]
        decide
      have hsecond : DirCall (loggedLayer sfsFsInodeAllocate) 1 (fs₄, .ready it'')
          (.linked (newEntry { emptyTwo with inumber := 3 }.inumber [98]) 0)
          (fs₅, (DirCursor.ready it'').withDirectory directory'') :=
        DirCall.link_of (show (DirCursor.ready it'').directory = it''.inode from rfl)
          (by decide) hvalid₄ (by decide) hagain
      have hafter : Exec (FreeingCall (loggedLayer sfsFsInodeAllocate) 1) (fs₃, .returned it' j)
          [.unlinked it'.iblock.toNat (Block.dirEntry it'.cachedBlock j) 0,
            .linked (newEntry 3 [98]) 0] _ :=
        .cons ⟨DirCall.unlink hunlink, hfrees⟩
          (.cons ⟨hsecond, trivial⟩ (.nil _))
      have hexec := hbefore.append hafter
      rw [hiblock] at hexec
      obtain ⟨⟨cells, -, -, hsize⟩, -⟩ := slots_are_reused h hexec (by decide) (by
        simp only [List.mem_cons, List.cons_append, List.nil_append, List.not_mem_nil, or_false]
        rintro _ (rfl | rfl | rfl | rfl | rfl)
        exacts [hlow 2 (Or.inl rfl), trivial, trivial, trivial, hlow 3 (Or.inr rfl)])
      exact ⟨_, v, _, hexec, hinumber, hsize⟩

/-! ### A table that the inode cache cannot number -/

section Wide

variable {F : Type} {fs : Filesystem F} {k : UInt64} {v : Inode}

/-- **The cache is lost**: it has taken the block `2 ^ 31` of the table for a negative
number, and what it holds is to be written there. -/
structure Filesystem.Wedged (fs : Filesystem F) : Prop where
  dirty : fs.inodeCache.dirty = true
  cached : fs.cachedBlock = 0xffffffff80000000

theorem Filesystem.Wedged.flush_eq (h : fs.Wedged) : fs.flush.1 = -1 := by
  have hoff : 2 ^ 63 ≤ (fs.cachedBlock * 512).toNat := by
    rw [h.cached]
    decide
  rw [Filesystem.flush, if_pos h.dirty]
  unfold Disk.pwrite
  rw [if_pos hoff]

theorem Filesystem.Wedged.cacheInodeBlock_run (h : fs.Wedged) (clearDirty : Bool) :
    (cacheInodeBlock clearDirty (inodeBlock 2)).run fs = .done (-1) fs.flush.2 :=
  cacheInodeBlock_of_stuck (by rw [h.cached]; decide) (by rw [h.flush_eq]; decide)

theorem Filesystem.Wedged.readInode_ensures (h : fs.Wedged) :
    Run.Ensures (sfsFsReadInode 2) fs fun answer _ => answer = none := by
  have hrun : (sfsFsReadInode 2).run fs = .done none fs.flush.2 := by
    rw [sfsFsReadInode, decide_eq_true (by decide), Run.assert_true, Run.pure_bind', Run.run_bind,
      h.cacheInodeBlock_run, Run.andThen_done, if_pos (by decide), Run.run_pure]
  exact Run.Ensures.of_eq hrun rfl

theorem Filesystem.Wedged.writeInode_ensures (h : fs.Wedged) (hv : v.inumber = 2) :
    Run.Ensures (sfsFsWriteInode v) fs fun ret _ => ret = -1 := by
  have hrun : (sfsFsWriteInode v).run fs = .done (-1) fs.flush.2 := by
    rw [sfsFsWriteInode, hv, decide_eq_true (by decide), Run.assert_true, Run.pure_bind',
      Run.run_bind, h.cacheInodeBlock_run, Run.andThen_done, if_pos (by decide), Run.run_pure]
  exact Run.Ensures.of_eq hrun rfl

/-- The first write of an inode that lies in that block. -/
theorem wedged_withInode (hblock : inodeBlock v.inumber = 0x80000000)
    (hcached : fs.cachedBlock = 0) : (fs.withInode v).Wedged := by
  have hmiss : ¬ fs.cachedBlock = 0x80000000 := by
    rw [hcached]
    decide
  refine ⟨rfl, ?_⟩
  show (fs.afterCache false (inodeBlock v.inumber)).cachedBlock = _
  rw [hblock, Filesystem.afterCache, if_neg hmiss]
  show ofCInt (toCInt 0x80000000) = _
  decide

end Wide

/-- The superblock of a disk of `2 ^ 36` blocks, `2 ^ 31` of them for inodes. -/
def wideTable : Superblock :=
  { oneFreeBlock with
    inodeTableBlocks := 0x80000000
    inodes := 0x180000000
    blocks := 0x1000000000
    freeBlocksHead := 0 }

theorem inodeState_wideTable {F : Type} {files : F} :
    InodeState (Filesystem.blank wideTable files) where
  reliable := reliable_blank (by decide) (by decide)
  table := by
    have hle : wideTable.inodes.toNat ≤ 3 * wideTable.inodeTableBlocks.toNat := by decide
    have hlt : wideTable.inodeTableBlocks < wideTable.blocks := by decide
    exact ⟨hle, hlt⟩
  cache := ⟨Or.inl rfl, fun _ => rfl, fun h => absurd rfl h⟩

/-- A disk with that superblock, and an empty cache. -/
structure Filesystem.Wide (fs : Filesystem DirFiles) : Prop where
  state : InodeState fs
  superblock : fs.superblock = wideTable
  cached : fs.cachedBlock = 0

namespace Filesystem.Wide

variable {fs : Filesystem DirFiles} {v : Inode}

theorem time_ensures (h : fs.Wide) :
    Run.Ensures (time : Fs DirFiles UInt64) fs fun _ fs' => fs'.Wide :=
  Run.Ensures.of_eq (time_run fs)
    ⟨((looks_view h.state).of_host fs.ticked.host rfl).state, h.superblock, h.cached⟩

/-- A write of the inode of the directory. -/
theorem writeInode_ensures (h : fs.Wide) (hv : v.inumber = 0x180000000) :
    Run.Ensures (sfsFsWriteInode v) fs fun ret fs' => ret = 0 ∧ fs'.Wedged := by
  have hvalid : fs.superblock.ValidInumber v.inumber := by
    rw [h.superblock, hv]
    constructor <;> decide
  have hblock : inodeBlock v.inumber = 0x80000000 := by
    rw [hv]
    decide
  exact Run.Ensures.of_eq (sfsFsWriteInode_run h.state hvalid)
    ⟨rfl, wedged_withInode hblock h.cached⟩

theorem blockRead_ensures (h : fs.Wide) (allocate : Fs DirFiles (Option Inode)) {i : UInt64}
    (hi : i < sfsNdirBlocks + sfsNindBlocks) (block : Block) :
    Run.Ensures ((loggedLayer allocate).blockRead v i block) fs fun answer fs' =>
      answer = (0, fs.files.blocks v.inumber i) ∧ fs'.Wide := by
  refine ⟨(0, fs.files.blocks v.inumber i), fs, ?_, rfl, h⟩
  exact congrArg (fun x : Fs DirFiles (ℤ × Block) => x.run fs) (if_pos hi)

theorem blockWrite_ensures (h : fs.Wide) (allocate : Fs DirFiles (Option Inode)) {i : UInt64}
    (hi : i < sfsNdirBlocks + sfsNindBlocks) (block : Block) :
    Run.Ensures ((loggedLayer allocate).blockWrite v i block) fs fun answer fs' =>
      answer = (0, v) ∧ fs'.Wide := by
  refine ⟨(0, v), { fs with files := fs.files.setBlock v.inumber i block }, ?_, rfl, ?_⟩
  · exact congrArg (fun x : Fs DirFiles (ℤ × Inode) => x.run fs) (if_pos hi)
  · exact ⟨((looks_view h.state).withFiles _).state, h.superblock, h.cached⟩

end Filesystem.Wide

theorem Filesystem.Wedged.time_ensures {F : Type} {fs : Filesystem F} (h : fs.Wedged) :
    Run.Ensures (time : Fs F UInt64) fs fun _ fs' => fs'.Wedged :=
  Run.Ensures.of_eq (time_run fs) ⟨h.dirty, h.cached⟩

/-- The directory with the last inode of the table. -/
def lastDirectory : Inode := emptyDirectory 0x180000000

theorem emptyDir_lastDirectory :
    (Filesystem.blankDir wideTable lastDirectory).EmptyDir 0x180000000 lastDirectory :=
  emptyDir_blankDir inodeState_wideTable (by constructor <;> decide) rfl rfl

/-- A link writes the inode of the directory, and then no other one. -/
theorem dirLinkStep_lastDirectory {fs : Filesystem DirFiles} (h : fs.Wide)
    (allocate : Fs DirFiles (Option Inode)) (name : CString) :
    Run.Ensures (dirLinkStep (loggedLayer allocate) name emptyTwo lastDirectory 0) fs
      fun answer _ => ∃ r, answer = .inr r ∧ r.1 = -1 := by
  have hend : ¬ 0 < lastDirectory.size / 512 := by decide
  rw [dirLinkStep, if_neg hend]
  refine (h.blockWrite_ensures _ (by decide) _).bind ?_
  rintro _ fs₁ ⟨rfl, h₁⟩
  dsimp only
  rw [if_neg (by decide)]
  refine h₁.time_ensures.bind fun t fs₂ h₂ => ?_
  refine (h₂.writeInode_ensures rfl).bind ?_
  rintro _ fs₃ ⟨rfl, h₃⟩
  rw [if_neg (by decide)]
  refine h₃.time_ensures.bind fun t' fs₄ h₄ => ?_
  refine (h₄.writeInode_ensures rfl).bind ?_
  rintro _ fs₅ rfl
  rw [if_pos (by decide)]
  exact Run.ensures_pure ⟨_, rfl, rfl⟩

/-- **A link is refused though no entry is live**, where the directory's inode is in the
block `2 ^ 31`. -/
theorem link_refused_wideTable :
    (Filesystem.blankDir wideTable lastDirectory).EmptyDir 0x180000000 lastDirectory ∧
    ∃ t, Exec (FreeingCall (loggedLayer sfsFsInodeAllocate) 0x180000000)
      (Filesystem.blankDir wideTable lastDirectory, .closed lastDirectory)
      [.linked (newEntry 2 [97]) (-1)] t := by
  refine ⟨emptyDir_lastDirectory, ?_⟩
  have hwide : (Filesystem.blankDir wideTable lastDirectory).Wide :=
    ⟨emptyDir_lastDirectory.state, rfl, rfl⟩
  have hvalid : (Filesystem.blankDir wideTable lastDirectory).superblock.ValidInumber
    emptyTwo.inumber := by constructor <;> decide
  have hloop : ∀ n, Run.Ensures (Run.loop (dirLinkStep (loggedLayer sfsFsInodeAllocate) [97]
      emptyTwo lastDirectory) (n + 1) 0) (Filesystem.blankDir wideTable lastDirectory)
      fun answer _ => answer.1 = -1 := by
    intro n
    rw [Run.loop]
    refine (dirLinkStep_lastDirectory hwide _ _).bind ?_
    rintro _ fs' ⟨r, rfl, hr⟩
    exact Run.ensures_pure hr
  have hself : (DirCursor.closed lastDirectory).directory = lastDirectory := rfl
  have hbound : loopBound = (loopBound - 1) + 1 := rfl
  have hrun : Run.Ensures (sfsDirLink (loggedLayer sfsFsInodeAllocate)
      (DirCursor.closed lastDirectory).directory [97] emptyTwo)
      (Filesystem.blankDir wideTable lastDirectory) fun answer _ => answer.1 = -1 := by
    rw [hself, sfsDirLink, if_neg (by decide), hbound]
    exact hloop _
  obtain ⟨⟨ret, directory, v⟩, fs', run, hret⟩ := hrun
  dsimp only at hret
  subst hret
  exact ⟨_, Exec.cons ⟨DirCall.link (by decide) hvalid (by decide) run, trivial⟩ (Exec.nil _)⟩

end SimpleFileSystem
