import SimpleFileSystem.Library.Sweep
import SimpleFileSystem.SlotReuse

/-!
# A pass over a directory that removes entries

A caller goes through a directory with `sfs_dir_iternext` and may call
`sfs_dir_iter_unlink` on each entry that it gets.  That is a pass over the cells of the
directory: `passes_are_complete`.

A removal of a last link frees the blocks of an inode, so what the blocks of the named
inodes are matters here: they are distinct and not free (`LooksWith`), and of those of an
inode whose entry has been removed nothing is said any more.
-/

namespace SimpleFileSystem

/-! ## The inodes that are named -/

/-- The numbers in the entries in use. -/
def inumbers (slots : List DirEntry) : List UInt64 :=
  (slots.map DirEntry.inumber).filter (· ≠ 0)

/-- The blocks that deallocations of these inodes free. -/
def namedBlocks (table : UInt64 → Inode) (slots : List DirEntry) : List UInt64 :=
  (inumbers slots).flatMap fun k => (table k).direct.filter (· ≠ 0)

section Named

variable {slots A B : List DirEntry} {e : DirEntry} {k : UInt64} {table : UInt64 → Inode}

@[simp] theorem inumbers_append : inumbers (A ++ B) = inumbers A ++ inumbers B := by
  simp [inumbers]

theorem inumbers_cons_used (he : e.inumber ≠ 0) : inumbers (e :: B) = e.inumber :: inumbers B := by
  simp [inumbers, he]

theorem inumbers_cons_unused (he : e.inumber = 0) : inumbers (e :: B) = inumbers B := by
  simp [inumbers, he]

theorem mem_inumbers : k ∈ inumbers slots ↔ k ≠ 0 ∧ ∃ e ∈ slots, e.inumber = k := by
  rw [inumbers, List.mem_filter, List.mem_map, decide_eq_true_iff]
  exact and_comm

theorem inumber_mem_inumbers (he : e ∈ slots) (hused : e.inumber ≠ 0) :
    e.inumber ∈ inumbers slots :=
  mem_inumbers.mpr ⟨hused, e, he, rfl⟩

/-- The blocks of one inode, and those of the others. -/
theorem namedBlocks_perm (he : e.inumber ≠ 0) : (namedBlocks table (A ++ e :: B)).Perm
    ((table e.inumber).direct.filter (· ≠ 0) ++ namedBlocks table (A ++ B)) := by
  simp only [namedBlocks, inumbers_append, inumbers_cons_used he, List.flatMap_append,
    List.flatMap_cons]
  exact List.perm_append_comm_assoc _ _ _

end Named

/-! ## Images under a directory -/

section Allotted

variable {fs fs' : Filesystem DirFiles} {w : View} {nodes X Y : List UInt64} {v : Inode}
  {allocate : Fs DirFiles (Option Inode)}

/-- A step that keeps off the data blocks. -/
theorem Image.of_keeps (h : Image fs nodes [] X) (hstate : InodeState fs') (hkeeps : Keeps fs fs') :
    Image fs' nodes [] X := by
  have hsame : ∀ m ∈ nodes, fs'.disk.block m.toNat = fs.disk.block m.toNat := fun m hm =>
    hkeeps.block _ fun _ hn heq =>
      h.notInTable (h.inRange m (Image.node_mem hm)) (UInt64.toNat_inj.mp heq ▸ hn)
  refine h.of_perm hstate ?_ h.files (fun _ hk => hk) (by rw [hkeeps.superblock])
    (by rw [hkeeps.superblock]) ?_
  · rw [hkeeps.superblock]
    refine h.linked.congr fun m hm => ?_
    rw [Disk.nextNode, hsame m hm, Disk.nextNode]
  · rw [census, census, poolOf_congr hsame]
    simp

/-- A filesystem that looks like that, with a well-formed free chain and blocks that are
distinct and not free. -/
def LooksWith (X : List UInt64) (fs : Filesystem DirFiles) (w : View) : Prop :=
  Looks fs w ∧ ∃ nodes, Image fs nodes [] X

theorem serves_looksWith (allocate : Fs DirFiles (Option Inode)) (X : List UInt64) :
    Serves (loggedLayer allocate) (LooksWith X) := by
  refine serves_loggedLayer allocate (I := fun fs => ∃ nodes, Image fs nodes [] X) ?_
  rintro fs fs' ⟨nodes, himage⟩ hstate hkeeps
  exact ⟨nodes, himage.of_keeps hstate hkeeps⟩

theorem LooksWith.forget (h : LooksWith X fs w) (hY : Y.Sublist X) : LooksWith Y fs w := by
  obtain ⟨hlooks, nodes, himage⟩ := h
  exact ⟨hlooks, nodes, himage.forget hY⟩

theorem LooksWith.reorder (h : LooksWith X fs w) (hY : Y.Perm X) : LooksWith Y fs w := by
  obtain ⟨hlooks, nodes, himage⟩ := h
  exact ⟨hlooks, nodes, himage.reorder (List.Perm.refl _) hY⟩

/-- **`sfs_fs_inode_deallocate`** frees the blocks of an inode, and writes no other inode and
no block of a directory. -/
theorem LooksWith.deallocate_ensures (h : LooksWith (v.direct.filter (· ≠ 0) ++ Y) fs w)
    (hv : w.Valid v.inumber) :
    Run.Ensures ((loggedLayer allocate).deallocate v) fs fun ret fs' => ret = 0 ∧
      ∃ w', LooksWith Y fs' w' ∧ w'.inodes = w.inodes ∧ w'.files.blocks = w.files.blocks ∧
        ∀ k, k ≠ v.inumber → w'.table k = w.table k := by
  obtain ⟨hlooks, nodes, himage⟩ := h
  have hlogged := hlooks.withFiles (fs.files.logged v.inumber)
  refine Run.Ensures.bind (P := fun _ fs₁ => fs₁ = { fs with files := fs.files.logged v.inumber })
    ⟨(), _, rfl, rfl⟩ ?_
  rintro _ _ rfl
  have himage' : Image { fs with files := fs.files.logged v.inumber } nodes []
      (v.direct.filter (· ≠ 0) ++ Y) :=
    himage.of_keeps hlogged.state ⟨rfl, rfl, rfl, fun _ _ => rfl⟩
  refine (deallocate_loose himage' List.not_mem_nil
    (hlogged.valid (hv.congr rfl)) hv.lt_int).mono ?_
  rintro ret fs' ⟨hret, nodes', himage'', hdeallocated⟩
  have hsuper := hdeallocated.superblock
  refine ⟨hret, ((w.logged v.inumber).setInode { v with size := w.head }).withHead v.inumber,
    ⟨⟨himage''.state, ?_, fun k hk => ?_, ?_, ?_, ?_⟩, nodes', himage''⟩, rfl, rfl,
    fun k hk => View.setInode_table_of_ne hk⟩
  · rw [hsuper]
    exact hlooks.inodes
  · have hvalid := hlooks.valid (hk.congr rfl)
    show fs'.logicalInode k = Function.update w.table v.inumber { v with size := w.head } k
    by_cases hkv : k = v.inumber
    · rw [hkv, hdeallocated.inode, Function.update_self, ← hlooks.head]
    · rw [hdeallocated.others k hvalid hkv, Function.update_of_ne hkv]
      exact hlooks.table k (hk.congr rfl)
  · rw [hsuper]
    rfl
  · rw [hdeallocated.files]
    exact congrArg (fun files => files.logged v.inumber) hlooks.files
  · rw [hdeallocated.host]
    exact hlooks.freed

end Allotted

/-! ## Where a pass is -/

/-- **A pass** that has some slots behind it and the others ahead. -/
inductive Pass (d : UInt64) (w : View) : DirCursor → List DirEntry → List DirEntry → Prop where
  | ready {it : DirIterator} {passed ahead : List DirEntry} (h : Ahead d w it passed ahead) :
      Pass d w (.ready it) passed ahead
  | returned {it : DirIterator} {passed ahead : List DirEntry} {e : DirEntry}
      (h : Ahead d w it (passed ++ [e]) ahead) (used : e.inumber ≠ 0)
      (iblock : it.iblock.toNat = passed.length) (entry : Block.dirEntry it.cachedBlock 0 = e) :
      Pass d w (.returned it 0) (passed ++ [e]) ahead
  | closed {directory : Inode} {slots : List DirEntry} (dir : Directory d w slots)
      (self : directory = w.table d) : Pass d w (.closed directory) slots []

/-- **Between two calls of a pass** that began when the filesystem looked like `w₀`: the
inodes that are still named are what they were. -/
structure Passing (d : UInt64) (w₀ : View) (passed ahead : List DirEntry)
    (s : Filesystem DirFiles × DirCursor) : Prop where
  valid : ∀ k ∈ inumbers (passed ++ ahead), w₀.Valid k
  other : ∀ k ∈ inumbers (passed ++ ahead), k ≠ d
  inumber : ∀ k ∈ inumbers (passed ++ ahead), (w₀.table k).inumber = k
  distinct : (inumbers (passed ++ ahead)).Nodup
  now : ∃ w, LooksWith (namedBlocks w₀.table (passed ++ ahead)) s.1 w ∧ w.inodes = w₀.inodes ∧
    (∀ k ∈ inumbers (passed ++ ahead), w.table k = w₀.table k) ∧ Pass d w s.2 passed ahead

section Calls

variable {allocate : Fs DirFiles (Option Inode)} {d : UInt64} {w w₀ : View}
  {passed ahead : List DirEntry} {fs : Filesystem DirFiles} {c : DirCursor} {it : DirIterator}
  {j : ℕ}

theorem Pass.directory (h : Pass d w c passed ahead) : Directory d w (passed ++ ahead) := by
  cases h with
  | ready h => exact h.dir
  | returned h => exact h.dir
  | closed dir =>
    rw [List.append_nil]
    exact dir

theorem Pass.self (h : Pass d w c passed ahead) : c.directory = w.table d := by
  cases h with
  | ready h => exact h.inode
  | returned h => exact h.inode
  | closed _ self => exact self

theorem Pass.iterates (h : Pass d w c passed ahead) (hit : c.iterator = some it) :
    Ahead d w it passed ahead := by
  cases h with
  | ready h =>
    cases hit
    exact h
  | returned h =>
    cases hit
    exact h
  | closed => cases hit

/-- The numbers are a matter of the slots, not of where the pass is. -/
theorem Passing.regroup {passed' ahead' : List DirEntry} {fs' : Filesystem DirFiles}
    {c' : DirCursor} {w' : View} (h : Passing d w₀ passed ahead (fs, c))
    (hslots : passed' ++ ahead' = passed ++ ahead)
    (hlooks : LooksWith (namedBlocks w₀.table (passed ++ ahead)) fs' w')
    (hinodes : w'.inodes = w₀.inodes)
    (htable : ∀ k ∈ inumbers (passed ++ ahead), w'.table k = w₀.table k)
    (hpass : Pass d w' c' passed' ahead') : Passing d w₀ passed' ahead' (fs', c') := by
  rw [← hslots] at hlooks htable
  refine ⟨?_, ?_, ?_, ?_, w', hlooks, hinodes, htable, hpass⟩
  · rw [hslots]
    exact h.valid
  · rw [hslots]
    exact h.other
  · rw [hslots]
    exact h.inumber
  · rw [hslots]
    exact h.distinct

/-- What the next call does to the cells. -/
def PassStep (d : UInt64) (w₀ : View) (passed ahead : List DirEntry) (ev : SweepEvent DirEntry)
    (t : Filesystem DirFiles × DirCursor) : Prop :=
  ∃ passed' ahead', Passing d w₀ passed' ahead' t ∧
    SweepStep (passed.map DirEntry.cell, ahead.map DirEntry.cell) ev
      (passed'.map DirEntry.cell, ahead'.map DirEntry.cell)

theorem cells_of_unused {slots : List DirEntry} (h : ∀ e ∈ slots, e.inumber = 0) :
    ∀ x ∈ slots.map DirEntry.cell, x = none := by
  intro x hx
  obtain ⟨e, he, rfl⟩ := List.mem_map.mp hx
  exact cell_of_unused (h e he)

/-- **`sfs_dir_iternext`** goes on to the next entry, and reads the inode that it names. -/
theorem next_passes (h : Passing d w₀ passed ahead (fs, c)) (hit : c.iterator = some it)
    (wantInode : Bool) :
    Run.Ensures (sfsDirIternext (loggedLayer allocate) wantInode it) fs fun answer fs' =>
      match answer with
      | .stop directory => PassStep d w₀ passed ahead .ended (fs', .closed directory)
      | .entry it' j inode =>
        (wantInode = true → inode = w₀.table (Block.dirEntry it'.cachedBlock j).inumber) ∧
        PassStep d w₀ passed ahead (.met (Block.dirEntry it'.cachedBlock j))
          (fs', .returned it' j) := by
  obtain ⟨w, hlooks, hinodes, htable, hpass⟩ := h.now
  have hahead := hpass.iterates hit
  have hvalid : wantInode = true → ∀ e ∈ ahead, e.inumber ≠ 0 → w.Valid e.inumber :=
    fun _ e he hused =>
      (h.valid _ (inumber_mem_inumbers (List.mem_append_right _ he) hused)).congr hinodes
  refine (sfsDirIternext_ensures (serves_looksWith allocate _) hlooks hahead hvalid).mono ?_
  rintro answer fs' ⟨w', haccess, hlooks', hpost⟩
  have htable' : ∀ k ∈ inumbers (passed ++ ahead), w'.table k = w₀.table k := fun k hk =>
    (haccess.table_of_ne (h.other k hk)).trans (htable k hk)
  have hinodes' := haccess.inodes.trans hinodes
  cases answer with
  | stop directory =>
    obtain ⟨hself, hunused⟩ := hpost
    refine ⟨passed ++ ahead, [], h.regroup (List.append_nil _) hlooks' hinodes' htable'
      (Pass.closed (haccess.directory hpass.directory) hself), ?_⟩
    rw [List.map_append]
    exact SweepStep.finish _ _ (cells_of_unused hunused)
  | entry it' j inode =>
    obtain ⟨-, unused, e, ahead', rfl, hunused, hstops, hahead'⟩ := hpost
    have hj := hstops.first
    subst hj
    have hentry := hstops.entry
    have hused := hstops.used
    dsimp only
    rw [hentry]
    refine ⟨fun hwant => ?_, passed ++ unused ++ [e], ahead', h.regroup (by simp) hlooks' hinodes'
      htable' (Pass.returned hahead' hused hstops.iblock hentry), ?_⟩
    · rw [hstops.inode, if_pos hwant]
      exact htable' _ (inumber_mem_inumbers (by simp) hused)
    · simp only [List.map_append, List.map_cons, List.map_nil, cell_of_used hused]
      exact SweepStep.meet _ _ _ (cells_of_unused hunused)

/-- **An entry is removed**: its inode is not named any more, and the others are. -/
theorem Passing.drop {e e' : DirEntry} {s : Filesystem DirFiles × DirCursor}
    {fs' : Filesystem DirFiles} {c' : DirCursor} {w' : View}
    (h : Passing d w₀ (passed ++ [e]) ahead s) (hused : e.inumber ≠ 0) (hemptied : e'.inumber = 0)
    (hlooks : LooksWith (namedBlocks w₀.table (passed ++ ahead)) fs' w')
    (hinodes : w'.inodes = w₀.inodes)
    (htable : ∀ k ∈ inumbers (passed ++ [e] ++ ahead), k ≠ e.inumber → w'.table k = w₀.table k)
    (hpass : Pass d w' c' (passed ++ [e']) ahead) :
    Passing d w₀ (passed ++ [e']) ahead (fs', c') := by
  have hsplit : inumbers (passed ++ [e] ++ ahead) =
      inumbers passed ++ e.inumber :: inumbers ahead := by
    simp [inumbers_cons_used hused]
  have hslots : inumbers (passed ++ [e'] ++ ahead) = inumbers (passed ++ ahead) := by
    simp [inumbers_cons_unused hemptied]
  have hsub : (inumbers (passed ++ [e'] ++ ahead)).Sublist (inumbers (passed ++ [e] ++ ahead)) := by
    rw [hslots, hsplit, inumbers_append]
    exact (List.sublist_cons_self _ _).append_left _
  have hne : ∀ k ∈ inumbers (passed ++ [e'] ++ ahead), k ≠ e.inumber := by
    have hdistinct := h.distinct
    rw [hsplit] at hdistinct
    have hnotMem := (List.nodup_cons.mp (List.nodup_middle.mp hdistinct)).1
    intro k hk hke
    rw [hslots, inumbers_append, hke] at hk
    exact hnotMem hk
  refine ⟨fun k hk => h.valid k (hsub.subset hk), fun k hk => h.other k (hsub.subset hk),
    fun k hk => h.inumber k (hsub.subset hk), h.distinct.sublist hsub, w', ?_, hinodes,
    fun k hk => htable k (hsub.subset hk) (hne k hk), hpass⟩
  rw [namedBlocks, hslots]
  exact hlooks

/-- **`sfs_dir_iter_unlink`** of the entry that was returned. -/
theorem unlink_passes (h : Passing d w₀ passed ahead (fs, .returned it j)) :
    Run.Ensures (sfsDirIterUnlink (loggedLayer allocate) it j) fs fun answer fs' =>
      answer.1 = 0 ∧ PassStep d w₀ passed ahead
        (.removed it.iblock.toNat (Block.dirEntry it.cachedBlock j)) (fs', .ready answer.2) := by
  obtain ⟨w, hlooks, hinodes, htable, hpass⟩ := h.now
  dsimp only at hlooks hpass
  generalize hc : DirCursor.returned it j = c at hpass
  cases hpass with
  | ready => cases hc
  | closed => cases hc
  | @returned it' passed ahead e hahead hused hiblock hentry =>
    cases hc
    have hsplit : passed ++ [e] ++ ahead = passed ++ e :: ahead := by simp
    have hnumber : e.inumber ∈ inumbers (passed ++ [e] ++ ahead) :=
      inumber_mem_inumbers (by simp) hused
    have hdir := hahead.dir
    rw [hsplit] at hdir hlooks
    have hself : w.table e.inumber = w₀.table e.inumber := htable _ hnumber
    have hkd := h.other _ hnumber
    have hvalid := (h.valid _ hnumber).congr hinodes
    have hinumber : (w.table e.inumber).inumber = e.inumber := by
      rw [hself]
      exact h.inumber _ hnumber
    refine ((serves_looksWith allocate _).sfsDirIterUnlink_ensures
      (serves_looksWith allocate (namedBlocks w₀.table (passed ++ ahead))) hlooks hdir hahead.inode
      hiblock hentry hvalid hinumber hkd
      (P := fun w₁ => w₁.inodes = w.inodes ∧ ∀ k, k ≠ e.inumber → w₁.table k = w.table k)
      (fun _ fs₁ t fs₂ _ _ h₂ => ?_) fun _ t fs₃ h₃ => ⟨?_, rfl, fun k hk => ?_⟩).mono ?_
    · -- the last link: the blocks of the inode join the free ones
      have hloose : LooksWith (((w.table e.inumber).unlinked t).direct.filter (· ≠ 0) ++
          namedBlocks w₀.table (passed ++ ahead)) fs₂ w := by
        rw [hself]
        exact h₂.reorder (namedBlocks_perm hused).symm
      have hv : ((w.table e.inumber).unlinked t).inumber = e.inumber := hinumber
      refine (hloose.deallocate_ensures (by rw [hv]; exact hvalid)).mono ?_
      rintro ret fs₃ ⟨hret, w₁, h₃, hinodes₁, hblocks, hothers⟩
      rw [hv] at hothers
      exact ⟨hret, w₁, h₃, ⟨hinodes₁, hothers d (Ne.symm hkd), by rw [hblocks]⟩, hinodes₁, hothers⟩
    · exact (h₃.reorder (namedBlocks_perm hused).symm).forget (List.sublist_append_right _ _)
    · exact View.setInode_table_of_ne (by
        rw [show ((w.table e.inumber).unlinked t).inumber = e.inumber from hinumber]
        exact hk)
    · rintro ⟨ret, it'⟩ fs' ⟨hret, hentry', hiblock', w₁, w', e', ⟨hinodes₁, hothers⟩, htouched, h',
        hinode, hemptied, hdir'⟩
      dsimp only at hret hentry' hiblock' hinode ⊢
      have hentry₀ : it.entry = 1 := by
        rcases hahead.place with ⟨-, hlength⟩ | ⟨hone, -⟩
        · rw [hiblock, List.length_append, List.length_singleton] at hlength
          omega
        · exact hone
      have hahead' : Ahead d w' it' (passed ++ [e']) ahead := by
        refine ⟨?_, hinode, Or.inr ⟨hentry'.trans hentry₀, ?_⟩⟩
        · rw [List.append_assoc]
          exact hdir'
        · rw [hiblock', hiblock, List.length_append, List.length_singleton]
      refine ⟨hret, passed ++ [e'], ahead, h.drop hused hemptied h'
        (htouched.inodes.trans (hinodes₁.trans hinodes)) (fun k hk hke => ?_)
        (Pass.ready hahead'), ?_⟩
      · rw [htouched.others k (h.other k hk), hothers k hke, htable k hk]
      · simp only [List.map_append, List.map_cons, List.map_nil, cell_of_used hused,
          cell_of_unused hemptied, hentry]
        have hmap : (passed.map DirEntry.cell).length = passed.length := List.length_map _
        rw [hiblock, ← hmap]
        exact SweepStep.remove _ _

end Calls

/-! ## Whole passes -/

namespace DirEvent

/-- What a call is to the pass. -/
def sweep : DirEvent → Option (SweepEvent DirEntry)
  | found e _ _ => some (.met e)
  | unlinked i e _ => some (.removed i e)
  | ended => some .ended
  | _ => none

/-- A call of `sfs_dir_iternext` or `sfs_dir_iter_unlink`. -/
def Sweeps (ev : DirEvent) : Prop :=
  ev.sweep ≠ none

/-- The entry that is returned, if any. -/
def entry : DirEvent → Option DirEntry
  | found e _ _ => some e
  | _ => none

theorem mem_emptied {tr : List DirEvent} {i : ℕ} :
    i ∈ (tr.filterMap sweep).filterMap SweepEvent.emptied ↔ ∃ e ret, .unlinked i e ret ∈ tr := by
  simp only [List.mem_filterMap]
  constructor
  · rintro ⟨sev, ⟨ev, hev, hsweep⟩, hemptied⟩
    cases ev with
    | unlinked j e ret =>
      obtain rfl := Option.some.inj hsweep
      obtain rfl := Option.some.inj hemptied
      exact ⟨e, ret, hev⟩
    | found =>
      obtain rfl := Option.some.inj hsweep
      cases hemptied
    | ended =>
      obtain rfl := Option.some.inj hsweep
      cases hemptied
    | looked => cases hsweep
    | linked => cases hsweep
  · rintro ⟨e, ret, hev⟩
    exact ⟨.removed i e, ⟨_, hev, rfl⟩, rfl⟩

theorem filterMap_entry (tr : List DirEvent) :
    (tr.filterMap sweep).filterMap SweepEvent.element = tr.filterMap entry := by
  rw [List.filterMap_filterMap]
  congr 1
  funext ev
  cases ev <;> rfl

end DirEvent

/-- The entries in use. -/
theorem reduceOption_cells (slots : List DirEntry) :
    (slots.map DirEntry.cell).reduceOption = slots.filter (·.inumber ≠ 0) := by
  induction slots with
  | nil => rfl
  | cons e slots ih =>
    by_cases he : e.inumber = 0
    · simp [cell_of_unused he, he, ih]
    · simp [cell_of_used he, he, ih]

/-- What is left in a slot. -/
theorem getElem?_cells {slots : List DirEntry} {i : ℕ} {e : DirEntry} :
    (slots.map DirEntry.cell)[i]? = some (some e) ↔ slots[i]? = some e ∧ e.inumber ≠ 0 := by
  rw [List.getElem?_map, Option.map_eq_some_iff]
  constructor
  · rintro ⟨x, hx, hcell⟩
    unfold DirEntry.cell at hcell
    split at hcell
    · cases hcell
    · cases hcell
      exact ⟨hx, ‹_›⟩
  · rintro ⟨hslot, hused⟩
    exact ⟨e, hslot, cell_of_used hused⟩

/-- **A directory with these slots**, whose entries in use name distinct inodes other than
it, with blocks that are distinct and not free; and its inode in hand. -/
structure Filesystem.Passable (fs : Filesystem DirFiles) (d : UInt64) (directory : Inode)
    (slots : List DirEntry) : Prop where
  valid : fs.superblock.ValidInumber d
  stored : fs.logicalInode d = directory
  inumber : directory.inumber = d
  isDir : directory.mode &&& sIfdir ≠ 0
  size : directory.size.toNat = 512 * slots.length
  mapped : slots.length ≤ 76
  slot : ∀ i (hi : i < slots.length),
    slots[i] = Block.dirEntry (fs.files.blocks d (UInt64.ofNat i)) 0
  named : ∀ k ∈ inumbers slots, fs.superblock.ValidInumber k ∧ k ≠ d ∧
    (fs.logicalInode k).inumber = k
  distinct : (inumbers slots).Nodup
  blocks : ∃ nodes, Image fs nodes [] (namedBlocks fs.logicalInode slots)

section Passes

variable {allocate : Fs DirFiles (Option Inode)} {fs fs' fs₁ : Filesystem DirFiles} {d : UInt64}
  {directory : Inode} {slots passed ahead : List DirEntry} {it : DirIterator} {c : DirCursor}
  {tr : List DirEvent} {w₀ : View} {s t : Filesystem DirFiles × DirCursor} {ev : DirEvent}

/-- `sfs_dir_iterate` begins a pass. -/
theorem Filesystem.Passable.start (h : fs.Passable d directory slots)
    (hd : (inodeBlock d).toNat < 2 ^ 31)
    (hlow : ∀ k ∈ inumbers slots, (inodeBlock k).toNat < 2 ^ 31) :
    Run.Ensures (sfsDirIterate directory) fs fun answer fs₁ =>
      ∀ it, answer = some it → Passing d fs.view [] slots (fs₁, .ready it) := by
  have hdirectory := h.stored
  subst hdirectory
  rw [sfsDirIterate, decide_eq_true h.isDir, Run.assert_true, Run.pure_bind']
  refine Run.Ensures.bind (P := fun _ fs₁ => fs₁ = fs.malloced)
    (Run.Ensures.of_eq (malloc_run fs) rfl) ?_
  rintro got _ rfl
  cases got with
  | false => exact Run.ensures_pure fun it hit => absurd hit (by simp)
  | true =>
    refine Run.ensures_pure fun it hit => ?_
    obtain rfl := Option.some.inj hit
    obtain ⟨nodes, himage⟩ := h.blocks
    have hlooks := (looks_view himage.state).of_host fs.malloced.host rfl
    have hdir : Directory d fs.view slots :=
      ⟨⟨h.valid.1, h.valid.2, hd⟩, h.inumber, h.isDir, h.size, h.mapped,
        fun i hi => (h.slot i hi).symm⟩
    exact ⟨fun k hk => ⟨(h.named k hk).1.1, (h.named k hk).1.2, hlow k hk⟩,
      fun k hk => (h.named k hk).2.1, fun k hk => (h.named k hk).2.2, h.distinct, fs.view,
      ⟨hlooks, nodes, himage.malloced⟩, rfl, fun _ _ => rfl, Pass.ready (Ahead.fresh hdir _)⟩

/-- What a call of a pass answers, beyond what it does to the cells. -/
def DirEvent.Passes (w₀ : View) : DirEvent → Prop
  | .found e wantInode v => wantInode = true → v = w₀.table e.inumber
  | .unlinked _ _ ret => ret = 0
  | _ => True

/-- **A call of a pass.** -/
theorem dirCall_passes (h : Passing d w₀ passed ahead s)
    (hcall : DirCall (loggedLayer allocate) d s ev t) {sev : SweepEvent DirEntry}
    (hsweep : ev.sweep = some sev) : PassStep d w₀ passed ahead sev t ∧ ev.Passes w₀ := by
  cases hcall with
  | iterate => exact absurd hsweep (by simp [DirEvent.sweep])
  | close => exact absurd hsweep (by simp [DirEvent.sweep])
  | link => exact absurd hsweep (by simp [DirEvent.sweep])
  | next wantInode iterator run =>
    obtain rfl := Option.some.inj hsweep
    exact ((next_passes h iterator wantInode).post run).symm
  | stop wantInode iterator run =>
    obtain rfl := Option.some.inj hsweep
    exact ⟨(next_passes h iterator wantInode).post run, trivial⟩
  | unlink run =>
    obtain rfl := Option.some.inj hsweep
    exact ((unlink_passes h).post run).symm

/-- **A pass as a whole.** -/
theorem passing_of_exec (h : Passing d w₀ passed ahead s)
    (hexec : Exec (DirCall (loggedLayer allocate) d) s tr t) (hsweeps : ∀ ev ∈ tr, ev.Sweeps) :
    (∃ passed' ahead', Passing d w₀ passed' ahead' t ∧
      Exec SweepStep (passed.map DirEntry.cell, ahead.map DirEntry.cell)
        (tr.filterMap DirEvent.sweep) (passed'.map DirEntry.cell, ahead'.map DirEntry.cell)) ∧
    ∀ ev ∈ tr, ev.Passes w₀ := by
  have hexec' := hexec.restrict hsweeps
  constructor
  · have hproject : ∃ cells, Exec SweepStep (passed.map DirEntry.cell, ahead.map DirEntry.cell)
        (tr.filterMap DirEvent.sweep) cells ∧ ∃ passed' ahead', Passing d w₀ passed' ahead' t ∧
          cells = (passed'.map DirEntry.cell, ahead'.map DirEntry.cell) := by
      refine hexec'.project (R := fun s cells => ∃ passed ahead, Passing d w₀ passed ahead s ∧
        cells = (passed.map DirEntry.cell, ahead.map DirEntry.cell)) DirEvent.sweep ?_ ?_
        ⟨passed, ahead, h, rfl⟩
      · rintro s ev t cells - ⟨hsweeps, -⟩ hlabel
        exact absurd hlabel hsweeps
      · rintro s ev t _ sev ⟨passed, ahead, hs, rfl⟩ ⟨-, hcall⟩ hlabel
        obtain ⟨⟨passed', ahead', ht, hstep⟩, -⟩ := dirCall_passes hs hcall hlabel
        exact ⟨_, hstep, passed', ahead', ht, rfl⟩
    obtain ⟨_, hcells, passed', ahead', ht, rfl⟩ := hproject
    exact ⟨passed', ahead', ht, hcells⟩
  · refine hexec'.events (I := fun s => ∃ passed ahead, Passing d w₀ passed ahead s) ?_
      ⟨passed, ahead, h⟩
    rintro s ev t ⟨passed, ahead, hs⟩ ⟨hsweeps, hcall⟩
    obtain ⟨sev, hsev⟩ := Option.ne_none_iff_exists'.mp hsweeps
    obtain ⟨⟨passed', ahead', ht, -⟩, hpasses⟩ := dirCall_passes hs hcall hsev
    exact ⟨⟨passed', ahead', ht⟩, hpasses⟩

theorem Passing.hasCells (h : Passing d w₀ passed ahead s) :
    s.1.HasCells d s.2.directory ((passed ++ ahead).map DirEntry.cell) := by
  obtain ⟨w, ⟨hlooks, -⟩, -, -, hpass⟩ := h.now
  have hdir := hpass.directory
  have hself := hpass.self
  refine ⟨?_, ?_, fun i hi => ?_⟩
  · rw [hself]
    exact hlooks.table d hdir.valid
  · rw [hself, List.length_map]
    exact hdir.size
  · rw [List.length_map] at hi
    rw [List.getElem_map, hlooks.files, ← hdir.slot i hi]
    rfl

/-- **A pass is complete**, whatever entries are removed on the way: it returns every entry
that was in use, once and in order, with the inode that it named at the start, and then
`NULL`; and it leaves those that were not removed as they were and where they were. -/
theorem passes_are_complete (h : fs.Passable d directory slots)
    (hiterate : (sfsDirIterate directory).run fs = .done (some it) fs₁)
    (hexec : Exec (DirCall (loggedLayer allocate) d) (fs₁, .ready it) tr (fs', c))
    (hsweeps : ∀ ev ∈ tr, ev.Sweeps) (hd : (inodeBlock d).toNat < 2 ^ 31)
    (hlow : ∀ k ∈ inumbers slots, (inodeBlock k).toNat < 2 ^ 31) :
    tr.filterMap DirEvent.entry <+: slots.filter (·.inumber ≠ 0) ∧
    (.ended ∈ tr → tr.filterMap DirEvent.entry = slots.filter (·.inumber ≠ 0)) ∧
    (∀ e v, .found e true v ∈ tr → v = fs.logicalInode e.inumber) ∧
    (∀ i e ret, .unlinked i e ret ∈ tr → ret = 0 ∧ slots[i]? = some e) ∧
    (∃ cells, fs'.HasCells d c.directory cells ∧ cells.length = slots.length ∧
      ∀ i e, cells[i]? = some (some e) ↔
        (slots[i]? = some e ∧ e.inumber ≠ 0) ∧ ¬ ∃ x ret, .unlinked i x ret ∈ tr) ∧
    (∀ it wantInode, c.iterator = some it →
      Run.Ensures (sfsDirIternext (loggedLayer allocate) wantInode it) fs' fun answer _ =>
        match answer with
        | .stop _ => tr.filterMap DirEvent.entry = slots.filter (·.inumber ≠ 0)
        | .entry it' j _ => tr.filterMap DirEvent.entry ++ [Block.dirEntry it'.cachedBlock j] <+:
            slots.filter (·.inumber ≠ 0)) ∧
    ∀ it j, c = .returned it j → Run.Ensures (sfsDirIterUnlink (loggedLayer allocate) it j) fs'
      fun answer _ => answer.1 = 0 := by
  obtain ⟨⟨passed, ahead, hnow, hcells⟩, hpasses⟩ := passing_of_exec
    ((h.start hd hlow).post hiterate it rfl) hexec hsweeps
  rw [← DirEvent.filterMap_entry, ← reduceOption_cells]
  refine ⟨SweepStep.prefix_of_exec hcells, fun hended => ?_, fun e v hfound => ?_,
    fun i e ret hunlinked => ⟨hpasses _ hunlinked, ?_⟩, ⟨_, hnow.hasCells, ?_, fun i e => ?_⟩,
    fun it wantInode hit => ?_, fun it j hc => ?_⟩
  · exact SweepStep.met_of_ended hcells (List.mem_filterMap.mpr ⟨_, hended, rfl⟩)
  · exact hpasses _ hfound rfl
  · exact (getElem?_cells.mp (SweepStep.removed_of_exec hcells
      (List.mem_filterMap.mpr ⟨_, hunlinked, rfl⟩))).1
  · rw [List.map_append, SweepStep.length_of_exec hcells]
    simp
  · rw [List.map_append, SweepStep.getElem?_of_exec hcells i, ← DirEvent.mem_emptied,
      ← getElem?_cells]
    by_cases hi : i ∈ (tr.filterMap DirEvent.sweep).filterMap SweepEvent.emptied
    · simp [hi]
    · simp [hi]
  · refine (next_passes hnow hit wantInode).mono ?_
    rintro (directory | ⟨it', j, v⟩) fs'' hpost
    · obtain ⟨passed', ahead', -, hstep⟩ := hpost
      exact SweepStep.met_of_finish hcells hstep
    · obtain ⟨-, passed', ahead', -, hstep⟩ := hpost
      exact SweepStep.prefix_of_meet hcells hstep
  · subst hc
    exact (unlink_passes hnow).mono fun _ _ hpost => hpost.1

end Passes

/-! ## Two disks with one entry -/

/-- The directory `directory`, of one block, with an entry for the file `v`. -/
def Filesystem.oneEntry (s : Superblock) (directory v : Inode) (name : CString) :
    Filesystem DirFiles :=
  { (Filesystem.blankDir s directory).putInode v with
    files := ⟨fun _ _ => Block.zero.setDirEntry 0 (newEntry v.inumber name), []⟩ }

section OneEntry

variable {s : Superblock} {directory v : Inode} {name : CString} {nodes : List UInt64}

theorem image_oneEntry
    (h : Image (Filesystem.blank s (⟨fun _ _ => Block.zero, []⟩ : DirFiles)) nodes [] [])
    (hdirectory : s.ValidInumber directory.inumber) (hv : s.ValidInumber v.inumber) :
    Image (Filesystem.oneEntry s directory v name) nodes [] [] := by
  have hdir : Image (Filesystem.blankDir s directory) nodes [] [] :=
    h.of_keeps (inodeState_putInode h.state rfl hdirectory) (keeps_putInode h.state hdirectory)
  have hfile : Image ((Filesystem.blankDir s directory).putInode v) nodes [] [] :=
    hdir.of_keeps (inodeState_putInode hdir.state rfl hv) (keeps_putInode hdir.state hv)
  exact hfile.of_keeps ((looks_view hfile.state).withFiles _).state
    ⟨rfl, rfl, rfl, fun _ _ => rfl⟩

/-- The table has the file. -/
theorem logicalInode_oneEntry (hv : s.ValidInumber v.inumber) :
    (Filesystem.oneEntry s directory v name).logicalInode v.inumber = v :=
  show ((Filesystem.blankDir s directory).putInode v).logicalInode v.inumber = v from
    logicalInode_putInode rfl hv

theorem passable_oneEntry
    (h : Image (Filesystem.blank s (⟨fun _ _ => Block.zero, []⟩ : DirFiles)) nodes [] [])
    (hdirectory : s.ValidInumber directory.inumber) (hv : s.ValidInumber v.inumber)
    (hne : v.inumber ≠ directory.inumber) (hmode : directory.mode = sIfdir)
    (hsize : directory.size = 512) (hblocks : ∀ p ∈ v.direct, p = 0) :
    (Filesystem.oneEntry s directory v name).Passable directory.inumber directory
      [newEntry v.inumber name] := by
  have hused : (newEntry v.inumber name).inumber ≠ 0 := Ne.symm (UInt64.ne_of_lt hv.1)
  have hnumbers : inumbers [newEntry v.inumber name] = [v.inumber] := inumbers_cons_used hused
  have hstate : InodeState (Filesystem.blankDir s directory) :=
    inodeState_putInode h.state rfl hdirectory
  have hfiles : ∀ k, (Filesystem.oneEntry s directory v name).logicalInode k =
      ((Filesystem.blankDir s directory).putInode v).logicalInode k := fun _ => rfl
  have hstored : (Filesystem.oneEntry s directory v name).logicalInode v.inumber = v :=
    logicalInode_oneEntry hv
  have hslot : Block.dirEntry ((Filesystem.oneEntry s directory v name).files.blocks
      directory.inumber (UInt64.ofNat 0)) 0 = newEntry v.inumber name :=
    Block.dirEntry_setDirEntry _ _
  refine ⟨hdirectory, ?_, rfl, ?_, ?_, Nat.one_le_ofNat, fun i hi => ?_, ?_, ?_, nodes, ?_⟩
  · rw [hfiles, logicalInode_putInode_of_ne hstate rfl hv hdirectory.1 (Ne.symm hne)]
    exact logicalInode_putInode rfl hdirectory
  · rw [hmode]
    decide
  · rw [hsize]
    rfl
  · obtain rfl : i = 0 := Nat.lt_one_iff.mp hi
    exact hslot.symm
  · rw [hnumbers]
    intro k hk
    rw [List.mem_singleton.mp hk]
    exact ⟨hv, hne, congrArg Inode.inumber hstored⟩
  · rw [hnumbers]
    exact List.nodup_singleton _
  · have hnone : namedBlocks (Filesystem.oneEntry s directory v name).logicalInode
        [newEntry v.inumber name] = [] := by
      rw [namedBlocks, hnumbers, List.flatMap_singleton, hstored, List.filter_eq_nil_iff]
      intro p hp
      simpa using hblocks p hp
    rw [hnone]
    exact image_oneEntry h hdirectory hv

end OneEntry

/-- The directory that has the number `d`, of one block. -/
def oneBlockDirectory (d : UInt64) : Inode :=
  { emptyDirectory d with size := 512 }

/-- A file with one name. -/
def linkedTwo : Inode :=
  { emptyTwo with links := 1 }

theorem linkedTwo_direct : ∀ p ∈ linkedTwo.direct, p = 0 := by
  intro p hp
  obtain ⟨i, -, rfl⟩ := List.mem_map.mp hp
  exact emptyTwo_pointer i

theorem passable_linkedTwo : (Filesystem.oneEntry oneFreeBlock (oneBlockDirectory 1) linkedTwo
    [97]).Passable 1 (oneBlockDirectory 1) [newEntry 2 [97]] :=
  passable_oneEntry (image_blank rfl rfl rfl rfl) (by constructor <;> decide)
    (by constructor <;> decide) (by decide) rfl rfl linkedTwo_direct

/-- `sfs_dir_iterate` where there is memory. -/
theorem sfsDirIterate_fresh {fs : Filesystem DirFiles} {directory : Inode}
    (hdir : directory.mode = sIfdir) (hmemory : fs.host.mallocs 0 = true) :
    (sfsDirIterate directory).run fs =
      .done (some ⟨directory, 0, 0, Block.zero⟩) fs.malloced := by
  have hmode : directory.mode &&& sIfdir ≠ 0 := by
    rw [hdir]
    decide
  rw [sfsDirIterate, decide_eq_true hmode, Run.assert_true, Run.pure_bind', Run.run_bind,
    malloc_run, Run.andThen_done, hmemory, if_neg (by simp), Run.run_pure]

/-- The disk with that entry. -/
abbrev linkedDisk : Filesystem DirFiles :=
  Filesystem.oneEntry oneFreeBlock (oneBlockDirectory 1) linkedTwo [97]

/-- The entry is found and removed, and the next call finds no other. -/
def sweepLinked : Fs DirFiles (Option (UInt64 × ℤ × Bool)) := do
  match ← sfsDirIternext (loggedLayer sfsFsInodeAllocate) true ⟨oneBlockDirectory 1, 0, 0,
    Block.zero⟩ with
  | .stop _ => return none
  | .entry it j _ =>
    let (ret, it') ← sfsDirIterUnlink (loggedLayer sfsFsInodeAllocate) it j
    match ← sfsDirIternext (loggedLayer sfsFsInodeAllocate) true it' with
    | .stop _ => return some (it.iblock, ret, true)
    | .entry _ _ _ => return some (it.iblock, ret, false)

theorem sweepLinked_value :
    (sweepLinked.run linkedDisk.malloced).value = some (some (0, 0, true)) := by
  decide +kernel

/-- **A pass on a small disk** that removes the one entry. -/
theorem passes_are_complete_linkedTwo :
    ∃ it fs₁ fs' directory, (sfsDirIterate (oneBlockDirectory 1)).run linkedDisk =
        .done (some it) fs₁ ∧
      Exec (DirCall (loggedLayer sfsFsInodeAllocate) 1) (fs₁, .ready it)
        [.found (newEntry 2 [97]) true linkedTwo, .unlinked 0 (newEntry 2 [97]) 0, .ended]
        (fs', .closed directory) ∧
      fs'.HasCells 1 directory [none] := by
  have hiterate : (sfsDirIterate (oneBlockDirectory 1)).run linkedDisk =
      .done (some ⟨oneBlockDirectory 1, 0, 0, Block.zero⟩) linkedDisk.malloced :=
    sfsDirIterate_fresh rfl rfl
  obtain ⟨last, hrun⟩ := Outcome.exists_of_value sweepLinked_value
  obtain ⟨answer, fs₁, hnext, hrun⟩ := Run.bind_eq_done.mp hrun
  cases answer with
  | stop directory => cases Option.some_ne_none _ (Outcome.done.inj hrun).1.symm
  | entry it j v =>
    obtain ⟨⟨ret, it'⟩, fs₂, hunlink, hrun⟩ := Run.bind_eq_done.mp hrun
    obtain ⟨answer, fs₃, hlast, hrun⟩ := Run.bind_eq_done.mp hrun
    cases answer with
    | entry it'' j' v' =>
      have hvalues := Option.some.inj (Outcome.done.inj hrun).1
      simp at hvalues
    | stop directory =>
      have hvalues := Option.some.inj (Outcome.done.inj hrun).1
      simp only [Prod.mk.injEq] at hvalues
      obtain ⟨hiblock, rfl, -⟩ := hvalues
      have hexec : Exec (DirCall (loggedLayer sfsFsInodeAllocate) 1)
          (linkedDisk.malloced, .ready ⟨oneBlockDirectory 1, 0, 0, Block.zero⟩)
          [.found (Block.dirEntry it.cachedBlock j) true v,
            .unlinked it.iblock.toNat (Block.dirEntry it.cachedBlock j) 0, .ended]
          (fs₃, .closed directory) :=
        .cons (DirCall.next true rfl hnext) (.cons (DirCall.unlink hunlink)
          (.cons (DirCall.stop true rfl hlast) (.nil _)))
      have hlow : ∀ k ∈ inumbers [newEntry 2 [97]], (inodeBlock k).toNat < 2 ^ 31 := by
        intro k hk
        rw [inumbers_cons_used (show (newEntry 2 [97]).inumber ≠ 0 by decide)] at hk
        rw [List.mem_singleton.mp hk]
        decide
      obtain ⟨-, hall, hinodes, hremoved, ⟨cells, hcells, hlength, hcell⟩, -⟩ :=
        passes_are_complete passable_linkedTwo hiterate hexec (fun ev hev => by
          simp only [List.mem_cons, List.not_mem_nil, or_false] at hev
          rcases hev with rfl | rfl | rfl <;> exact Option.some_ne_none _) (by decide) hlow
      have hentry : Block.dirEntry it.cachedBlock j = newEntry 2 [97] :=
        List.head_eq_of_cons_eq (hall (by simp))
      have hinode : v = linkedTwo := by
        rw [hinodes _ v List.mem_cons_self, hentry]
        show linkedDisk.logicalInode linkedTwo.inumber = linkedTwo
        exact logicalInode_oneEntry (by constructor <;> decide)
      obtain ⟨c, rfl⟩ := List.length_eq_one_iff.mp hlength
      cases c with
      | some e =>
        exact absurd ⟨Block.dirEntry it.cachedBlock j, 0, by rw [hiblock]; simp⟩
          ((hcell 0 e).mp rfl).2
      | none =>
        rw [hentry, hiblock, hinode] at hexec
        exact ⟨_, _, fs₃, directory, hiterate, hexec, hcells⟩

/-! ### A table that the inode cache cannot number -/

theorem image_wideTable {files : DirFiles} :
    Image (Filesystem.blank wideTable files) [] [] [] where
  state := inodeState_wideTable
  linked := rfl
  files := List.nodup_nil
  valid k hk := absurd hk List.not_mem_nil
  distinct := by
    rw [census, poolOf_nil]
    exact List.nodup_nil
  inRange b hb := by
    rw [census, poolOf_nil] at hb
    exact absurd hb List.not_mem_nil

/-- The directory with the last inode of the table, of one block. -/
def lastOneBlock : Inode := oneBlockDirectory 0x180000000

theorem passable_lastOneBlock : (Filesystem.oneEntry wideTable lastOneBlock linkedTwo
    [97]).Passable 0x180000000 lastOneBlock [newEntry 2 [97]] :=
  passable_oneEntry image_wideTable (by constructor <;> decide) (by constructor <;> decide)
    (by decide) rfl rfl linkedTwo_direct

/-- The block that is read names the inode 2, which is not read once the inode of the
directory has been written. -/
theorem iternextStep_lastOneBlock {fs : Filesystem DirFiles} (h : fs.Wide)
    (allocate : Fs DirFiles (Option Inode))
    (hentry : (Block.dirEntry (fs.files.blocks 0x180000000 0) 0).inumber = 2) :
    Run.Ensures (iternextStep (loggedLayer allocate) true ⟨lastOneBlock, 0, 0, Block.zero⟩) fs
      fun answer _ => ∃ directory, answer = .inr (.stop directory) := by
  have hin : ¬ (0 : UInt64) * 512 ≥ lastOneBlock.size := by decide
  rw [iternextStep, if_neg hin]
  dsimp only
  rw [if_pos rfl]
  refine (h.blockRead_ensures allocate (by decide) _).bind ?_
  rintro _ fs₁ ⟨rfl, h₁⟩
  dsimp only
  rw [if_neg (by decide)]
  refine h₁.time_ensures.bind fun t fs₂ h₂ => ?_
  refine (h₂.writeInode_ensures rfl).bind ?_
  rintro _ fs₃ ⟨rfl, h₃⟩
  have hblock : fs.files.blocks lastOneBlock.inumber 0 = fs.files.blocks 0x180000000 0 := rfl
  have hfind := findEntry_zero (fs.files.blocks 0x180000000 0)
  rw [hentry, if_pos (by decide)] at hfind
  rw [if_neg (by decide), show (0 : UInt64).toNat = 0 from rfl, hblock, hfind]
  dsimp only
  rw [if_pos rfl, hentry]
  refine h₃.readInode_ensures.bind ?_
  rintro _ fs₄ rfl
  exact ⟨_, _, rfl, _, rfl⟩

/-- **`NULL` is returned though an entry is in use**, where the directory's inode is in the
block `2 ^ 31`. -/
theorem entry_skipped_wideTable :
    (Filesystem.oneEntry wideTable lastOneBlock linkedTwo [97]).Passable 0x180000000 lastOneBlock
      [newEntry 2 [97]] ∧
    ∃ it fs₁ t, (sfsDirIterate lastOneBlock).run
        (Filesystem.oneEntry wideTable lastOneBlock linkedTwo [97]) = .done (some it) fs₁ ∧
      Exec (DirCall (loggedLayer sfsFsInodeAllocate) 0x180000000) (fs₁, .ready it) [.ended] t := by
  have himage : Image (Filesystem.oneEntry wideTable lastOneBlock linkedTwo [97]) [] [] [] :=
    image_oneEntry image_wideTable (by constructor <;> decide) (by constructor <;> decide)
  have hwide : (Filesystem.oneEntry wideTable lastOneBlock linkedTwo [97]).malloced.Wide :=
    ⟨himage.malloced.state, rfl, rfl⟩
  have hentry : (Block.dirEntry ((Filesystem.oneEntry wideTable lastOneBlock linkedTwo
      [97]).malloced.files.blocks 0x180000000 0) 0).inumber = 2 :=
    congrArg DirEntry.inumber (Block.dirEntry_setDirEntry _ _)
  have hloop : ∀ n, Run.Ensures (Run.loop (iternextStep (loggedLayer sfsFsInodeAllocate) true)
      (n + 1) ⟨lastOneBlock, 0, 0, Block.zero⟩)
      (Filesystem.oneEntry wideTable lastOneBlock linkedTwo [97]).malloced
      fun answer _ => ∃ directory, answer = .stop directory := by
    intro n
    rw [Run.loop]
    refine (iternextStep_lastOneBlock hwide _ hentry).bind ?_
    rintro _ fs' ⟨directory, rfl⟩
    exact Run.ensures_pure ⟨directory, rfl⟩
  have hbound : loopBound = (loopBound - 1) + 1 := rfl
  have hnext : Run.Ensures (sfsDirIternext (loggedLayer sfsFsInodeAllocate) true
      ⟨lastOneBlock, 0, 0, Block.zero⟩)
      (Filesystem.oneEntry wideTable lastOneBlock linkedTwo [97]).malloced
      fun answer _ => ∃ directory, answer = .stop directory := by
    rw [sfsDirIternext, hbound]
    exact hloop _
  obtain ⟨_, fs', run, directory, rfl⟩ := hnext
  exact ⟨passable_lastOneBlock, _, _, (fs', .closed directory), sfsDirIterate_fresh rfl rfl,
    Exec.cons (DirCall.stop true rfl run) (Exec.nil _)⟩

end SimpleFileSystem
