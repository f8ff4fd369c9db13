import SimpleFileSystem.DirIteration
import SimpleFileSystem.RequestView

/-!
# A directory as a list of slots

A block of a directory is one entry, so a directory is a list of slots, some of them
unused (`Directory`).  An iterator goes through the list from the front: `Ahead` says
which slots it has passed and which are ahead of it, and `sfsDirIternext_ensures` that it
stops at the first one ahead that is in use.  `search_ensures` is the search for a name
that every request on names begins with.

Every block that an iterator reads sets the access time of the directory, so a search
leaves the view as it was but for that (`Accessed`).
-/

namespace SimpleFileSystem

/-! ## Slots -/

/-- The slot `i` of a directory: the entry that its block `i` is. -/
def View.slot (w : View) (d : UInt64) (i : ℕ) : DirEntry :=
  Block.dirEntry (w.files.blocks d (UInt64.ofNat i)) 0

/-- A block of the directory replaced. -/
theorem View.slot_setBlock {w : View} {d i : UInt64} {block : Block} {j : ℕ}
    (hj : j < mappedBlocks) : (w.setBlock d i block).slot d j =
      if j = i.toNat then Block.dirEntry block 0 else w.slot d j := by
  have hnat : (UInt64.ofNat j).toNat = j :=
    UInt64.toNat_ofNat_of_lt' (by unfold mappedBlocks at hj; show j < 2 ^ 64; omega)
  show Block.dirEntry ((Function.update w.files.blocks d
    (Function.update (w.files.blocks d) i block)) d (UInt64.ofNat j)) 0 = _
  rw [Function.update_self]
  by_cases hji : j = i.toNat
  · rw [if_pos hji, hji, UInt64.ofNat_toNat, Function.update_self]
  · rw [if_neg hji, Function.update_of_ne, View.slot]
    rintro rfl
    exact hji hnat.symm

/-- **The directory has these slots.** -/
structure Directory (d : UInt64) (w : View) (slots : List DirEntry) : Prop where
  valid : w.Valid d
  inumber : (w.table d).inumber = d
  directory : (w.table d).mode &&& sIfdir ≠ 0
  size : (w.table d).size.toNat = 512 * slots.length
  mapped : slots.length ≤ mappedBlocks
  slot : ∀ i (hi : i < slots.length), w.slot d i = slots[i]

namespace Directory

variable {d : UInt64} {w w' : View} {slots slots' A B : List DirEntry} {e e' : DirEntry}
  {i : UInt64}

theorem slot_mid (h : Directory d w (A ++ e :: B)) : w.slot d A.length = e := by
  rw [h.slot A.length (by simp)]
  simp

/-- The end of the directory, as the iterator looks for it. -/
theorem past_iff (h : Directory d w slots) (hi : i.toNat ≤ slots.length) :
    i * 512 ≥ (w.table d).size ↔ slots.length ≤ i.toNat := by
  have hmapped := h.mapped
  have hmul : (i * 512).toNat = 512 * i.toNat := by
    rw [UInt64.toNat_mul]
    show i.toNat * 512 % 2 ^ 64 = _
    unfold mappedBlocks at hmapped
    omega
  rw [ge_iff_le, UInt64.le_iff_toNat_le, h.size, hmul]
  omega

/-- The blocks of the directory are mapped. -/
theorem lt_mapped (h : Directory d w slots) (hi : i.toNat < slots.length) :
    i < sfsNdirBlocks + sfsNindBlocks :=
  mapped_iff.mpr (Nat.lt_of_lt_of_le hi h.mapped)

/-- The entry of a block of the directory. -/
theorem dirEntry_block (i : UInt64) :
    Block.dirEntry (w.files.blocks d i) 0 = w.slot d i.toNat := by
  rw [View.slot, UInt64.ofNat_toNat]

/-- The slots depend on the blocks, and of the inodes only on that of the directory. -/
theorem congr (h : Directory d w slots) (hinodes : w'.inodes = w.inodes)
    (hblocks : w'.files.blocks = w.files.blocks) (hinumber : (w'.table d).inumber = d)
    (hmode : (w'.table d).mode = (w.table d).mode)
    (hsize : (w'.table d).size = (w.table d).size) : Directory d w' slots where
  valid := h.valid.congr hinodes
  inumber := hinumber
  directory := by rw [hmode]; exact h.directory
  size := by rw [hsize]; exact h.size
  mapped := h.mapped
  slot j hj := by
    rw [View.slot, hblocks]
    exact h.slot j hj

/-- **One block replaced** is one slot replaced. -/
theorem setBlock (h : Directory d w (A ++ e :: B)) {block : Block} (hi : i.toNat = A.length)
    (hblock : Block.dirEntry block 0 = e') : Directory d (w.setBlock d i block) (A ++ e' :: B) where
  valid := h.valid.congr rfl
  inumber := h.inumber
  directory := h.directory
  size := by
    rw [List.length_append, List.length_cons, ← List.length_cons (a := e), ← List.length_append]
    exact h.size
  mapped := by
    rw [List.length_append, List.length_cons, ← List.length_cons (a := e), ← List.length_append]
    exact h.mapped
  slot j hj := by
    have hold := h.slot j (by simpa using hj)
    have hlt : j < mappedBlocks := Nat.lt_of_lt_of_le (by simpa using hj) h.mapped
    rw [View.slot_setBlock hlt, hi, hblock]
    rcases Nat.lt_trichotomy j A.length with hlt | rfl | hlt
    · rw [if_neg (Nat.ne_of_lt hlt), hold, List.getElem_append_left hlt,
        List.getElem_append_left hlt]
    · rw [if_pos rfl]
      simp
    · rw [if_neg (Nat.ne_of_gt hlt), hold, List.getElem_append_right (Nat.le_of_lt hlt),
        List.getElem_append_right (Nat.le_of_lt hlt)]
      obtain ⟨d, hd⟩ : ∃ d, j - A.length = d + 1 := ⟨j - A.length - 1, by omega⟩
      simp only [hd, List.getElem_cons_succ]

/-- **A block more** is a slot more at the end. -/
theorem push (h : Directory d w slots) (hlt : slots.length < mappedBlocks) {block : Block}
    (hi : i.toNat = slots.length) (hblock : Block.dirEntry block 0 = e) {v : Inode}
    (hv : v.inumber = d) (hmode : v.mode = (w.table d).mode)
    (hsize : v.size = (w.table d).size + 512) :
    Directory d ((w.setBlock d i block).setInode v) (slots ++ [e]) := by
  have hself : ((w.setBlock d i block).setInode v).table d = v := by
    rw [← hv]
    exact View.setInode_table_self (w.setBlock v.inumber i block) v
  refine ⟨h.valid.congr rfl, by rw [hself]; exact hv,
    by rw [hself, hmode]; exact h.directory, ?_, ?_,
    fun j hj => ?_⟩
  · rw [hself, hsize, UInt64.toNat_add, h.size, List.length_append, List.length_singleton]
    unfold mappedBlocks at hlt
    show (512 * slots.length + 512) % 2 ^ 64 = _
    omega
  · rw [List.length_append, List.length_singleton]
    exact hlt
  · rw [List.length_append, List.length_singleton] at hj
    have hslot : ((w.setBlock d i block).setInode v).slot d j =
        if j = slots.length then e else w.slot d j := by
      rw [← hi, ← hblock]
      exact View.slot_setBlock (Nat.lt_of_lt_of_le hj hlt)
    rw [hslot]
    by_cases hend : j = slots.length
    · subst hend
      simp
    · rw [if_neg hend, h.slot j (by omega), List.getElem_append_left]

end Directory

/-! ## What an iteration changes -/

/-- The access time of a directory, and nothing else that shows. -/
structure Accessed (d : UInt64) (w w' : View) : Prop where
  inodes : w'.inodes = w.inodes
  head : w'.head = w.head
  files : w'.files = w.files
  table : ∃ t, w'.table = Function.update w.table d { w.table d with accessTime := t }

namespace Accessed

variable {d : UInt64} {w w' w'' : View} {slots : List DirEntry} {k : UInt64}

theorem refl (w : View) : Accessed d w w :=
  ⟨rfl, rfl, rfl, (w.table d).accessTime, (Function.update_eq_self d w.table).symm⟩

theorem trans (h : Accessed d w w') (h' : Accessed d w' w'') : Accessed d w w'' where
  inodes := h'.inodes.trans h.inodes
  head := h'.head.trans h.head
  files := h'.files.trans h.files
  table := by
    obtain ⟨t, ht⟩ := h.table
    obtain ⟨t', ht'⟩ := h'.table
    refine ⟨t', ?_⟩
    rw [ht', ht, Function.update_self, Function.update_idem]

theorem table_of_ne (h : Accessed d w w') (hk : k ≠ d) : w'.table k = w.table k := by
  obtain ⟨t, ht⟩ := h.table
  rw [ht, Function.update_of_ne hk]

theorem self (h : Accessed d w w') : ∃ t, w'.table d = { w.table d with accessTime := t } := by
  obtain ⟨t, ht⟩ := h.table
  exact ⟨t, by rw [ht, Function.update_self]⟩

theorem valid (h : Accessed d w w') (hk : w.Valid k) : w'.Valid k :=
  hk.congr h.inodes

theorem directory (h : Accessed d w w') (hdir : Directory d w slots) : Directory d w' slots := by
  obtain ⟨t, ht⟩ := h.self
  refine hdir.congr h.inodes (by rw [h.files]) ?_ ?_ ?_
  · rw [ht]
    exact hdir.inumber
  · rw [ht]
  · rw [ht]

theorem released (h : Accessed d w w') : Accessed d w w'.released :=
  ⟨h.inodes, h.head, h.files, h.table⟩

/-- A write of the directory with another access time. -/
theorem setInode (w : View) (hdir : (w.table d).inumber = d) (t : UInt64) :
    Accessed d w (w.setInode { w.table d with accessTime := t }) := by
  refine ⟨rfl, rfl, rfl, t, ?_⟩
  show Function.update w.table (w.table d).inumber _ = _
  rw [hdir]

end Accessed

/-! ## Iterators -/

/-- **An iterator** that has passed some slots and has the others ahead. -/
structure Ahead (d : UInt64) (w : View) (it : DirIterator)
    (passed ahead : List DirEntry) : Prop where
  dir : Directory d w (passed ++ ahead)
  inode : it.inode = w.table d
  place : it.entry = 0 ∧ it.iblock.toNat = passed.length ∨
    it.entry = 1 ∧ it.iblock.toNat + 1 = passed.length

section Iteration

variable {L : InodeLayer DirFiles} {R : Filesystem DirFiles → View → Prop}
  {fs : Filesystem DirFiles} {w : View} {d : UInt64} {wantInode : Bool} {it : DirIterator}
  {passed ahead slots : List DirEntry} {e : DirEntry} {name : CString}

/-- What an iterator finds that has stopped at a slot in use: the slot, its block, and the
inode of its entry if that was asked for. -/
structure StopsAt (d : UInt64) (w : View) (wantInode : Bool) (it : DirIterator) (j : ℕ) (v : Inode)
    (passed : List DirEntry) (e : DirEntry) : Prop where
  used : e.inumber ≠ 0
  first : j = 0
  iblock : it.iblock.toNat = passed.length
  block : it.cachedBlock = w.files.blocks d it.iblock
  entry : Block.dirEntry it.cachedBlock j = e
  inode : v = if wantInode then w.table e.inumber else Inode.zero

/-- What `sfs_dir_iternext` answers. -/
def NextPost (R : Filesystem DirFiles → View → Prop) (d : UInt64) (w : View) (wantInode : Bool)
    (passed ahead : List DirEntry) (answer : IterNext)
    (fs' : Filesystem DirFiles) : Prop :=
  ∃ w', Accessed d w w' ∧ R fs' w' ∧
    match answer with
    | .stop directory => directory = w'.table d ∧ ∀ e ∈ ahead, e.inumber = 0
    | .entry it j v => w'.freed = w.freed ∧ ∃ unused e ahead',
        ahead = unused ++ e :: ahead' ∧ (∀ x ∈ unused, x.inumber = 0) ∧
        StopsAt d w' wantInode it j v (passed ++ unused) e ∧
        Ahead d w' it (passed ++ unused ++ [e]) ahead'

/-- `end:` -/
theorem iterEnd_ensures (hR : Serves L R) (h : R fs w) (hit : it.inode = w.table d) :
    Run.Ensures (iterEnd it) fs fun answer fs' =>
      answer = .inr (.stop (w.table d)) ∧ R fs' w.released := by
  refine (hR.free_ensures h it.cachedBlock).bind ?_
  rintro _ fs' ⟨-, h'⟩
  exact Run.ensures_pure ⟨by rw [hit], h'⟩

/-- An iterator past its block goes on to the next. -/
theorem iternextStep_past (h : R fs w) (hahead : Ahead d w it passed ahead)
    (hentry : it.entry = 1) :
    Run.Ensures (iternextStep L wantInode it) fs fun answer fs' =>
      R fs' w ∧ ∃ it', answer = .inl it' ∧ it'.entry = 0 ∧ Ahead d w it' passed ahead := by
  obtain ⟨hzero, -⟩ | ⟨-, hplace⟩ := hahead.place
  · rw [hentry] at hzero
    exact absurd hzero (by decide)
  have hmapped := hahead.dir.mapped
  rw [List.length_append] at hmapped
  unfold mappedBlocks at hmapped
  have hin : ¬ it.iblock * 512 ≥ it.inode.size := by
    rw [hahead.inode, hahead.dir.past_iff (by rw [List.length_append]; omega), List.length_append]
    omega
  rw [iternextStep, if_neg hin]
  dsimp only
  rw [if_neg (by rw [hentry]; decide), hentry]
  refine Run.ensures_pure ⟨h, _, rfl, rfl, hahead.dir, hahead.inode, Or.inl ⟨rfl, ?_⟩⟩
  show (it.iblock + 1).toNat = _
  rw [UInt64.toNat_add]
  show (it.iblock.toNat + 1) % 2 ^ 64 = _
  omega

/-- An iterator at the end stops. -/
theorem iternextStep_end (hR : Serves L R) (h : R fs w) (hahead : Ahead d w it passed [])
    (hentry : it.entry = 0) :
    Run.Ensures (iternextStep L wantInode it) fs fun answer fs' =>
      answer = .inr (.stop (w.table d)) ∧ R fs' w.released := by
  obtain ⟨-, hplace⟩ | ⟨hone, -⟩ := hahead.place
  · have hdir := hahead.dir
    rw [List.append_nil] at hdir
    have hend : it.iblock * 512 ≥ it.inode.size := by
      rw [hahead.inode, hdir.past_iff (Nat.le_of_eq hplace), hplace]
    rw [iternextStep, if_pos hend]
    exact iterEnd_ensures hR h hahead.inode
  · rw [hentry] at hone
    exact absurd hone (by decide)

/-- **An iterator in front of a slot** reads its block, and stops there if the slot is in
use. -/
theorem iternextStep_slot (hR : Serves L R) (h : R fs w) (hahead : Ahead d w it passed (e :: ahead))
    (hentry : it.entry = 0) (hvalid : wantInode = true → e.inumber ≠ 0 → w.Valid e.inumber) :
    Run.Ensures (iternextStep L wantInode it) fs fun answer fs' =>
      ∃ w' it', Accessed d w w' ∧ w'.freed = w.freed ∧ R fs' w' ∧
        Ahead d w' it' (passed ++ [e]) ahead ∧
        if e.inumber = 0 then answer = .inl it' ∧ it'.entry = 0
        else ∃ v, answer = .inr (.entry it' 0 v) ∧ StopsAt d w' wantInode it' 0 v passed e := by
  obtain ⟨-, hplace⟩ | ⟨hone, -⟩ := hahead.place
  swap
  · rw [hentry] at hone
    exact absurd hone (by decide)
  have hdir := hahead.dir
  have hlt : it.iblock.toNat < (passed ++ e :: ahead).length := by
    rw [List.length_append, List.length_cons, hplace]
    omega
  have hin : ¬ it.iblock * 512 ≥ it.inode.size := by
    rw [hahead.inode, hdir.past_iff (Nat.le_of_lt hlt)]
    omega
  rw [iternextStep, if_neg hin]
  dsimp only
  rw [if_pos hentry]
  have hinumber : it.inode.inumber = d := by
    rw [hahead.inode, hdir.inumber]
  refine (hR.blockRead_ensures h hinumber (hdir.lt_mapped hlt) it.cachedBlock).bind ?_
  rintro _ fs₁ ⟨rfl, h₁⟩
  rw [if_neg (by simp)]
  refine (hR.time_ensures h₁).bind fun t fs₂ h₂ => ?_
  refine (hR.writeInode_ensures h₂ (v := { it.inode with accessTime := t })
    (by rw [hinumber]; exact hdir.valid)).bind ?_
  rintro _ fs₃ ⟨rfl, h₃⟩
  rw [if_neg (by simp), hentry]
  have haccess : Accessed d w (w.setInode { it.inode with accessTime := t }) := by
    rw [hahead.inode]
    exact Accessed.setInode w hdir.inumber t
  have hself : (w.setInode { it.inode with accessTime := t }).table d =
      { it.inode with accessTime := t } := by
    rw [← hinumber]
    exact View.setInode_table_self w { it.inode with accessTime := t }
  have hfreed : (w.setInode { it.inode with accessTime := t }).freed = w.freed := rfl
  have hfiles : (w.setInode { it.inode with accessTime := t }).files = w.files := rfl
  generalize w.setInode { it.inode with accessTime := t } = w' at h₃ haccess hself hfreed hfiles
  have hdir' : Directory d w' (passed ++ [e] ++ ahead) := by
    rw [List.append_assoc]
    exact haccess.directory hdir
  have hslot : Block.dirEntry (w.files.blocks d it.iblock) 0 = e := by
    rw [Directory.dirEntry_block, hplace]
    exact hdir.slot_mid
  have hfind := findEntry_zero (w.files.blocks d it.iblock)
  rw [hslot] at hfind
  have hmapped := hdir.mapped
  unfold mappedBlocks at hmapped
  have hnat : (0 : UInt64).toNat = 0 := rfl
  rw [hnat, hfind]
  by_cases he : e.inumber = 0
  · rw [if_neg (not_not.mpr he)]
    refine Run.ensures_pure ⟨w', ⟨{ it.inode with accessTime := t }, it.iblock + 1, 0,
      w.files.blocks d it.iblock⟩, haccess, hfreed, h₃, ⟨hdir', hself.symm, Or.inl ⟨rfl, ?_⟩⟩, ?_⟩
    · show (it.iblock + 1).toNat = _
      rw [UInt64.toNat_add, List.length_append, List.length_singleton, hplace]
      show (passed.length + 1) % 2 ^ 64 = _
      omega
    · rw [if_pos he]
      exact ⟨rfl, rfl⟩
  · have hahead' : Ahead d w' ⟨{ it.inode with accessTime := t }, it.iblock, 1,
        w.files.blocks d it.iblock⟩ (passed ++ [e]) ahead :=
      ⟨hdir', hself.symm, Or.inr ⟨rfl, by simp [hplace]⟩⟩
    have hstops : StopsAt d w' wantInode ⟨{ it.inode with accessTime := t }, it.iblock, 1,
        w.files.blocks d it.iblock⟩ 0 (if wantInode then w'.table e.inumber else Inode.zero)
        passed e :=
      ⟨he, rfl, hplace, by rw [hfiles], hslot, rfl⟩
    rw [if_pos he]
    cases wantInode with
    | false =>
      refine Run.ensures_pure ⟨w', _, haccess, hfreed, h₃, hahead', ?_⟩
      rw [if_neg he]
      exact ⟨_, rfl, hstops⟩
    | true =>
      dsimp only
      rw [if_pos rfl, hslot]
      refine (hR.readInode_ensures h₃ (haccess.valid (hvalid rfl he))).bind ?_
      rintro _ fs₄ ⟨rfl, h₄⟩
      refine Run.ensures_pure ⟨w', _, haccess, hfreed, h₄, hahead', ?_⟩
      rw [if_neg he]
      exact ⟨_, rfl, hstops⟩

/-- From a slot whose block has not been read. -/
theorem iternextLoop_ensures (hR : Serves L R) (h : R fs w) (hahead : Ahead d w it passed ahead)
    (hentry : it.entry = 0)
    (hvalid : wantInode = true → ∀ e ∈ ahead, e.inumber ≠ 0 → w.Valid e.inumber) {n : ℕ}
    (hn : ahead.length < n) :
    Run.Ensures (Run.loop (iternextStep L wantInode) n it) fs
      (NextPost R d w wantInode passed ahead) := by
  induction ahead generalizing fs w it passed n with
  | nil =>
    obtain ⟨n, rfl⟩ := Nat.exists_eq_add_one_of_ne_zero (Nat.ne_of_gt hn)
    rw [Run.loop]
    refine (iternextStep_end hR h hahead hentry).bind ?_
    rintro _ fs' ⟨rfl, h'⟩
    exact Run.ensures_pure ⟨w.released, (Accessed.refl w).released, h', rfl,
      fun e he => absurd he List.not_mem_nil⟩
  | cons e ahead ih =>
    obtain ⟨n, rfl⟩ := Nat.exists_eq_add_one_of_ne_zero (Nat.ne_of_gt (Nat.zero_lt_of_lt hn))
    rw [Run.loop]
    refine (iternextStep_slot hR h hahead hentry fun hwant =>
      hvalid hwant e List.mem_cons_self).bind ?_
    rintro answer fs₁ ⟨w₁, it₁, haccess, hfreed, h₁, hahead₁, hanswer⟩
    by_cases he : e.inumber = 0
    · rw [if_pos he] at hanswer
      obtain ⟨rfl, hentry₁⟩ := hanswer
      -- an unused slot is passed over
      refine (ih h₁ hahead₁ hentry₁ (fun hwant d hd hd0 => haccess.valid
        (hvalid hwant d (List.mem_cons_of_mem e hd) hd0)) (Nat.lt_of_succ_lt_succ hn)).mono ?_
      rintro answer fs₂ ⟨w₂, haccess₂, h₂, hpost⟩
      refine ⟨w₂, haccess.trans haccess₂, h₂, ?_⟩
      cases answer with
      | stop directory =>
        refine ⟨hpost.1, fun d hd => ?_⟩
        rcases List.mem_cons.mp hd with rfl | hd
        · exact he
        · exact hpost.2 d hd
      | entry it₂ j v =>
        obtain ⟨hfreed₂, unused, e', ahead', rfl, hunused, hstops, hahead₂⟩ := hpost
        have hassoc : passed ++ [e] ++ unused = passed ++ e :: unused := by simp
        rw [hassoc] at hstops hahead₂
        refine ⟨hfreed₂.trans hfreed, e :: unused, e', ahead', rfl, fun d hd => ?_, hstops, hahead₂⟩
        rcases List.mem_cons.mp hd with rfl | hd
        · exact he
        · exact hunused d hd
    · rw [if_neg he] at hanswer
      obtain ⟨v, rfl, hstops⟩ := hanswer
      refine Run.ensures_pure ⟨w₁, haccess, h₁, hfreed, [], e, ahead, rfl,
        fun d hd => absurd hd List.not_mem_nil, ?_, ?_⟩
      · rw [List.append_nil]
        exact hstops
      · rw [List.append_nil]
        exact hahead₁

/-- **`sfs_dir_iternext`** goes on to the next slot in use. -/
theorem sfsDirIternext_ensures (hR : Serves L R) (h : R fs w) (hahead : Ahead d w it passed ahead)
    (hvalid : wantInode = true → ∀ e ∈ ahead, e.inumber ≠ 0 → w.Valid e.inumber) :
    Run.Ensures (sfsDirIternext L wantInode it) fs
      (NextPost R d w wantInode passed ahead) := by
  have hmapped := hahead.dir.mapped
  rw [List.length_append] at hmapped
  unfold mappedBlocks at hmapped
  rw [sfsDirIternext]
  obtain ⟨hentry, -⟩ | ⟨hentry, -⟩ := hahead.place
  · exact iternextLoop_ensures hR h hahead hentry hvalid (by unfold loopBound; omega)
  · have hbound : loopBound = (loopBound - 1) + 1 := rfl
    rw [hbound, Run.loop]
    refine (iternextStep_past h hahead hentry).bind ?_
    rintro _ fs₁ ⟨h₁, it₁, rfl, hentry₁, hahead₁⟩
    exact iternextLoop_ensures hR h₁ hahead₁ hentry₁ hvalid (by unfold loopBound; omega)

/-! ## The search for a name -/

theorem strncmp256_iff (stored : Fin 256 → UInt8) (hname : name.length ≤ 255) :
    strncmp256 stored name = true ↔ cString stored = name := by
  rw [strncmp256, beq_iff_eq, List.take_of_length_le (by omega)]

/-- What a search answers. -/
def SearchPost (R : Filesystem DirFiles → View → Prop) (d : UInt64) (w : View) (name : CString)
    (passed ahead : List DirEntry) (answer : Search)
    (fs' : Filesystem DirFiles) : Prop :=
  ∃ w', Accessed d w w' ∧ R fs' w' ∧
    match answer with
    | .stop directory => directory = w'.table d ∧
        ∀ e ∈ ahead, e.inumber ≠ 0 → cString e.name ≠ name
    | .found it j => w'.freed = w.freed ∧ it.inode = w'.table d ∧ ∃ before e after,
        ahead = before ++ e :: after ∧ cString e.name = name ∧
        StopsAt d w' false it j Inode.zero (passed ++ before) e

theorem searchLoop_ensures (hR : Serves L R) (h : R fs w) (hahead : Ahead d w it passed ahead)
    (hname : name.length ≤ 255) {n : ℕ} (hn : ahead.length < n) :
    Run.Ensures (Run.loop (searchStep L name) n it) fs
      (SearchPost R d w name passed ahead) := by
  -- one iteration passes at least the slot that it stops at
  induction n generalizing fs w it passed ahead with
  | zero => exact absurd hn (Nat.not_lt_zero _)
  | succ n ih =>
    rw [Run.loop, searchStep, Run.bind_assoc']
    refine (sfsDirIternext_ensures hR h hahead fun hwant => absurd hwant (by decide)).bind ?_
    rintro answer fs₁ ⟨w₁, haccess, h₁, hpost⟩
    cases answer with
    | stop directory =>
      obtain ⟨hdirectory, hunused⟩ := hpost
      exact Run.ensures_pure ⟨w₁, haccess, h₁, hdirectory, fun e he hne =>
        absurd (hunused e he) hne⟩
    | entry it₁ j v =>
      obtain ⟨hfreed, unused, e, ahead', rfl, hunused, hstops, hahead₁⟩ := hpost
      have hv : v = Inode.zero := hstops.inode
      subst hv
      dsimp only
      rw [hstops.entry]
      by_cases hfound : cString e.name = name
      · rw [if_pos ((strncmp256_iff e.name hname).mpr hfound)]
        exact Run.ensures_pure ⟨w₁, haccess, h₁, hfreed, hahead₁.inode, unused, e, ahead', rfl,
          hfound, hstops⟩
      · rw [if_neg fun hcmp => hfound ((strncmp256_iff e.name hname).mp hcmp)]
        have hlt : ahead'.length < n := by
          rw [List.length_append, List.length_cons] at hn
          omega
        refine (ih h₁ hahead₁ hlt).mono ?_
        rintro answer fs₂ ⟨w₂, haccess₂, h₂, hpost⟩
        refine ⟨w₂, haccess.trans haccess₂, h₂, ?_⟩
        cases answer with
        | stop directory =>
          refine ⟨hpost.1, fun d hd hd0 => ?_⟩
          rcases List.mem_append.mp hd with hd | hd
          · exact absurd (hunused d hd) hd0
          rcases List.mem_cons.mp hd with rfl | hd
          · exact hfound
          · exact hpost.2 d hd hd0
        | found it₂ j =>
          obtain ⟨hfreed₂, hinode, before, e', after, rfl, hname', hstops₂⟩ := hpost
          refine ⟨hfreed₂.trans hfreed, hinode, unused ++ e :: before, e', after, by simp,
            hname', ?_⟩
          simpa using hstops₂

/-- A new iterator has all slots ahead. -/
theorem Ahead.fresh (hdir : Directory d w slots) (block : Block) :
    Ahead d w ⟨w.table d, 0, 0, block⟩ [] slots :=
  ⟨hdir, rfl, Or.inl ⟨rfl, rfl⟩⟩

/-- **The search** finds the name if a slot in use has it. -/
theorem search_ensures (hR : Serves L R) (h : R fs w) (hahead : Ahead d w it [] slots)
    (hname : name.length ≤ 255) :
    Run.Ensures (search L name it) fs (SearchPost R d w name [] slots) := by
  have hmapped := hahead.dir.mapped
  unfold mappedBlocks at hmapped
  rw [List.nil_append] at hmapped
  exact searchLoop_ensures hR h hahead hname (by unfold loopBound; omega)

end Iteration

/-! ## The root directory -/

/-- **The root directory has these slots.** -/
abbrev RootDir := Directory 1

section Root

variable {fs : Filesystem DirFiles} {w : View} {slots : List DirEntry}

/-- `sfs_dir_root` -/
theorem sfsDirRoot_ensures (h : Shows fs w) (hroot : RootDir w slots) :
    Run.Ensures (sfsDirRoot : Fs DirFiles (Option Inode)) fs fun answer fs' =>
      answer = some (w.table 1) ∧ Shows fs' w :=
  h.readInode_ensures hroot.valid

/-- A new iterator, if there is memory for it. -/
theorem sfsDirIterate_run {F : Type} (fs : Filesystem F) {v : Inode}
    (hdir : v.mode &&& sIfdir ≠ 0) : (sfsDirIterate v).run fs =
      .done (if fs.host.mallocs 0 then some ⟨v, 0, 0, Block.zero⟩ else none) fs.malloced := by
  rw [sfsDirIterate, decide_eq_true hdir, Run.assert_true, Run.pure_bind', Run.run_bind, malloc_run,
    Run.andThen_done]
  cases fs.host.mallocs 0 with
  | false => rfl
  | true => rfl

/-- `sfs_dir_iterate` of the root directory. -/
theorem sfsDirIterate_ensures (h : Shows fs w) (hroot : RootDir w slots) :
    Run.Ensures (sfsDirIterate (w.table 1)) fs fun answer fs' =>
      Shows fs' w ∧ ∃ it, answer = some it ∧ Ahead 1 w it [] slots := by
  have hmalloced := (h.malloc_ensures.post (malloc_run fs)).2
  refine Run.Ensures.of_eq (sfsDirIterate_run fs hroot.directory)
    ⟨hmalloced, _, if_pos (h.memory 0), ?_⟩
  exact Ahead.fresh hroot _

end Root

end SimpleFileSystem
