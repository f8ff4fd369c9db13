import SimpleFileSystem.Directories

/-!
# Adding and removing entries

`sfs_dir_link` and `sfs_dir_iter_unlink`, of any directory and on anything that serves
it.  `Fills` is how the first changes the slots: the first unused one gets the entry, or,
if there is none, the directory gets another slot at the end.  What the second does to
the inode that it takes a link from is left to its caller, in whose hands the
deallocation is.
-/

namespace SimpleFileSystem

/-- The directory was written, with the same number of links. -/
structure DirTouched (d : UInt64) (w w' : View) : Prop where
  inodes : w'.inodes = w.inodes
  links : (w'.table d).links = (w.table d).links
  others : ∀ j, j ≠ d → w'.table j = w.table j
  head : w'.head = w.head
  deallocated : w'.files.deallocated = w.files.deallocated

namespace DirTouched

variable {d k : UInt64} {w w' w'' : View}

theorem refl (d : UInt64) (w : View) : DirTouched d w w :=
  ⟨rfl, rfl, fun _ _ => rfl, rfl, rfl⟩

theorem trans (h : DirTouched d w w') (h' : DirTouched d w' w'') : DirTouched d w w'' where
  inodes := h'.inodes.trans h.inodes
  links := h'.links.trans h.links
  others j hj := (h'.others j hj).trans (h.others j hj)
  head := h'.head.trans h.head
  deallocated := h'.deallocated.trans h.deallocated

theorem valid (h : DirTouched d w w') (hk : w.Valid k) : w'.Valid k :=
  hk.congr h.inodes

theorem setBlock (w : View) (i : UInt64) (block : Block) :
    DirTouched d w (w.setBlock d i block) :=
  ⟨rfl, rfl, fun _ _ => rfl, rfl, rfl⟩

end DirTouched

theorem Accessed.touched {d : UInt64} {w w' : View} (h : Accessed d w w') :
    DirTouched d w w' where
  inodes := h.inodes
  links := by
    obtain ⟨t, ht⟩ := h.self
    rw [ht]
  others _ hj := h.table_of_ne hj
  head := h.head
  deallocated := by rw [h.files]

/-- **The directory was left alone.** -/
structure Apart (d : UInt64) (w w' : View) : Prop where
  inodes : w'.inodes = w.inodes
  self : w'.table d = w.table d
  blocks : w'.files.blocks d = w.files.blocks d

theorem Apart.directory {d : UInt64} {w w' : View} {slots : List DirEntry} (h : Apart d w w')
    (hdir : Directory d w slots) : Directory d w' slots where
  valid := hdir.valid.congr h.inodes
  inumber := by rw [h.self]; exact hdir.inumber
  directory := by rw [h.self]; exact hdir.directory
  size := by rw [h.self]; exact hdir.size
  mapped := hdir.mapped
  slot j hj := by
    rw [View.slot, h.blocks]
    exact hdir.slot j hj

theorem Apart.setInode {d : UInt64} (w : View) {v : Inode} (hv : v.inumber ≠ d) :
    Apart d w (w.setInode v) :=
  ⟨rfl, View.setInode_table_of_ne (Ne.symm hv), rfl⟩

section Entries

variable {L : InodeLayer DirFiles} {R R' : Filesystem DirFiles → View → Prop}
  {fs : Filesystem DirFiles} {w : View} {d i : UInt64} {slots passed ahead A B : List DirEntry}
  {e x : DirEntry} {it : DirIterator} {v : Inode} {name : CString}

/-- A write of the inode of the directory that keeps its place in the tree. -/
theorem Serves.writeDir (hR : Serves L R) (h : R fs w) (hdir : Directory d w slots)
    (hv : v.inumber = d) (hmode : v.mode = (w.table d).mode) (hsize : v.size = (w.table d).size)
    (hlinks : v.links = (w.table d).links) :
    Run.Ensures (sfsFsWriteInode v) fs fun ret fs' => ret = 0 ∧ R fs' (w.setInode v) ∧
      Directory d (w.setInode v) slots ∧ DirTouched d w (w.setInode v) ∧
        (w.setInode v).table d = v := by
  have hself : (w.setInode v).table d = v := by
    rw [← hv]
    exact View.setInode_table_self w v
  refine (hR.writeInode_ensures h (by rw [hv]; exact hdir.valid)).mono ?_
  rintro _ fs' ⟨rfl, h'⟩
  refine ⟨rfl, h', hdir.congr rfl rfl ?_ ?_ ?_, ⟨rfl, ?_, fun i hi => ?_, rfl, rfl⟩, hself⟩
  · rw [hself]
    exact hv
  · rw [hself]
    exact hmode
  · rw [hself]
    exact hsize
  · rw [hself]
    exact hlinks
  · exact View.setInode_table_of_ne (by rw [hv]; exact hi)

/-! ## Removing an entry -/

/-- The inode that a removal writes. -/
def Inode.unlinked (v : Inode) (t : UInt64) : Inode :=
  { v with links := v.links - 1, changeTime := t }

theorem unlinked_links_eq_zero_iff (v : Inode) (t : UInt64) :
    (v.unlinked t).links = 0 ↔ v.links = 1 := by
  show v.links - 1 = 0 ↔ v.links = 1
  grind

/-- What `sfs_dir_iter_unlink` answers and does, once `P` has become of the inode: it
empties the slot. -/
def UnlinkPost (R : Filesystem DirFiles → View → Prop) (d : UInt64) (P : View → Prop)
    (it : DirIterator) (A B : List DirEntry) (answer : ℤ × DirIterator)
    (fs' : Filesystem DirFiles) : Prop :=
  answer.1 = 0 ∧ answer.2.entry = it.entry ∧ answer.2.iblock = it.iblock ∧
    ∃ w₁ w' e', P w₁ ∧ DirTouched d w₁ w' ∧ R fs' w' ∧ answer.2.inode = w'.table d ∧
      e'.inumber = 0 ∧ Directory d w' (A ++ e' :: B)

/-- **`sfs_dir_iter_unlink`** takes a link from the inode and empties the slot.  The removal of
the link may change what is conserved. -/
theorem Serves.sfsDirIterUnlink_ensures (hR : Serves L R) (hR' : Serves L R') (h : R fs w)
    (hdir : Directory d w (A ++ e :: B)) (hit : it.inode = w.table d)
    (hiblock : it.iblock.toNat = A.length) (hentry : Block.dirEntry it.cachedBlock 0 = e)
    (hk : w.Valid e.inumber)
    (hinumber : (w.table e.inumber).inumber = e.inumber) (hkd : e.inumber ≠ d) {P : View → Prop}
    (hlast : (w.table e.inumber).links = 1 → ∀ fs₁ t fs₂,
      (sfsFsReadInode e.inumber).run fs = .done (some (w.table e.inumber)) fs₁ →
      (time : Fs DirFiles UInt64).run fs₁ = .done t fs₂ → R fs₂ w →
      Run.Ensures (L.deallocate ((w.table e.inumber).unlinked t)) fs₂ fun ret fs' =>
        ret = 0 ∧ ∃ w₁, R' fs' w₁ ∧ Apart d w w₁ ∧ P w₁)
    (hother : (w.table e.inumber).links ≠ 1 → ∀ t fs',
      R fs' (w.setInode ((w.table e.inumber).unlinked t)) →
        R' fs' (w.setInode ((w.table e.inumber).unlinked t)) ∧
          P (w.setInode ((w.table e.inumber).unlinked t))) :
    Run.Ensures (sfsDirIterUnlink L it 0) fs (UnlinkPost R' d P it A B) := by
  rw [sfsDirIterUnlink, hentry]
  refine (hR.readInode_ensures h hk).runs.bind ?_
  rintro _ fs₁ ⟨hread, rfl, h₁⟩
  refine (hR.time_ensures h₁).runs.bind ?_
  rintro t fs₂ ⟨htime, h₂⟩
  dsimp -zeta only
  extract_lets inode directory rest
  have hinode : inode = (w.table e.inumber).unlinked t := rfl
  clear_value inode
  subst hinode
  -- what follows the removal of the link
  have hrest : ∀ fs₃ w₃, R' fs₃ w₃ → Apart d w w₃ → P w₃ →
      Run.Ensures (rest ()) fs₃ (UnlinkPost R' d P it A B) := by
    intro fs₃ w₃ h₃ hapart hP
    have hdir₃ := hapart.directory hdir
    have hdirectory : directory = w₃.table d := hit.trans hapart.self.symm
    refine (hR'.time_ensures h₃).bind fun t' fs₄ h₄ => ?_
    dsimp only
    refine (hR'.writeDir h₄ hdir₃ (v := { directory with modifiedTime := t' })
      (by rw [hdirectory]; exact hdir₃.inumber) (by rw [hdirectory]) (by rw [hdirectory])
      (by rw [hdirectory])).bind ?_
    rintro _ fs₅ ⟨rfl, h₅, hdir₅, htouched, hself⟩
    have hnumber : directory.inumber = d := by
      rw [hdirectory]
      exact hdir₃.inumber
    rw [if_neg (by simp)]
    have hlength : it.iblock.toNat < (A ++ e :: B).length := by
      rw [hiblock, List.length_append, List.length_cons]
      omega
    refine (hR'.blockWrite_ensures h₅ (v := { directory with modifiedTime := t' }) hnumber
      (hdir₅.lt_mapped hlength) _).bind ?_
    rintro _ fs₆ ⟨rfl, h₆⟩
    exact Run.ensures_pure ⟨rfl, rfl, rfl, w₃, _,
      Block.dirEntry (it.cachedBlock.setDirInumber 0 0) 0, hP,
      htouched.trans (DirTouched.setBlock _ _ _), h₆, hself.symm,
      Block.dirEntry_setDirInumber_inumber _ _, hdir₅.setBlock hiblock rfl⟩
  by_cases hzero : ((w.table e.inumber).unlinked t).links = 0
  · rw [if_pos hzero]
    refine (hlast ((unlinked_links_eq_zero_iff _ _).mp hzero) fs₁ t fs₂ hread htime h₂).bind ?_
    rintro _ fs₃ ⟨rfl, w₃, h₃, hapart, hP⟩
    rw [if_neg (by simp)]
    exact hrest fs₃ w₃ h₃ hapart hP
  · rw [if_neg hzero]
    have hnumber : ((w.table e.inumber).unlinked t).inumber = e.inumber := hinumber
    refine (hR.writeInode_ensures h₂ (by rw [hnumber]; exact hk)).bind ?_
    rintro _ fs₃ ⟨rfl, h₃⟩
    rw [if_neg (by simp)]
    obtain ⟨h₃', hP⟩ := hother (fun hone => hzero ((unlinked_links_eq_zero_iff _ _).mpr hone))
      t fs₃ h₃
    exact hrest fs₃ _ h₃' (Apart.setInode w (by rw [hnumber]; exact hkd)) hP

/-! ## Adding an entry -/

/-- **How an entry is added**: to the first unused slot, or to a new one. -/
inductive Fills (e : DirEntry) : List DirEntry → List DirEntry → Prop where
  | reuse (A B : List DirEntry) {x : DirEntry} (used : ∀ c ∈ A, c.inumber ≠ 0)
      (unused : x.inumber = 0) : Fills e (A ++ x :: B) (A ++ e :: B)
  | grow (slots : List DirEntry) (used : ∀ c ∈ slots, c.inumber ≠ 0) :
      Fills e slots (slots ++ [e])

/-- The inode that `sfs_dir_link` writes. -/
def Inode.linked (v : Inode) (t : UInt64) : Inode :=
  { v with links := v.links + 1, changeTime := t }

/-- The entry that is added. -/
def newEntry (k : UInt64) (name : CString) : DirEntry :=
  ⟨k, strncpy256 name⟩

/-- What `sfs_dir_link` answers and does: it adds the entry and a link, or every slot that
the directory may have is in use. -/
def LinkPost (R : Filesystem DirFiles → View → Prop) (d : UInt64) (w : View)
    (slots : List DirEntry) (v : Inode) (e : DirEntry) (answer : ℤ × Inode × Inode)
    (fs' : Filesystem DirFiles) : Prop :=
  (answer.1 = 0 ∧ ∃ w₁ slots' t, DirTouched d w w₁ ∧ Directory d w₁ slots' ∧
    Fills e slots slots' ∧ R fs' (w₁.setInode (v.linked t)) ∧ answer.2.1 = w₁.table d) ∨
  (answer.1 = -1 ∧ R fs' w ∧ slots.length = mappedBlocks ∧ (∀ x ∈ slots, x.inumber ≠ 0) ∧
    answer.2.1 = w.table d)

theorem toNat_size_div (h : Directory d w slots) :
    ((w.table d).size / 512).toNat = slots.length := by
  rw [UInt64.toNat_div, h.size]
  exact Nat.mul_div_cancel_left _ (by decide)

/-- At an unused slot. -/
theorem dirLinkStep_reuse (hR : Serves L R) (h : R fs w)
    (hdir : Directory d w (passed ++ x :: ahead)) (hi : i.toNat = passed.length)
    (hused : ∀ c ∈ passed, c.inumber ≠ 0) (hx : x.inumber = 0) (hk : w.Valid v.inumber) :
    Run.Ensures (dirLinkStep L name v (w.table d) i) fs fun answer fs' =>
      ∃ r, answer = .inr r ∧
        LinkPost R d w (passed ++ x :: ahead) v (newEntry v.inumber name) r fs' := by
  have hlength : i.toNat < (passed ++ x :: ahead).length := by
    rw [hi, List.length_append, List.length_cons]
    omega
  have hlt : i < (w.table d).size / 512 := by
    rw [UInt64.lt_iff_toNat_lt, toNat_size_div hdir]
    exact hlength
  have hslot : Block.dirEntry (w.files.blocks d i) 0 = x := by
    rw [Directory.dirEntry_block, hi]
    exact hdir.slot_mid
  rw [dirLinkStep, if_pos hlt]
  refine (hR.blockRead_ensures h hdir.inumber (hdir.lt_mapped hlength) _).bind ?_
  rintro _ fs₁ ⟨rfl, h₁⟩
  dsimp only
  rw [if_neg (by simp), findUnused_eq, hslot, if_pos hx]
  dsimp only
  refine (hR.blockWrite_ensures h₁ hdir.inumber (hdir.lt_mapped hlength) _).bind ?_
  rintro _ fs₂ ⟨rfl, h₂⟩
  dsimp only
  rw [if_neg (by simp)]
  have hdir₂ : Directory d (w.setBlock d i ((w.files.blocks d i).setDirEntry 0
      ⟨v.inumber, strncpy256 name⟩)) (passed ++ newEntry v.inumber name :: ahead) := by
    refine hdir.setBlock hi ?_
    rw [Block.dirEntry_setDirEntry]
    rfl
  have htouched₂ : DirTouched d w (w.setBlock d i ((w.files.blocks d i).setDirEntry 0
      ⟨v.inumber, strncpy256 name⟩)) := DirTouched.setBlock _ _ _
  have htable : ∀ j, (w.setBlock d i ((w.files.blocks d i).setDirEntry 0
      ⟨v.inumber, strncpy256 name⟩)).table j = w.table j := fun _ => rfl
  generalize w.setBlock d i _ = w₂ at h₂ hdir₂ htouched₂ htable
  refine (hR.time_ensures h₂).bind fun t fs₃ h₃ => ?_
  refine (hR.writeDir h₃ hdir₂ (v := { w.table d with modifiedTime := t }) hdir.inumber
    (by rw [htable]) (by rw [htable]) (by rw [htable])).bind ?_
  rintro _ fs₄ ⟨rfl, h₄, hdir₄, htouched₄, hself⟩
  rw [if_neg (by simp)]
  generalize w₂.setInode _ = w₄ at h₄ hdir₄ htouched₄ hself
  have htouched := htouched₂.trans htouched₄
  refine (hR.writeInode_ensures h₄ (v := v.linked t) (htouched.valid hk)).bind ?_
  rintro _ fs₅ ⟨rfl, h₅⟩
  rw [if_neg (by simp)]
  exact Run.ensures_pure ⟨_, rfl, Or.inl ⟨rfl, w₄, _, t, htouched, hdir₄,
    Fills.reuse passed ahead hused hx, h₅, hself.symm⟩⟩

/-- Past the last slot, if the directory may have another. -/
theorem dirLinkStep_grow (hR : Serves L R) (h : R fs w) (hdir : Directory d w slots)
    (hi : i.toNat = slots.length) (hused : ∀ c ∈ slots, c.inumber ≠ 0)
    (hmapped : slots.length < mappedBlocks) (hk : w.Valid v.inumber) :
    Run.Ensures (dirLinkStep L name v (w.table d) i) fs fun answer fs' =>
      ∃ r, answer = .inr r ∧ LinkPost R d w slots v (newEntry v.inumber name) r fs' := by
  have hsize := toNat_size_div hdir
  have hend : ¬ i < (w.table d).size / 512 := by
    rw [UInt64.lt_iff_toNat_lt, hsize, hi]
    exact Nat.lt_irrefl _
  rw [dirLinkStep, if_neg hend]
  dsimp only
  refine (hR.blockWrite_ensures h hdir.inumber
    (mapped_iff.mpr (by rw [hsize]; exact hmapped)) _).bind ?_
  rintro _ fs₁ ⟨rfl, h₁⟩
  dsimp only
  rw [if_neg (by simp)]
  refine (hR.time_ensures h₁).bind fun t fs₂ h₂ => ?_
  generalize hdirectory : ({ w.table d with
    size := (w.table d).size + 512, modifiedTime := t } : Inode) = directory
  have hnumber : directory.inumber = d := by
    rw [← hdirectory]
    exact hdir.inumber
  have hself : ∀ w' : View, (w'.setInode directory).table d = directory := fun w' => by
    rw [← hnumber]
    exact View.setInode_table_self w' directory
  refine (hR.writeInode_ensures h₂ (v := directory)
    (by rw [hnumber]; exact hdir.valid.congr rfl)).bind ?_
  rintro _ fs₃ ⟨rfl, h₃⟩
  rw [if_neg (by simp)]
  have hblock : Block.dirEntry (Block.zero.setDirEntry 0 ⟨v.inumber, strncpy256 name⟩) 0 =
      newEntry v.inumber name := by
    rw [Block.dirEntry_setDirEntry]
    rfl
  have hdir₃ := hdir.push hmapped hsize hblock hnumber (by rw [← hdirectory])
    (by rw [← hdirectory])
  have htouched : DirTouched d w ((w.setBlock d ((w.table d).size / 512)
      (Block.zero.setDirEntry 0 ⟨v.inumber, strncpy256 name⟩)).setInode directory) := by
    refine ⟨rfl, ?_, fun j hj => ?_, rfl, rfl⟩
    · rw [hself, ← hdirectory]
    · exact View.setInode_table_of_ne (by rw [hnumber]; exact hj)
  have hself₃ := hself (w.setBlock d ((w.table d).size / 512)
    (Block.zero.setDirEntry 0 ⟨v.inumber, strncpy256 name⟩))
  generalize (w.setBlock d _ _).setInode directory = w₃ at h₃ hdir₃ htouched hself₃
  refine (hR.time_ensures h₃).bind fun t' fs₄ h₄ => ?_
  refine (hR.writeInode_ensures h₄ (v := v.linked t') (htouched.valid hk)).bind ?_
  rintro _ fs₅ ⟨rfl, h₅⟩
  rw [if_neg (by simp)]
  exact Run.ensures_pure ⟨_, rfl, Or.inl ⟨rfl, w₃, _, t', htouched, hdir₃,
    Fills.grow slots hused, h₅, hself₃.symm⟩⟩

/-- Past the last slot that the directory may have. -/
theorem dirLinkStep_full (hR : Serves L R) (h : R fs w) (hdir : Directory d w slots)
    (hi : i.toNat = slots.length) (hfull : slots.length = mappedBlocks)
    (hused : ∀ c ∈ slots, c.inumber ≠ 0) :
    Run.Ensures (dirLinkStep L name v (w.table d) i) fs fun answer fs' =>
      ∃ r, answer = .inr r ∧ LinkPost R d w slots v (newEntry v.inumber name) r fs' := by
  have hsize := toNat_size_div hdir
  have hend : ¬ i < (w.table d).size / 512 := by
    rw [UInt64.lt_iff_toNat_lt, hsize, hi]
    exact Nat.lt_irrefl _
  have hpast : ¬ (w.table d).size / 512 < sfsNdirBlocks + sfsNindBlocks := by
    rw [mapped_iff, hsize, hfull]
    exact Nat.lt_irrefl _
  rw [dirLinkStep, if_neg hend]
  dsimp only
  refine Run.Ensures.bind (P := fun answer fs' => answer = (-1, w.table d) ∧ fs' = fs)
    ⟨_, _, hR.blockWrite_past fs (w.table d) hpast _, rfl, rfl⟩ ?_
  rintro _ _ ⟨rfl, rfl⟩
  dsimp only
  rw [if_pos (by decide)]
  exact Run.ensures_pure ⟨_, rfl, Or.inr ⟨rfl, h, hfull, hused, rfl⟩⟩

/-- A slot in use is passed over. -/
theorem dirLinkStep_next (hR : Serves L R) (h : R fs w)
    (hdir : Directory d w (passed ++ x :: ahead)) (hi : i.toNat = passed.length)
    (hx : x.inumber ≠ 0) :
    Run.Ensures (dirLinkStep L name v (w.table d) i) fs fun answer fs' =>
      answer = .inl (i + 1) ∧ R fs' w := by
  have hlength : i.toNat < (passed ++ x :: ahead).length := by
    rw [hi, List.length_append, List.length_cons]
    omega
  have hlt : i < (w.table d).size / 512 := by
    rw [UInt64.lt_iff_toNat_lt, toNat_size_div hdir]
    exact hlength
  have hslot : Block.dirEntry (w.files.blocks d i) 0 = x := by
    rw [Directory.dirEntry_block, hi]
    exact hdir.slot_mid
  rw [dirLinkStep, if_pos hlt]
  refine (hR.blockRead_ensures h hdir.inumber (hdir.lt_mapped hlength) _).bind ?_
  rintro _ fs₁ ⟨rfl, h₁⟩
  dsimp only
  rw [if_neg (by simp), findUnused_eq, hslot, if_neg hx]
  exact Run.ensures_pure ⟨rfl, h₁⟩

theorem dirLinkLoop_ensures (hR : Serves L R) (h : R fs w)
    (hdir : Directory d w (passed ++ ahead)) (hi : i.toNat = passed.length)
    (hused : ∀ c ∈ passed, c.inumber ≠ 0) (hk : w.Valid v.inumber) {n : ℕ}
    (hn : ahead.length < n) :
    Run.Ensures (Run.loop (dirLinkStep L name v (w.table d)) n i) fs
      (LinkPost R d w (passed ++ ahead) v (newEntry v.inumber name)) := by
  induction ahead generalizing fs i passed n with
  | nil =>
    obtain ⟨n, rfl⟩ := Nat.exists_eq_add_one_of_ne_zero (Nat.ne_of_gt hn)
    rw [List.append_nil] at hdir ⊢
    have hstep : Run.Ensures (dirLinkStep L name v (w.table d) i) fs fun answer fs' =>
        ∃ r, answer = .inr r ∧ LinkPost R d w passed v (newEntry v.inumber name) r fs' := by
      rcases Nat.lt_or_eq_of_le hdir.mapped with hlt | hfull
      · exact dirLinkStep_grow hR h hdir hi hused hlt hk
      · exact dirLinkStep_full hR h hdir hi hfull hused
    rw [Run.loop]
    refine hstep.bind ?_
    rintro _ fs' ⟨r, rfl, hpost⟩
    exact Run.ensures_pure hpost
  | cons x ahead ih =>
    obtain ⟨n, rfl⟩ := Nat.exists_eq_add_one_of_ne_zero (Nat.ne_of_gt (Nat.zero_lt_of_lt hn))
    rw [Run.loop]
    by_cases hx : x.inumber = 0
    · refine (dirLinkStep_reuse hR h hdir hi hused hx hk).bind ?_
      rintro _ fs' ⟨r, rfl, hpost⟩
      exact Run.ensures_pure hpost
    · refine (dirLinkStep_next hR h hdir hi hx).bind ?_
      rintro _ fs₁ ⟨rfl, h₁⟩
      have hmapped := hdir.mapped
      rw [List.length_append, List.length_cons] at hmapped
      unfold mappedBlocks at hmapped
      have hassoc : passed ++ x :: ahead = passed ++ [x] ++ ahead := by simp
      rw [hassoc] at hdir ⊢
      refine ih h₁ hdir ?_ (fun c hc => ?_) (Nat.lt_of_succ_lt_succ hn)
      · rw [UInt64.toNat_add, List.length_append, List.length_singleton, hi]
        show (passed.length + 1) % 2 ^ 64 = _
        omega
      · rcases List.mem_append.mp hc with hc | hc
        · exact hused c hc
        · rw [List.mem_singleton.mp hc]
          exact hx

/-- **`sfs_dir_link`** adds the entry and a link of the file, or the directory is full. -/
theorem Serves.sfsDirLink_ensures (hR : Serves L R) (h : R fs w) (hdir : Directory d w slots)
    (hname : name.length ≤ 255) (hk : w.Valid v.inumber) :
    Run.Ensures (sfsDirLink L (w.table d) name v) fs
      (LinkPost R d w slots v (newEntry v.inumber name)) := by
  have hmapped := hdir.mapped
  unfold mappedBlocks at hmapped
  rw [sfsDirLink, if_neg (Nat.not_lt.mpr hname)]
  have hstart : Directory d w ([] ++ slots) := hdir
  exact dirLinkLoop_ensures hR h hstart rfl (fun c hc => absurd hc List.not_mem_nil) hk
    (by unfold loopBound; omega)

end Entries

end SimpleFileSystem
