import SimpleFileSystem.DirEntries

/-!
# The links of files without blocks

A file has a number of links in its inode, and three things change it: `up the link
count`, `sfs_dir_link`, which adds an entry, and the removal of a link, which puts the
inode on the free inode list if the link was the last.  `Sets` is what they have in
common: one inode is written, with that number of links.
-/

namespace SimpleFileSystem

/-! ## What a request changes -/

/-- The root directory was written, with the same number of links. -/
abbrev RootTouched := DirTouched 1

/-- **One file was written**, and has so many links now.  It has no blocks. -/
structure Sets (w w' : View) (k : UInt64) (links : UInt32) : Prop where
  inodes : w'.inodes = w.inodes
  rootLinks : (w'.table 1).links = (w.table 1).links
  others : ∀ j, j ≠ 1 → j ≠ k → w'.table j = w.table j
  inumber : (w'.table k).inumber = k
  pointers : (w'.table k).blockPointers = fun _ => 0
  links : (w'.table k).links = links

/-- The free inode list has the head it had, and nothing was deallocated. -/
structure ListSame (w w' : View) : Prop where
  head : w'.head = w.head
  deallocated : w'.files.deallocated = w.files.deallocated

/-- **The inode was deallocated**: it is in front of the free inode list. -/
structure Pushed (w w' : View) (k : UInt64) : Prop where
  head : w'.head = k
  next : (w'.table k).size = w.head
  deallocated : w'.files.deallocated = k :: w.files.deallocated

/-- A link of a file is gone. -/
structure Dropped (w w' : View) (k : UInt64) : Prop where
  sets : Sets w w' k ((w.table k).links - 1)
  list : if (w.table k).links = 1 then Pushed w w' k else ListSame w w'

/-- A file with its number, and without blocks. -/
structure Inode.Plain (v : Inode) (k : UInt64) : Prop where
  inumber : v.inumber = k
  pointers : v.blockPointers = fun _ => 0

theorem Inode.Plain.ne_root {v : Inode} {k : UInt64} (h : v.Plain k) (hk : k ≠ 1) :
    v.inumber ≠ 1 := by
  rw [h.inumber]
  exact hk

theorem Inode.Plain.direct {v : Inode} {k : UInt64} (h : v.Plain k) : ∀ p ∈ v.direct, p = 0 := by
  intro p hp
  obtain ⟨j, -, rfl⟩ := List.mem_map.mp hp
  rw [Inode.pointer, h.pointers]
  split <;> rfl

namespace DirTouched

variable {w w' w'' : View} {k : UInt64} {links : UInt32}

theorem listSame (h : RootTouched w w') : ListSame w w' :=
  ⟨h.head, h.deallocated⟩

theorem sets (h : RootTouched w w') (h' : Sets w' w'' k links) : Sets w w'' k links where
  inodes := h'.inodes.trans h.inodes
  rootLinks := h'.rootLinks.trans h.links
  others j hj hjk := (h'.others j hj hjk).trans (h.others j hj)
  inumber := h'.inumber
  pointers := h'.pointers
  links := h'.links

theorem dropped (h : RootTouched w w') (hk : k ≠ 1) (h' : Dropped w' w'' k) :
    Dropped w w'' k := by
  have hlinks := congrArg Inode.links (h.others k hk)
  refine ⟨by rw [← hlinks]; exact h.sets h'.sets, ?_⟩
  have hlist := h'.list
  rw [hlinks] at hlist
  split at hlist
  · next hone =>
    rw [if_pos hone]
    exact ⟨hlist.head, by rw [← h.head]; exact hlist.next,
      by rw [← h.deallocated]; exact hlist.deallocated⟩
  · next hone =>
    rw [if_neg hone]
    exact ⟨hlist.head.trans h.head, hlist.deallocated.trans h.deallocated⟩

end DirTouched

theorem Sets.of_withHead {w w' : View} {k x : UInt64} {links : UInt32}
    (h : Sets (w.withHead x) w' k links) : Sets w w' k links :=
  ⟨h.inodes, h.rootLinks, h.others, h.inumber, h.pointers, h.links⟩

theorem Sets.trans {w w' w'' : View} {k : UInt64} {links links' : UInt32}
    (h : Sets w w' k links) (h' : Sets w' w'' k links') : Sets w w'' k links' where
  inodes := h'.inodes.trans h.inodes
  rootLinks := h'.rootLinks.trans h.rootLinks
  others j hj hjk := (h'.others j hj hjk).trans (h.others j hj hjk)
  inumber := h'.inumber
  pointers := h'.pointers
  links := h'.links

theorem Sets.touched {w w' w'' : View} {k : UInt64} {links : UInt32}
    (h : Sets w w' k links) (hk : k ≠ 1) (h' : RootTouched w' w'') : Sets w w'' k links where
  inodes := h'.inodes.trans h.inodes
  rootLinks := h'.links.trans h.rootLinks
  others j hj hjk := (h'.others j hj).trans (h.others j hj hjk)
  inumber := by rw [h'.others k hk]; exact h.inumber
  pointers := by rw [h'.others k hk]; exact h.pointers
  links := by rw [h'.others k hk]; exact h.links

theorem ListSame.trans {w w' w'' : View} (h : ListSame w w') (h' : ListSame w' w'') :
    ListSame w w'' :=
  ⟨h'.head.trans h.head, h'.deallocated.trans h.deallocated⟩

theorem Dropped.touched {w w' w'' : View} {k : UInt64} (h : Dropped w w' k) (hk : k ≠ 1)
    (h' : RootTouched w' w'') : Dropped w w'' k := by
  refine ⟨h.sets.touched hk h', ?_⟩
  have hlist := h.list
  split at hlist
  · next hone =>
    rw [if_pos hone]
    exact ⟨h'.head.trans hlist.head, by rw [h'.others k hk]; exact hlist.next,
      h'.deallocated.trans hlist.deallocated⟩
  · next hone =>
    rw [if_neg hone]
    exact hlist.trans h'.listSame

/-! ## One more link, and one less -/

section Links

variable {fs : Filesystem DirFiles} {w : View} {k : UInt64} {slots : List DirEntry}
  {allocate : Fs DirFiles (Option Inode)}

/-- The inode of a file replaced. -/
theorem Sets.setInode (w : View) {v : Inode} (hv : v.Plain k) (hk1 : k ≠ 1) :
    Sets w (w.setInode v) k v.links := by
  have hinumber := hv.inumber
  subst hinumber
  refine ⟨rfl, congrArg Inode.links (View.setInode_table_of_ne (Ne.symm hk1)),
    fun j _ hj => View.setInode_table_of_ne hj, ?_, ?_, ?_⟩
  · rw [View.setInode_table_self]
  · rw [View.setInode_table_self]
    exact hv.pointers
  · rw [View.setInode_table_self]

/-- A write of the inode of a file. -/
theorem Shows.writeFile (h : Shows fs w) {v : Inode} (hv : v.Plain k) (hk : w.Valid k)
    (hk1 : k ≠ 1) :
    Run.Ensures (sfsFsWriteInode v) fs fun ret fs' => ret = 0 ∧
      Shows fs' (w.setInode v) ∧ Sets w (w.setInode v) k v.links :=
  (h.writeInode_ensures (by rw [hv.inumber]; exact hk)).mono fun _ _ hpost =>
    ⟨hpost.1, hpost.2, Sets.setInode w hv hk1⟩

/-- A file has one link more. -/
structure Added (w w' : View) (k : UInt64) : Prop where
  sets : Sets w w' k ((w.table k).links + 1)
  list : ListSame w w'

/-- **`up the link count`** -/
theorem addLink_ensures (h : Shows fs w) (hroot : RootDir w slots) (hk : w.Valid k)
    (hk1 : k ≠ 1) (hplain : (w.table k).Plain k) :
    Run.Ensures (addLink k) fs fun answer fs' => ∃ w', Shows fs' w' ∧ RootDir w' slots ∧
      Added w w' k ∧ answer = some (w'.table k) := by
  rw [addLink]
  refine (h.readInode_ensures hk).bind ?_
  rintro _ fs₁ ⟨rfl, h₁⟩
  refine h₁.time_ensures.bind fun t fs₂ h₂ => ?_
  dsimp only
  generalize hv : ({ w.table k with links := (w.table k).links + 1, changeTime := t } : Inode) = v
  have hplain' : v.Plain k := by
    subst hv
    exact ⟨hplain.inumber, hplain.pointers⟩
  refine (h₂.writeFile hplain' hk hk1).bind ?_
  rintro _ fs₃ ⟨rfl, h₃, hsets⟩
  rw [if_neg (by simp)]
  have hlinks : v.links = (w.table k).links + 1 := by rw [← hv]
  refine Run.ensures_pure ⟨w.setInode v, h₃, (Apart.setInode w
    (hplain'.ne_root hk1)).directory hroot,
    ⟨?_, rfl, rfl⟩, ?_⟩
  · rw [← hlinks]
    exact hsets
  · rw [← hplain'.inumber, View.setInode_table_self]

/-- **The removal of the last link** deallocates the inode. -/
theorem deallocate_drops (h : Shows fs w) (hk : w.Valid k) (hk1 : k ≠ 1)
    (hplain : (w.table k).Plain k) (hone : (w.table k).links = 1) (t : UInt64) :
    Run.Ensures ((loggedLayer allocate).deallocate ((w.table k).unlinked t)) fs fun ret fs' =>
      ret = 0 ∧ ∃ w', Shows fs' w' ∧ Apart 1 w w' ∧ Dropped w w' k := by
  have hplain' : ((w.table k).unlinked t).Plain k := ⟨hplain.inumber, hplain.pointers⟩
  have hinumber := hplain'.inumber
  refine (h.deallocate_ensures allocate (by rw [hinumber]; exact hk) hplain'.direct).mono ?_
  rintro _ fs' ⟨rfl, h'⟩
  generalize hv : ({ (w.table k).unlinked t with size := w.head } : Inode) = v at h'
  rw [hinumber] at h'
  have hfreed : v.Plain k := by
    rw [← hv]
    exact ⟨hinumber, hplain.pointers⟩
  have hsets := Sets.setInode (w.logged k) hfreed hk1
  have hself : ((w.logged k).setInode v).table k = v := by
    rw [← hfreed.inumber]
    exact View.setInode_table_self (w.logged v.inumber) v
  have hroot : ((w.logged k).setInode v).table 1 = w.table 1 :=
    View.setInode_table_of_ne (Ne.symm (hfreed.ne_root hk1))
  refine ⟨rfl, _, h', ⟨rfl, hroot, rfl⟩, ⟨rfl, hsets.rootLinks, hsets.others, hsets.inumber,
    hsets.pointers, hsets.links.trans ?_⟩, ?_⟩
  · rw [← hv]
    rfl
  · rw [if_pos hone]
    refine ⟨rfl, (congrArg Inode.size hself).trans ?_, rfl⟩
    rw [← hv]

/-- **The removal of another link** writes the inode. -/
theorem dropped_setInode (hk1 : k ≠ 1) (hplain : (w.table k).Plain k)
    (hother : (w.table k).links ≠ 1) (t : UInt64) :
    Dropped w (w.setInode ((w.table k).unlinked t)) k := by
  have hplain' : ((w.table k).unlinked t).Plain k := ⟨hplain.inumber, hplain.pointers⟩
  refine ⟨Sets.setInode w hplain' hk1, ?_⟩
  rw [if_neg hother]
  exact ⟨rfl, rfl⟩

end Links

/-! ## The entries of such files -/

section Entries

variable {fs : Filesystem DirFiles} {w : View} {k : UInt64} {A B slots : List DirEntry}
  {allocate : Fs DirFiles (Option Inode)} {e : DirEntry} {it : DirIterator} {j : ℕ} {v : Inode}
  {name : CString}

/-- **`sfs_dir_iter_unlink`** removes a link of the file and empties the slot. -/
theorem sfsDirIterUnlink_ensures (h : Shows fs w) (hroot : RootDir w (A ++ e :: B))
    (hit : it.inode = w.table 1) (hstops : StopsAt 1 w false it j Inode.zero A e)
    (hk : w.Valid e.inumber) (hk1 : e.inumber ≠ 1)
    (hplain : (w.table e.inumber).Plain e.inumber) :
    Run.Ensures (sfsDirIterUnlink (loggedLayer allocate) it j) fs fun answer fs' =>
      answer.1 = 0 ∧ ∃ w' e', Shows fs' w' ∧ e'.inumber = 0 ∧ RootDir w' (A ++ e' :: B) ∧
        Dropped w w' e.inumber := by
  have hserves := serves_shows allocate
  have hj := hstops.first
  subst hj
  refine (hserves.sfsDirIterUnlink_ensures hserves h hroot hit hstops.iblock hstops.entry hk
    hplain.inumber hk1
    (P := fun w₁ => Dropped w w₁ e.inumber)
    (fun hone _ t fs₂ _ _ h₂ => deallocate_drops h₂ hk hk1 hplain hone t)
    fun hother t _ h₃ => ⟨h₃, dropped_setInode hk1 hplain hother t⟩).mono ?_
  rintro ⟨ret, it'⟩ fs' ⟨hret, -, -, w₁, w', e', hdropped, htouched, h', -, hemptied, hroot'⟩
  exact ⟨hret, w', e', h', hemptied, hroot', hdropped.touched hk1 htouched⟩

/-- **`sfs_dir_link`** adds the entry and a link of the file, or the directory is full. -/
theorem sfsDirLink_ensures (h : Shows fs w) (hroot : RootDir w slots) (hname : name.length ≤ 255)
    (hv : v.Plain k) (hk : w.Valid k) (hk1 : k ≠ 1) :
    Run.Ensures (sfsDirLink (loggedLayer allocate) (w.table 1) name v) fs fun answer fs' =>
      (answer.1 = 0 ∧ ∃ w' slots', Shows fs' w' ∧ RootDir w' slots' ∧
        Fills (newEntry k name) slots slots' ∧ Sets w w' k (v.links + 1) ∧ ListSame w w') ∨
      (answer.1 = -1 ∧ Shows fs' w ∧ slots.length = mappedBlocks ∧
        ∀ x ∈ slots, x.inumber ≠ 0) := by
  have hinumber := hv.inumber
  subst hinumber
  refine ((serves_shows allocate).sfsDirLink_ensures h hroot hname hk).mono ?_
  rintro ⟨ret, directory, inode⟩ fs'
    (⟨hret, w₁, slots', t, htouched, hroot', hfills, h', -⟩ | ⟨hret, h', hfull, hused, -⟩)
  · have hplain : (v.linked t).Plain v.inumber := ⟨rfl, hv.pointers⟩
    exact Or.inl ⟨hret, _, slots', h',
      (Apart.setInode w₁ (hplain.ne_root hk1)).directory hroot', hfills,
      htouched.sets (Sets.setInode w₁ hplain hk1), htouched.head, htouched.deallocated⟩
  · exact Or.inr ⟨hret, h', hfull, hused⟩

end Entries

end SimpleFileSystem
