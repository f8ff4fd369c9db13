import SimpleFileSystem.FileArray
import SimpleFileSystem.NameRequests
import SimpleFileSystem.OpenFile

/-!
# What the requests on handles do to the ledger

`sfs_opendir`, `sfs_releasedir`, `sfs_read` and `sfs_write`, in the manner of the requests
on names.

`sfs_opendir` of `/` walks through the entries of the root directory with the empty name
that follows the slash.  No entry has it, so the walk comes to the end and never to the
statement that counts the handle, while `sfs_releasedir` always takes a link away.  That is
why `LedgerStep.opensDir` leaves the links of the root directory alone and
`LedgerStep.closesDir` does not.
-/

namespace SimpleFileSystem

section Handles

variable {s : SfsState DirFiles} {b : Ledger} {flags : UInt64} {n : ℕ} {k : UInt64}
  {allocate : Fs DirFiles (Option Inode)} {handsOut : View → UInt64 → UInt64 → Prop}

/-! ## `sfs_opendir` -/

/-- The walk with an empty name comes to the end of the directory. -/
theorem opendirLoop_ensures {fs : Filesystem DirFiles} {w : View} {it : DirIterator}
    {passed ahead : List DirEntry} (pathTok : Option CString) (h : Shows fs w)
    (hahead : Ahead 1 w it passed ahead)
    (hentries : ∀ e ∈ ahead, e.inumber ≠ 0 → w.Valid e.inumber ∧ cString e.name ≠ []) {m : ℕ}
    (hm : ahead.length < m) :
    Run.Ensures (Run.loop (opendirStep (loggedLayer allocate)) m ([], pathTok, it)) fs
      fun answer fs' => ∃ w', Accessed 1 w w' ∧ Shows fs' w' ∧ answer = .opened (w'.table 1) := by
  induction m generalizing fs w it passed ahead with
  | zero => exact absurd hm (Nat.not_lt_zero _)
  | succ m ih =>
    rw [Run.loop, opendirStep, Run.bind_assoc']
    refine (sfsDirIternext_ensures (serves_shows _) h hahead fun _ e he h0 =>
      (hentries e he h0).1).bind ?_
    rintro answer fs₁ ⟨w₁, haccess, h₁, hpost⟩
    cases answer with
    | stop directory =>
      rw [hpost.1]
      exact Run.ensures_pure ⟨w₁, haccess, h₁, rfl⟩
    | entry it₁ j v =>
      obtain ⟨-, unused, e, ahead', rfl, -, hstops, hahead₁⟩ := hpost
      have he := hentries e (List.mem_append_right unused List.mem_cons_self) hstops.used
      dsimp only
      rw [hstops.entry, if_pos he.2]
      have hlt : ahead'.length < m := by
        rw [List.length_append, List.length_cons] at hm
        omega
      have hentries' : ∀ d ∈ ahead', d.inumber ≠ 0 → w₁.Valid d.inumber ∧ cString d.name ≠ [] := by
        intro d hd h0
        have hd' := hentries d (List.mem_append_right unused (List.mem_cons_of_mem e hd)) h0
        exact ⟨haccess.valid hd'.1, hd'.2⟩
      refine (ih h₁ hahead₁ hentries' hlt).mono ?_
      rintro answer fs₂ ⟨w₂, haccess₂, h₂, hanswer⟩
      exact ⟨w₂, haccess.trans haccess₂, h₂, hanswer⟩

/-- **`sfs_opendir`** of the root directory opens a handle on it, and counts no link. -/
theorem sfsOpendir_ensures (h : b.Books s) (few : b.opened.length + slotsPerSlab < 2 ^ 31) :
    Run.Ensures (sfsOpendir (loggedLayer allocate) [slash] flags) s
      (Answers handsOut b fun r ev => ∃ n : ℕ, r = (0, some (ofCInt n)) ∧ ev = .opensDir n) := by
  have hroot := h.balanced.root
  obtain ⟨free, hhandles⟩ := h.balanced.pool
  have hmapped := hroot.mapped
  unfold mappedBlocks at hmapped
  have hentries : ∀ e ∈ b.slots, e.inumber ≠ 0 → b.view.Valid e.inumber ∧ cString e.name ≠ [] := by
    intro e he h0
    have hlive := mem_live.mpr ⟨he, h0⟩
    exact ⟨h.balanced.valid _ (Ledger.Balanced.refs_of_entry hlive), (h.balanced.files e hlive).2⟩
  rw [sfsOpendir]
  refine (lock_ensures h.idle).bind ?_
  rintro _ s₁ ⟨hfs, hp₁⟩
  have h₁ : Shows s₁.fs b.view := by
    rw [hfs]
    exact h.shows
  rw [if_neg (not_not.mpr rfl)]
  refine (onFs_ensures (sfsDirRoot_ensures h₁ hroot)).bind ?_
  rintro _ s₂ ⟨⟨rfl, h₂⟩, hp₂⟩
  have hsep : strsep (some [slash]) = (some [], some []) := rfl
  dsimp only
  rw [hsep]
  dsimp only
  rw [if_neg (not_not.mpr rfl)]
  have hwalk : Run.Ensures (opendirWalk (loggedLayer allocate) (b.view.table 1) [] (some [])) s₂.fs
      fun answer fs' => ∃ w', Accessed 1 b.view w' ∧ Shows fs' w' ∧
        answer = .opened (w'.table 1) := by
    rw [opendirWalk]
    refine (sfsDirIterate_ensures h₂ hroot).bind ?_
    rintro _ fs₃ ⟨h₃, it, rfl, hahead⟩
    exact opendirLoop_ensures (some []) h₃ hahead hentries (by unfold loopBound; omega)
  refine (onFs_ensures hwalk).bind ?_
  rintro _ s₃ ⟨⟨w₃, haccess, h₃, rfl⟩, hp₃⟩
  have hpool₃ : s₃.fdPool = b.pool := hp₃.trans (hp₂.trans (hp₁.trans h.pool))
  have hroot₃ := haccess.directory hroot
  dsimp only
  rw [hroot₃.inumber]
  rw [← hpool₃] at hhandles
  refine (openHandle_ensures h₃ hhandles few 1 flags).mono ?_
  rintro _ s₄ ⟨n, rfl, hopened, h₄⟩
  rw [hpool₃] at hopened
  exact ⟨.opensDir n, ⟨w₃, b.slots, s₄.fdPool, n :: b.opened⟩,
    LedgerStep.opensDir hroot₃ haccess.touched hopened (List.Perm.refl _), h₄, rfl, n, rfl, rfl⟩

/-! ## What the requests with a handle do first -/

/-- The slot of an open handle is found. -/
theorem getFromFd_ensures (hpool : s.fdPool = b.pool) (hb : b.Balanced) (hn : n ∈ b.opened) :
    Run.Ensures (sfsFiledescriptorGetFromFd (toCInt (ofCInt n))) s fun answer t =>
      answer = some n ∧ s = t := by
  obtain ⟨free, hhandles⟩ := hb.pool
  have hlt := hhandles.lt_of_opened hn
  rw [toCInt_ofCInt (Nat.lt_trans hlt hhandles.small)]
  exact ⟨_, _, sfsFiledescriptorGetFromFd_run (by rw [hpool]; exact hlt), rfl, rfl⟩

theorem get_ensures (s : SfsState DirFiles) :
    Run.Ensures (get : Sfs DirFiles _) s fun t u => s = t ∧ s = u :=
  ⟨s, s, rfl, rfl, rfl⟩

/-! ## `sfs_releasedir` -/

/-- **`sfs_releasedir`** closes a handle of the root directory, and takes a link away. -/
theorem sfsReleasedir_ensures (h : b.Books s) (hn : n ∈ b.opened)
    (hk : (b.pool.slot n).inumber = 1) :
    Run.Ensures (sfsReleasedir (ofCInt n) : Sfs DirFiles ℤ) s
      (Answers handsOut b fun r ev => r = 0 ∧ ev = .closesDir n) := by
  have hroot := h.balanced.root
  obtain ⟨free, hhandles⟩ := h.balanced.pool
  rw [sfsReleasedir]
  refine (lock_ensures h.idle).bind ?_
  rintro _ s₁ ⟨hfs, hp₁⟩
  have h₁ : Shows s₁.fs b.view := by
    rw [hfs]
    exact h.shows
  have hpool₁ := hp₁.trans h.pool
  refine (getFromFd_ensures hpool₁ h.balanced hn).bind ?_
  rintro _ _ ⟨rfl, rfl⟩
  dsimp only
  refine (get_ensures s₁).bind ?_
  rintro _ _ ⟨rfl, rfl⟩
  rw [hpool₁, hk]
  refine (onFs_ensures (h₁.readInode_ensures hroot.valid)).bind ?_
  rintro _ s₂ ⟨⟨rfl, h₂⟩, hp₂⟩
  dsimp only
  refine (onFs_ensures h₂.time_ensures).bind ?_
  rintro t s₃ ⟨h₃, hp₃⟩
  have hinumber := hroot.inumber
  generalize hv : { b.view.table 1 with links := (b.view.table 1).links - 1, changeTime := t } = v
  have hv1 : v.inumber = 1 := by
    rw [← hv]
    exact hroot.inumber
  have hself : (b.view.setInode v).table 1 = v := by
    rw [← hv1]
    exact View.setInode_table_self b.view v
  have hroot₄ : RootDir (b.view.setInode v) b.slots := by
    refine hroot.congr rfl rfl ?_ ?_ ?_
    · rw [hself]
      exact hv1
    · rw [hself, ← hv]
    · rw [hself, ← hv]
  have hunlinked : RootUnlinked b.view (b.view.setInode v) := by
    refine ⟨rfl, ?_, fun j hj => View.setInode_table_of_ne (by rw [hv1]; exact hj), rfl, rfl⟩
    rw [hself, ← hv]
  refine (onFs_ensures (h₃.writeInode_ensures (v := v) (by rw [hv1]; exact hroot.valid))).bind ?_
  rintro _ s₄ ⟨⟨rfl, h₄⟩, hp₄⟩
  rw [if_neg (by simp)]
  have hpool₄ : s₄.fdPool = b.pool := hp₄.trans (hp₃.trans (hp₂.trans hpool₁))
  refine Run.Ensures.bind (P := fun _ t => t.fs = s₄.fs ∧ t.fdPool = b.pool.push n)
    ⟨(), _, rfl, rfl, congrArg (FdPool.push · n) hpool₄⟩ ?_
  rintro _ s₅ ⟨hfs₅, hp₅⟩
  refine unlock_return_ensures ⟨.closesDir n,
    ⟨b.view.setInode v, b.slots, b.pool.push n, b.opened.erase n⟩, ?_,
    by rw [hfs₅]; exact h₄, hp₅, rfl, rfl⟩
  exact LedgerStep.closesDir hroot₄ hk hunlinked
    ⟨hn, ⟨n :: free, hhandles.push hn⟩, fun m _ hmn => FdPool.slot_setSlot_of_ne hmn⟩

/-! ## `sfs_read` and `sfs_write` -/

/-- The filesystem with other blocks of a file. -/
def Filesystem.withFileBlocks (fs : Filesystem DirFiles) (k : UInt64) (c : Blocks) :
    Filesystem DirFiles :=
  { fs with files := { fs.files with blocks := Function.update fs.files.blocks k c } }

theorem withFileBlocks_self (fs : Filesystem DirFiles) (k : UInt64) :
    fs.withFileBlocks k (fs.files.blocks k) = fs := by
  rw [Filesystem.withFileBlocks, Function.update_eq_self]

/-- The view with other blocks of a file. -/
def View.withFileBlocks (w : View) (k : UInt64) (c : Blocks) : View :=
  { w with files := { w.files with blocks := Function.update w.files.blocks k c } }

theorem Shows.withFileBlocks {fs : Filesystem DirFiles} {w : View} (h : Shows fs w) (k : UInt64)
    (c : Blocks) : Shows (fs.withFileBlocks k c) (w.withFileBlocks k c) := by
  rw [View.withFileBlocks, ← h.files]
  exact h.withFiles _

/-- The slots of the root directory are in its own blocks. -/
theorem apart_withFileBlocks (w : View) (hk1 : k ≠ 1) (c : Blocks) :
    Apart 1 w (w.withFileBlocks k c) :=
  ⟨rfl, rfl, Function.update_of_ne (Ne.symm hk1) _ _⟩

theorem onFs_permits {α : Type} {x : Fs DirFiles α} {P : α → Filesystem DirFiles → Prop}
    (h : Run.Permits x s.fs P) :
    Run.Permits (onFs x) s fun a s' => P a s'.fs ∧ s'.fdPool = s.fdPool := by
  intro a s' hrun
  obtain ⟨fs, hx, rfl⟩ := onFs_eq_done hrun
  exact ⟨h a fs hx, rfl⟩

section Blocks

variable {L : InodeLayer DirFiles} {memory : Memory} {tmpBlock : Block} {size : UInt64} {offset : ℤ}

variable (allocate) in
/-- A read of a block changes nothing. -/
theorem blockRead_permits (fs : Filesystem DirFiles) (v : Inode) (i : UInt64) (block : Block) :
    Run.Permits ((loggedLayer allocate).blockRead v i block) fs fun _ fs' => fs' = fs := by
  intro a fs' hrun
  simp only [loggedLayer, Run.run_ite] at hrun
  split at hrun
  · cases hrun
    rfl
  · cases hrun
    rfl

variable (allocate) in
/-- A write of a block changes a block of the file. -/
theorem blockWrite_permits (fs : Filesystem DirFiles) (v : Inode) (i : UInt64) (block : Block) :
    Run.Permits ((loggedLayer allocate).blockWrite v i block) fs fun answer fs' =>
      answer.2 = v ∧ ∃ c, fs' = fs.withFileBlocks v.inumber c := by
  intro a fs' hrun
  simp only [loggedLayer, Run.run_ite] at hrun
  split at hrun
  · cases hrun
    exact ⟨rfl, _, rfl⟩
  · cases hrun
    exact ⟨rfl, _, (withFileBlocks_self fs v.inumber).symm⟩

/-- The loop of `sfs_read` changes nothing. -/
theorem readLoop_permits (fs : Filesystem DirFiles) (v : Inode) (r : BlockRange) (fuel : ℕ)
    (b : UInt64 × Memory × Block) :
    Run.Permits (Run.loop (readStep (loggedLayer allocate) v r) fuel b) fs fun _ fs' =>
      fs' = fs := by
  refine Run.Permits.loop (I := fun _ t => t = fs) ?_ rfl
  rintro ⟨iblock, memory, tmpBlock⟩ _ rfl
  rw [readStep]
  split
  · exact Run.permits_pure rfl
  split
  · refine (blockRead_permits allocate _ v iblock _).bind ?_
    rintro ⟨ret, block⟩ _ rfl
    dsimp only
    split
    · exact Run.permits_pure rfl
    · exact Run.permits_pure rfl
  · refine (blockRead_permits allocate _ v iblock _).bind ?_
    rintro ⟨ret, block⟩ _ rfl
    dsimp only
    split
    · exact Run.permits_pure rfl
    split
    · exact Run.permits_pure rfl
    · exact Run.permits_pure rfl

/-- The loop of `sfs_write` changes blocks of the file. -/
theorem writeLoop_permits (fs : Filesystem DirFiles) (v : Inode) (r : BlockRange) (fuel : ℕ)
    (iblock : UInt64) (memory : Memory) (tmpBlock : Block) :
    Run.Permits (Run.loop (writeStep (loggedLayer allocate) memory r) fuel (iblock, v, tmpBlock)) fs
      fun _ fs' => ∃ c, fs' = fs.withFileBlocks v.inumber c := by
  refine Run.Permits.loop (I := fun b t => b.2.1 = v ∧ ∃ c, t = fs.withFileBlocks v.inumber c) ?_
    ⟨rfl, _, (withFileBlocks_self fs v.inumber).symm⟩
  rintro ⟨iblock, u, tmpBlock⟩ t ⟨hu, c, ht⟩
  dsimp only at hu
  subst hu
  rw [writeStep]
  split
  · exact Run.permits_pure ⟨c, ht⟩
  refine Run.Permits.bind (P := fun _ t' => t' = t) ?_ ?_
  · rw [overlayTmp]
    split
    · refine (blockRead_permits allocate t u iblock tmpBlock).bind ?_
      rintro ⟨ret, block⟩ _ rfl
      dsimp only
      split
      · exact Run.permits_pure rfl
      · exact Run.permits_pure rfl
    · exact Run.permits_pure rfl
  rintro overlaid _ rfl
  cases overlaid with
  | none => exact Run.permits_pure ⟨c, ht⟩
  | some block =>
    dsimp only
    refine (blockWrite_permits allocate _ u iblock _).bind ?_
    rintro ⟨ret, u'⟩ t' ⟨hu', c', ht'⟩
    dsimp only at hu' ⊢
    subst hu'
    have hwritten : ∃ c, t' = fs.withFileBlocks u'.inumber c := by
      refine ⟨c', ?_⟩
      rw [ht', ht, Filesystem.withFileBlocks, Filesystem.withFileBlocks]
      dsimp only
      rw [Function.update_idem]
      rfl
    split
    · exact Run.permits_pure hwritten
    · exact Run.permits_pure ⟨rfl, hwritten⟩

end Blocks

/-- The answer of a request that leaves the file with these blocks. -/
theorem answers_touches {α : Type} {A : α → LedgerEvent → Prop} {r : α} {t : SfsState DirFiles}
    {fs : Filesystem DirFiles} {v : Inode} (h : b.Balanced) (hheld : k ∈ b.held) (hk1 : k ≠ 1)
    (hv : v.Plain k) (hlinks : v.links = (b.view.table k).links)
    (hshows : Shows fs (b.view.setInode v)) (c : Blocks) (hfs : t.fs = fs.withFileBlocks k c)
    (hpool : t.fdPool = b.pool) (hA : A r (.touches k)) : Answers handsOut b A r t := by
  have hapart := Apart.setInode b.view (hv.ne_root hk1)
  have hapart' := apart_withFileBlocks (b.view.setInode v) hk1 c
  have hsets := Sets.setInode b.view hv hk1
  rw [hlinks] at hsets
  refine ⟨.touches k, { b with view := (b.view.setInode v).withFileBlocks k c },
    LedgerStep.touches (hapart'.directory (hapart.directory h.root)) hheld hk1 ?_ ⟨rfl, rfl⟩, ?_,
    hpool, hA⟩
  · exact ⟨hsets.inodes, hsets.rootLinks, hsets.others, hsets.inumber, hsets.pointers, hsets.links⟩
  · rw [hfs]
    exact hshows.withFileBlocks k c

theorem touchForWrite_ensures {fs : Filesystem DirFiles} {w : View} (h : Shows fs w) (v : Inode)
    (stop : UInt64) :
    Run.Ensures (touchForWrite v stop) fs fun v' fs' => v'.inumber = v.inumber ∧
      v'.blockPointers = v.blockPointers ∧ v'.links = v.links ∧ Shows fs' w := by
  rw [touchForWrite]
  refine h.time_ensures.bind fun now fs₁ h₁ => ?_
  dsimp only
  split
  · exact h₁.time_ensures.bind fun changed fs₂ h₂ => Run.ensures_pure ⟨rfl, rfl, rfl, h₂⟩
  · exact Run.ensures_pure ⟨rfl, rfl, rfl, h₁⟩

section Transfers

variable {memory : Memory} {tmpBlock : Block} {size : UInt64} {offset : ℤ}

/-- What a request did that read or wrote blocks of a file. -/
theorem transfer_permits {α β : Type} {A : α → LedgerEvent → Prop} {x : Fs DirFiles β}
    {f : β → α} {v : Inode} (h : b.Balanced) (hheld : k ∈ b.held) (hk1 : k ≠ 1) (hv : v.Plain k)
    (hlinks : v.links = (b.view.table k).links) (hshows : Shows s.fs (b.view.setInode v))
    (hpool : s.fdPool = b.pool)
    (hx : Run.Permits x s.fs fun _ fs' => ∃ c, fs' = s.fs.withFileBlocks k c)
    (hA : ∀ r, A r (.touches k)) :
    Run.Permits (onFs x >>= fun a => unlock >>= fun _ => pure (f a) : Sfs DirFiles α) s
      (Answers handsOut b A) := by
  refine (onFs_permits hx).bind ?_
  rintro a t ⟨⟨c, hfs⟩, hpool'⟩
  exact (unlock_return_ensures
    (answers_touches h hheld hk1 hv hlinks hshows c hfs (hpool'.trans hpool) (hA _))).permits

/-- **`sfs_read`** touches the file. -/
theorem sfsRead_permits (h : b.Books s) (hn : n ∈ b.opened) (hk : (b.pool.slot n).inumber = k)
    (hk1 : k ≠ 1) :
    Run.Permits (sfsRead (loggedLayer allocate) memory tmpBlock size offset (ofCInt n)) s
      (Answers handsOut b fun _ ev => ev = .look ∨ ev = .touches k) := by
  have hroot := h.balanced.root
  have hheld : k ∈ b.held := List.mem_map.mpr ⟨n, hn, hk⟩
  have hpos : 0 < b.refs k := Nat.add_pos_right _ (List.count_pos_iff.mpr hheld)
  have hvalid := h.balanced.valid k hpos
  have hplain := (h.balanced.counted k hk1 hpos).1
  rw [sfsRead]
  refine (lock_ensures h.idle).permits.bind ?_
  rintro _ s₁ ⟨hfs, hp₁⟩
  have h₁ : Shows s₁.fs b.view := by
    rw [hfs]
    exact h.shows
  have hpool₁ := hp₁.trans h.pool
  by_cases hsize : size = 0
  · rw [if_pos hsize]
    exact (unlock_return_ensures ⟨.look, b, LedgerStep.look hroot (DirTouched.refl 1 _), h₁,
      hpool₁, Or.inl rfl⟩).permits
  rw [if_neg hsize]
  refine (getFromFd_ensures hpool₁ h.balanced hn).permits.bind ?_
  rintro _ _ ⟨rfl, rfl⟩
  refine (get_ensures s₁).permits.bind ?_
  rintro _ _ ⟨rfl, rfl⟩
  rw [hpool₁, hk]
  refine (onFs_ensures (h₁.readInode_ensures hvalid)).permits.bind ?_
  rintro _ s₂ ⟨⟨rfl, h₂⟩, hp₂⟩
  refine (onFs_ensures h₂.time_ensures).permits.bind ?_
  rintro t s₃ ⟨h₃, hp₃⟩
  have hv : (accessed (b.view.table k) t).Plain k := ⟨hplain.inumber, hplain.pointers⟩
  have hlinks : (accessed (b.view.table k) t).links = (b.view.table k).links := rfl
  rw [← accessed]
  generalize accessed (b.view.table k) t = v at hv hlinks
  refine (onFs_ensures (h₃.writeFile hv hvalid hk1)).permits.bind ?_
  rintro _ s₄ ⟨⟨rfl, h₄, -⟩, hp₄⟩
  rw [if_neg (by simp)]
  refine transfer_permits h.balanced hheld hk1 hv hlinks h₄
    (hp₄.trans (hp₃.trans (hp₂.trans hpool₁))) ?_ fun _ => Or.inr rfl
  refine (readLoop_permits s₄.fs v _ _ _).mono ?_
  rintro _ fs' rfl
  exact ⟨_, (withFileBlocks_self s₄.fs k).symm⟩

/-- **`sfs_write`** touches the file. -/
theorem sfsWrite_permits (h : b.Books s) (hn : n ∈ b.opened) (hk : (b.pool.slot n).inumber = k)
    (hk1 : k ≠ 1) :
    Run.Permits (sfsWrite (loggedLayer allocate) memory tmpBlock size offset (ofCInt n)) s
      (Answers handsOut b fun _ ev => ev = .look ∨ ev = .touches k) := by
  have hroot := h.balanced.root
  have hheld : k ∈ b.held := List.mem_map.mpr ⟨n, hn, hk⟩
  have hpos : 0 < b.refs k := Nat.add_pos_right _ (List.count_pos_iff.mpr hheld)
  have hvalid := h.balanced.valid k hpos
  have hplain := (h.balanced.counted k hk1 hpos).1
  rw [sfsWrite]
  refine (lock_ensures h.idle).permits.bind ?_
  rintro _ s₁ ⟨hfs, hp₁⟩
  have h₁ : Shows s₁.fs b.view := by
    rw [hfs]
    exact h.shows
  have hpool₁ := hp₁.trans h.pool
  by_cases hsize : size = 0
  · rw [if_pos hsize]
    exact (unlock_return_ensures ⟨.look, b, LedgerStep.look hroot (DirTouched.refl 1 _), h₁,
      hpool₁, Or.inl rfl⟩).permits
  rw [if_neg hsize]
  refine (getFromFd_ensures hpool₁ h.balanced hn).permits.bind ?_
  rintro _ _ ⟨rfl, rfl⟩
  refine (get_ensures s₁).permits.bind ?_
  rintro _ _ ⟨rfl, rfl⟩
  rw [hpool₁, hk]
  refine (onFs_ensures (h₁.readInode_ensures hvalid)).permits.bind ?_
  rintro _ s₂ ⟨⟨rfl, h₂⟩, hp₂⟩
  refine (onFs_ensures (touchForWrite_ensures h₂ (b.view.table k) _)).permits.bind ?_
  rintro v s₃ ⟨⟨hinumber, hpointers, hlinks, h₃⟩, hp₃⟩
  have hv : v.Plain k := ⟨hinumber.trans hplain.inumber, hpointers.trans hplain.pointers⟩
  refine (onFs_ensures (h₃.writeFile hv hvalid hk1)).permits.bind ?_
  rintro _ s₄ ⟨⟨rfl, h₄, -⟩, hp₄⟩
  rw [if_neg (by simp)]
  refine transfer_permits h.balanced hheld hk1 hv hlinks h₄
    (hp₄.trans (hp₃.trans (hp₂.trans hpool₁))) ?_ fun _ => Or.inr rfl
  rw [← hv.inumber]
  exact writeLoop_permits s₄.fs v _ _ _ memory tmpBlock

end Transfers

end Handles

end SimpleFileSystem
