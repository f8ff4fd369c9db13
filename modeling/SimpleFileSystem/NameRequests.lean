import SimpleFileSystem.BlockRanges
import SimpleFileSystem.Ledger

/-!
# What the requests on names do to the ledger

`sfs_getattr`, `sfs_create`, `sfs_unlink`, `sfs_open`, `sfs_release` and `sfs_readdir`,
each on a balanced ledger: what it answers and which change of the ledger it makes.  The
five that take a path begin alike, with a search through the entries, and part when it has
ended.

A request that makes one of the changes leaves a balanced ledger and a free mutex, so the
next one finds what this one found (`Answers.books`).
-/

namespace SimpleFileSystem

/-! ## Between the requests -/

/-- **The state between two requests** is that of a balanced ledger. -/
structure Ledger.Books (b : Ledger) (s : SfsState DirFiles) : Prop where
  idle : ¬ s.Locked
  shows : Shows s.fs b.view
  pool : s.fdPool = b.pool
  balanced : b.Balanced

/-- The request changed the ledger so, and answered accordingly. -/
def Answers {α : Type} (handsOut : View → UInt64 → UInt64 → Prop) (b : Ledger)
    (A : α → LedgerEvent → Prop) (r : α) (s' : SfsState DirFiles) : Prop :=
  ∃ ev b', LedgerStep handsOut b ev b' ∧ Shows s'.fs b'.view ∧ s'.fdPool = b'.pool ∧ A r ev

section Rules

variable {α : Type} {s s' : SfsState DirFiles} {b : Ledger} {w : View} {opened free : List ℕ}
  {handsOut : View → UInt64 → UInt64 → Prop} {A : α → LedgerEvent → Prop} {r : α} {k : UInt64}

/-- **The next request finds a balanced ledger** too. -/
theorem Answers.books {x : Sfs DirFiles α} (h : b.Books s)
    (hx : Run.Ensures x s (Answers handsOut b A)) (hback : GivesBack x s) :
    Run.Ensures x s fun r s' => ∃ ev b', LedgerStep handsOut b ev b' ∧ b'.Books s' ∧ A r ev := by
  obtain ⟨r, s', hrun, ev, b', hstep, hshows, hpool, hA⟩ := hx
  refine ⟨r, s', hrun, ev, b', hstep, ⟨?_, hshows, hpool, hstep.balanced h.balanced⟩, hA⟩
  rw [SfsState.Locked, hback r s' hrun]
  exact fun e => absurd (Option.some.inj e) (by decide)

/-- A request gives the mutex back and returns. -/
theorem unlock_return_ensures (h : Answers handsOut b A r s) :
    Run.Ensures (unlock >>= fun _ => pure r : Sfs DirFiles α) s (Answers handsOut b A) :=
  ⟨r, _, rfl, h⟩

/-! ### Handles -/

/-- Of the filesystem an allocation in the pool takes memory at most. -/
theorem allocate_fs {answer : Option ℕ}
    (h : (sfsFiledescriptorAllocate : Sfs DirFiles (Option ℕ)).run s = .done answer s') :
    s'.fs = s.fs ∨ s'.fs = s.fs.malloced := by
  by_cases hfree : s.fdPool.freelist ≠ 0
  · rw [sfsFiledescriptorAllocate, Run.run_bind, Run.run_get, Run.andThen_done,
      if_pos hfree] at h
    cases h
    exact Or.inl rfl
  · rw [sfsFiledescriptorAllocate, Run.run_bind, Run.run_get, Run.andThen_done,
      if_neg hfree] at h
    dsimp only at h
    rw [Run.run_bind, onFs_run (malloc_run s.fs), Run.andThen_done] at h
    split at h
    · cases h
      exact Or.inr rfl
    · cases h
      exact Or.inr rfl

theorem Shows.malloced {fs : Filesystem DirFiles} (h : Shows fs w) : Shows fs.malloced w :=
  (h.malloc_ensures.post (malloc_run fs)).2

/-- **A handle is opened** on an inode. -/
theorem openHandle_ensures (h : Shows s.fs w) (hpool : s.fdPool.Handles opened free)
    (few : opened.length + slotsPerSlab < 2 ^ 31) (k flags : UInt64) :
    Run.Ensures (openHandle k flags) s fun r s' => ∃ n : ℕ, r = (0, some (ofCInt n)) ∧
      HandleOpened s.fdPool s'.fdPool opened n k ∧ Shows s'.fs w := by
  obtain ⟨answer, s₁, hrun, hpost⟩ := sfsFiledescriptorAllocate_ensures hpool few
  have hshows : Shows s₁.fs w := by
    rcases allocate_fs hrun with e | e
    · rw [e]
      exact h
    · rw [e]
      exact h.malloced
  obtain ⟨n, free', rfl, hfresh, hhandles, hothers, -⟩ | ⟨-, hfail, -⟩ := hpost
  swap
  · exact absurd (hfail.symm.trans (h.memory 0)) (by decide)
  have hn : n ∈ n :: opened := List.mem_cons_self
  have hlt := hhandles.lt_of_opened hn
  -- the two assignments to the slot
  have hinumber := hhandles.setSlot (s := { s₁.fdPool.slot n with inumber := k }) hn
    (hhandles.fd n hlt)
  have hslot : (s₁.fdPool.setSlot n { s₁.fdPool.slot n with inumber := k }).slot n =
      { s₁.fdPool.slot n with inumber := k } := FdPool.slot_setSlot hlt
  have hsame : ∀ m ≠ n, (s₁.fdPool.setSlot n { s₁.fdPool.slot n with inumber := k }).slot m =
      s₁.fdPool.slot m := fun m hm => FdPool.slot_setSlot_of_ne hm
  generalize hpool₂ : s₁.fdPool.setSlot n { s₁.fdPool.slot n with inumber := k } = pool₂
    at hinumber hslot hsame
  have hlt₂ := hinumber.lt_of_opened hn
  have hfd₂ := hinumber.fd n hlt₂
  have hflags := hinumber.setSlot (s := { pool₂.slot n with flags := flags }) hn hfd₂
  have hslot₃ : (pool₂.setSlot n { pool₂.slot n with flags := flags }).slot n =
      { pool₂.slot n with flags := flags } := FdPool.slot_setSlot hlt₂
  refine ⟨(0, some (ofCInt n)), { s₁ with
    fdPool := pool₂.setSlot n { pool₂.slot n with flags := flags }, mu := .unlock :: s₁.mu },
    ?_, n, rfl, ⟨hfresh, ⟨free', hflags⟩, ?_, fun m hm => ?_⟩, hshows⟩
  · rw [openHandle, Run.run_bind, hrun, Run.andThen_done]
    subst hpool₂
    show Outcome.done (0, some (ofCInt (FdPool.slot _ n).fd)) _ = _
    rw [hslot₃]
    dsimp only
    rw [hfd₂]
  · show ((pool₂.setSlot n _).slot n).inumber = k
    rw [hslot₃, hslot]
  · have hmn : m ≠ n := by
      rintro rfl
      exact hfresh hm
    show (pool₂.setSlot n _).slot m = _
    rw [FdPool.slot_setSlot_of_ne hmn, hsame m hmn, hothers m hm]

end Rules

/-! ## The requests -/

theorem DirTouched.added {w w' w'' : View} {k : UInt64} (h : RootTouched w w') (hk : k ≠ 1)
    (h' : Added w' w'' k) : Added w w'' k := by
  have hlinks := congrArg Inode.links (h.others k hk)
  refine ⟨?_, h.listSame.trans h'.list⟩
  rw [← hlinks]
  exact h.sets h'.sets

section Requests

variable {s : SfsState DirFiles} {b : Ledger} {path name : CString} {flags : UInt64}
  {allocate : Fs DirFiles (Option Inode)} {handsOut : View → UInt64 → UInt64 → Prop}

/-- What the requests may rely on of the inode of an entry. -/
structure Ledger.HasEntry (b : Ledger) (e : DirEntry) : Prop where
  mem : e ∈ live b.slots
  valid : b.view.Valid e.inumber
  notRoot : e.inumber ≠ 1
  plain : (b.view.table e.inumber).Plain e.inumber

theorem Ledger.HasEntry.plain_touched {e : DirEntry} {w' : View} (h : b.HasEntry e)
    (htouched : RootTouched b.view w') : (w'.table e.inumber).Plain e.inumber := by
  rw [htouched.others _ h.notRoot]
  exact h.plain

theorem unbound_of_search (h : ∀ e ∈ b.slots, e.inumber ≠ 0 → cString e.name ≠ name) :
    b.Unbound name :=
  fun e he => h e (mem_live.mp he).1 (mem_live.mp he).2

theorem Ledger.Balanced.hasEntry (h : b.Balanced) {A B : List DirEntry} {e : DirEntry}
    (hslots : b.slots = A ++ e :: B) (hused : e.inumber ≠ 0) : b.HasEntry e := by
  have he : e ∈ live b.slots := by
    rw [hslots]
    exact mem_live.mpr ⟨List.mem_append_right A List.mem_cons_self, hused⟩
  have hpos := Ledger.Balanced.refs_of_entry he
  have hne := (h.files e he).1
  exact ⟨he, h.valid _ hpos, hne, (h.counted _ hne hpos).1⟩

/-- A request with a path that names no file of the root directory fails at once. -/
def NameAnswer {α : Type} (path : CString) (fails : ℤ → α)
    (A : CString → α → LedgerEvent → Prop) (r : α) (ev : LedgerEvent) : Prop :=
  match pathName path with
  | .inl ret => r = fails ret ∧ ev = .look
  | .inr name => A name r ev

theorem nameAnswer_file {α : Type} {fails : ℤ → α} {A : CString → α → LedgerEvent → Prop} {r : α}
    {ev : LedgerEvent} (hname : FileName name) :
    NameAnswer (slash :: name) fails A r ev ↔ A name r ev := by
  rw [NameAnswer, pathName_file hname]

/-- What `sfs_open` answers. -/
def OpenAnswer (b : Ledger) (name : CString) (r : ℤ × Option UInt64) (ev : LedgerEvent) : Prop :=
  (b.Unbound name ∧ r = (-enoent, none) ∧ ev = .look) ∨
  ∃ e n, b.HasEntry e ∧ cString e.name = name ∧ r = (0, some (ofCInt (n : ℕ))) ∧
    ev = .opens e.inumber n

/-- **`sfs_open`** opens a handle on the file with the name. -/
theorem sfsOpen_ensures (h : b.Books s) (few : b.opened.length + slotsPerSlab < 2 ^ 31) :
    Run.Ensures (sfsOpen (loggedLayer allocate) path flags) s
      (Answers handsOut b (NameAnswer path (fun ret => (ret, none)) (OpenAnswer b))) := by
  have hroot := h.balanced.root
  obtain ⟨free, hhandles⟩ := h.balanced.pool
  rw [sfsOpen]
  refine (lock_ensures h.idle).bind ?_
  rintro _ s₁ ⟨hfs, hp₁⟩
  have h₁ : Shows s₁.fs b.view := by
    rw [hfs]
    exact h.shows
  refine (onFs_ensures (splitPath_ensures h₁ path)).bind ?_
  rintro _ s₂ ⟨⟨rfl, h₂⟩, hp₂⟩
  unfold NameAnswer
  cases hpath : pathName path with
  | inl ret =>
    exact unlock_return_ensures ⟨.look, b, LedgerStep.look hroot (DirTouched.refl 1 _), h₂,
      hp₂.trans (hp₁.trans h.pool), rfl, rfl⟩
  | inr name =>
  dsimp only
  refine (onFs_ensures (sfsDirRoot_ensures h₂ hroot)).bind ?_
  rintro _ s₃ ⟨⟨rfl, h₃⟩, hp₃⟩
  dsimp only
  refine (onFs_ensures (sfsDirIterate_ensures h₃ hroot)).bind ?_
  rintro _ s₄ ⟨⟨h₄, it, rfl, hahead⟩, hp₄⟩
  dsimp only
  refine (onFs_ensures (search_ensures (serves_shows allocate) h₄ hahead
    (pathName_short hpath))).bind ?_
  rintro found s₅ ⟨⟨w₅, haccess, h₅, hfound⟩, hp₅⟩
  have hpool : s₅.fdPool = b.pool :=
    hp₅.trans (hp₄.trans (hp₃.trans (hp₂.trans (hp₁.trans h.pool))))
  cases found with
  | stop directory =>
    exact unlock_return_ensures ⟨.look, { b with view := w₅ },
      LedgerStep.look (haccess.directory hroot) haccess.touched, h₅, hpool,
      Or.inl ⟨unbound_of_search hfound.2, rfl, rfl⟩⟩
  | found it j =>
    obtain ⟨-, -, before, e, after, hslots, hname, hstops⟩ := hfound
    have hentry := h.balanced.hasEntry hslots hstops.used
    dsimp only
    rw [hstops.entry]
    refine (onFs_ensures (h₅.free_ensures it.cachedBlock)).bind ?_
    rintro _ s₆ ⟨⟨-, h₆⟩, hp₆⟩
    have htouched := haccess.released.touched
    refine (onFs_ensures (addLink_ensures h₆ (haccess.released.directory hroot)
      (htouched.valid hentry.valid) hentry.notRoot (hentry.plain_touched htouched))).bind ?_
    rintro _ s₇ ⟨⟨w₇, h₇, hroot₇, hadded, rfl⟩, hp₇⟩
    dsimp only
    rw [hadded.sets.inumber]
    have hpool₇ : s₇.fdPool = b.pool := hp₇.trans (hp₆.trans hpool)
    rw [← hpool₇] at hhandles
    refine (openHandle_ensures h₇ hhandles few e.inumber flags).mono ?_
    rintro _ s₈ ⟨n, rfl, hopened, h₈⟩
    rw [hpool₇] at hopened
    refine ⟨.opens e.inumber n, ⟨w₇, b.slots, s₈.fdPool, n :: b.opened⟩, ?_, h₈, rfl,
      Or.inr ⟨e, n, hentry, hname, rfl, rfl⟩⟩
    exact LedgerStep.opens hroot₇ (List.mem_map_of_mem hentry.mem)
      (htouched.added hentry.notRoot hadded) hopened

/-! ### `sfs_unlink` -/

/-- What `sfs_unlink` answers. -/
def UnlinkAnswer (b : Ledger) (path name : CString) (r : ℤ) (ev : LedgerEvent) : Prop :=
  (path = [slash] ∧ r = -eacces ∧ ev = .look) ∨
  (path ≠ [slash] ∧ b.Unbound name ∧ r = -enoent ∧ ev = .look) ∨
  (path ≠ [slash] ∧ ∃ e, b.HasEntry e ∧ cString e.name = name ∧ r = 0 ∧ ev = .unlinks e)

/-- **`sfs_unlink`** removes the entry with the name. -/
theorem sfsUnlink_ensures (h : b.Books s) :
    Run.Ensures (sfsUnlink (loggedLayer allocate) path) s
      (Answers handsOut b (NameAnswer path id (UnlinkAnswer b path))) := by
  have hroot := h.balanced.root
  rw [sfsUnlink]
  refine (lock_ensures h.idle).bind ?_
  rintro _ s₁ ⟨hfs, hp₁⟩
  have h₁ : Shows s₁.fs b.view := by
    rw [hfs]
    exact h.shows
  refine (onFs_ensures (splitPath_ensures h₁ path)).bind ?_
  rintro _ s₂ ⟨⟨rfl, h₂⟩, hp₂⟩
  unfold NameAnswer
  cases hpath : pathName path with
  | inl ret =>
    exact unlock_return_ensures ⟨.look, b, LedgerStep.look hroot (DirTouched.refl 1 _), h₂,
      hp₂.trans (hp₁.trans h.pool), rfl, rfl⟩
  | inr name =>
  dsimp only
  refine (onFs_ensures (sfsDirRoot_ensures h₂ hroot)).bind ?_
  rintro _ s₃ ⟨⟨rfl, h₃⟩, hp₃⟩
  have hpool₃ : s₃.fdPool = b.pool := hp₃.trans (hp₂.trans (hp₁.trans h.pool))
  dsimp only
  by_cases hslash : path = [slash]
  · rw [if_pos hslash]
    exact unlock_return_ensures ⟨.look, b, LedgerStep.look hroot (DirTouched.refl 1 _), h₃,
      hpool₃, Or.inl ⟨hslash, rfl, rfl⟩⟩
  rw [if_neg hslash]
  refine (onFs_ensures (sfsDirIterate_ensures h₃ hroot)).bind ?_
  rintro _ s₄ ⟨⟨h₄, it, rfl, hahead⟩, hp₄⟩
  dsimp only
  refine (onFs_ensures (search_ensures (serves_shows allocate) h₄ hahead
    (pathName_short hpath))).bind ?_
  rintro found s₅ ⟨⟨w₅, haccess, h₅, hfound⟩, hp₅⟩
  have hpool : s₅.fdPool = b.pool := hp₅.trans (hp₄.trans hpool₃)
  cases found with
  | stop directory =>
    exact unlock_return_ensures ⟨.look, { b with view := w₅ },
      LedgerStep.look (haccess.directory hroot) haccess.touched, h₅, hpool,
      Or.inr (Or.inl ⟨hslash, unbound_of_search hfound.2, rfl, rfl⟩)⟩
  | found it j =>
    obtain ⟨-, hinode, before, e, after, hslots, hname, hstops⟩ := hfound
    have hentry := h.balanced.hasEntry hslots hstops.used
    have htouched := haccess.touched
    have hroot₅ := haccess.directory hroot
    rw [hslots] at hroot₅
    dsimp only
    refine (onFs_ensures (sfsDirIterUnlink_ensures h₅ hroot₅ hinode hstops
      (htouched.valid hentry.valid) hentry.notRoot (hentry.plain_touched htouched))).bind ?_
    rintro ⟨ret, it'⟩ s₆ ⟨⟨hret, w₆, e', h₆, hemptied, hroot₆, hdropped⟩, hp₆⟩
    dsimp only at hret
    subst hret
    dsimp only
    rw [if_neg (by simp)]
    refine (onFs_ensures (h₆.free_ensures it'.cachedBlock)).bind ?_
    rintro _ s₇ ⟨⟨-, h₇⟩, hp₇⟩
    refine unlock_return_ensures ⟨.unlinks e,
      ⟨w₆.released, before ++ e' :: after, b.pool, b.opened⟩,
      ?_, h₇, hp₇.trans (hp₆.trans hpool), Or.inr (Or.inr ⟨hslash, e, hentry, hname, rfl, rfl⟩)⟩
    exact LedgerStep.unlinks hslots hstops.used hemptied
      (hroot₆.congr rfl rfl hroot₆.inumber rfl rfl)
      ((htouched.dropped hentry.notRoot hdropped).touched hentry.notRoot
        (Accessed.refl (d := 1) w₆).released.touched)

/-! ### `sfs_getattr` -/

/-- **The memory of a closed iterator** still holds the inode number of the entry with the
name. -/
def Ledger.FreedKeeps (b : Ledger) (name : CString) : Prop :=
  ∀ (A : List DirEntry) (e : DirEntry) (B : List DirEntry) (i : UInt64), b.slots = A ++ e :: B →
    i.toNat = A.length → e.inumber ≠ 0 → cString e.name = name →
      (Block.dirEntry (b.view.freed 0 (b.view.files.blocks 1 i)) 0).inumber = e.inumber

/-- What `sfs_getattr` answers. -/
def GetattrAnswer (b : Ledger) (path name : CString) (r : ℤ × Option Stat) (ev : LedgerEvent) :
    Prop :=
  (path = [slash] ∧ r = (0, some (sfsFsInodeToStat (b.view.table 1))) ∧ ev = .look) ∨
  (path ≠ [slash] ∧ b.Unbound name ∧ r = (-enoent, none) ∧ ev = .look) ∨
  (path ≠ [slash] ∧ ∃ e, b.HasEntry e ∧ cString e.name = name ∧
    r = (0, some (sfsFsInodeToStat (b.view.table e.inumber))) ∧ ev = .look)

/-- **`sfs_getattr`** finds the inode of the entry with the name, if the memory that it
looks for it in still holds the number. -/
theorem sfsGetattr_ensures (h : b.Books s)
    (hfreed : path ≠ [slash] → ∀ name, pathName path = .inr name → b.FreedKeeps name) :
    Run.Ensures (sfsGetattr (loggedLayer allocate) path) s
      (Answers handsOut b (NameAnswer path (fun ret => (ret, none)) (GetattrAnswer b path))) := by
  have hroot := h.balanced.root
  rw [sfsGetattr]
  refine (lock_ensures h.idle).bind ?_
  rintro _ s₁ ⟨hfs, hp₁⟩
  have h₁ : Shows s₁.fs b.view := by
    rw [hfs]
    exact h.shows
  refine (onFs_ensures (splitPath_ensures h₁ path)).bind ?_
  rintro _ s₂ ⟨⟨rfl, h₂⟩, hp₂⟩
  unfold NameAnswer
  cases hpath : pathName path with
  | inl ret =>
    exact unlock_return_ensures ⟨.look, b, LedgerStep.look hroot (DirTouched.refl 1 _), h₂,
      hp₂.trans (hp₁.trans h.pool), rfl, rfl⟩
  | inr name =>
  dsimp only
  refine (onFs_ensures (sfsDirRoot_ensures h₂ hroot)).bind ?_
  rintro _ s₃ ⟨⟨rfl, h₃⟩, hp₃⟩
  have hpool₃ : s₃.fdPool = b.pool := hp₃.trans (hp₂.trans (hp₁.trans h.pool))
  dsimp only
  by_cases hslash : path = [slash]
  · rw [if_pos hslash]
    exact unlock_return_ensures ⟨.look, b, LedgerStep.look hroot (DirTouched.refl 1 _), h₃,
      hpool₃, Or.inl ⟨hslash, rfl, rfl⟩⟩
  rw [if_neg hslash]
  refine (onFs_ensures (sfsDirIterate_ensures h₃ hroot)).bind ?_
  rintro _ s₄ ⟨⟨h₄, it, rfl, hahead⟩, hp₄⟩
  dsimp only
  refine (onFs_ensures (search_ensures (serves_shows allocate) h₄ hahead
    (pathName_short hpath))).bind ?_
  rintro found s₅ ⟨⟨w₅, haccess, h₅, hfound⟩, hp₅⟩
  have hpool : s₅.fdPool = b.pool := hp₅.trans (hp₄.trans hpool₃)
  cases found with
  | stop directory =>
    exact unlock_return_ensures ⟨.look, { b with view := w₅ },
      LedgerStep.look (haccess.directory hroot) haccess.touched, h₅, hpool,
      Or.inr (Or.inl ⟨hslash, unbound_of_search hfound.2, rfl, rfl⟩)⟩
  | found it j =>
    obtain ⟨hkept, -, before, e, after, hslots, hname, hstops⟩ := hfound
    have hentry := h.balanced.hasEntry hslots hstops.used
    have htouched := haccess.released.touched
    dsimp only
    refine (onFs_ensures (h₅.free_ensures it.cachedBlock)).bind ?_
    rintro _ s₆ ⟨⟨rfl, h₆⟩, hp₆⟩
    have hj := hstops.first
    subst hj
    -- the number is read from the memory that was freed
    have hnumber : (Block.dirEntry (w₅.freed 0 it.cachedBlock) 0).inumber = e.inumber := by
      rw [hkept, hstops.block, haccess.files]
      exact hfreed hslash name hpath before e after it.iblock hslots hstops.iblock hstops.used hname
    rw [hnumber]
    refine (onFs_ensures (h₆.readInode_ensures (htouched.valid hentry.valid))).bind ?_
    rintro _ s₇ ⟨⟨rfl, h₇⟩, hp₇⟩
    refine unlock_return_ensures ⟨.look, { b with view := w₅.released },
      LedgerStep.look (haccess.released.directory hroot) htouched, h₇, hp₇.trans (hp₆.trans hpool),
      Or.inr (Or.inr ⟨hslash, e, hentry, hname, ?_, rfl⟩)⟩
    rw [htouched.others _ hentry.notRoot]

/-! ### `sfs_release` -/

/-- A handle that is a number comes back as that number. -/
theorem toCInt_ofCInt {n : ℕ} (hn : n < 2 ^ 31) : toCInt (ofCInt n) = n := by
  have hnat : (ofCInt n).toNat = n := BlockRange.toNat_ofInt_natCast (Nat.lt_trans hn (by decide))
  rw [toCInt, hnat]
  split <;> omega

/-- **`sfs_release`** closes a handle of a file. -/
theorem sfsRelease_ensures {n : ℕ} {k : UInt64} (h : b.Books s) (hn : n ∈ b.opened)
    (hk : (b.pool.slot n).inumber = k) (hk1 : k ≠ 1) :
    Run.Ensures (sfsRelease (loggedLayer allocate) (ofCInt n)) s
      (Answers handsOut b fun r ev => r = 0 ∧ ev = .releases k n) := by
  have hroot := h.balanced.root
  obtain ⟨free, hhandles⟩ := h.balanced.pool
  have hlt := hhandles.lt_of_opened hn
  have hpos : 0 < b.refs k := by
    rw [← hk]
    exact Ledger.Balanced.refs_of_handle hn
  have hvalid := h.balanced.valid k hpos
  obtain ⟨hplain, hlinks⟩ := h.balanced.counted k hk1 hpos
  rw [sfsRelease, toCInt_ofCInt (Nat.lt_trans hlt hhandles.small)]
  refine (lock_ensures h.idle).bind ?_
  rintro _ s₁ ⟨hfs, hp₁⟩
  have h₁ : Shows s₁.fs b.view := by
    rw [hfs]
    exact h.shows
  have hpool₁ := hp₁.trans h.pool
  refine Run.Ensures.bind (P := fun answer t => answer = some n ∧ s₁ = t)
    ⟨_, _, sfsFiledescriptorGetFromFd_run (by rw [hpool₁]; exact hlt), rfl, rfl⟩ ?_
  rintro _ _ ⟨rfl, rfl⟩
  dsimp only
  refine Run.Ensures.bind (P := fun t u => s₁ = t ∧ s₁ = u) ⟨s₁, s₁, rfl, rfl, rfl⟩ ?_
  rintro _ _ ⟨rfl, rfl⟩
  rw [hpool₁, hk]
  refine (onFs_ensures (h₁.readInode_ensures hvalid)).bind ?_
  rintro _ s₂ ⟨⟨rfl, h₂⟩, hp₂⟩
  dsimp only
  have hassert : 0 < (b.view.table k).links :=
    UInt32.lt_iff_toNat_lt.mpr (by rw [hlinks]; exact hpos)
  rw [decide_eq_true hassert, Run.assert_true, Run.pure_bind']
  refine (onFs_ensures h₂.time_ensures).bind ?_
  rintro t s₃ ⟨h₃, hp₃⟩
  have hpool₃ : s₃.fdPool = b.pool := hp₃.trans (hp₂.trans hpool₁)
  -- what follows the removal of the link
  have hrest : ∀ (s₄ : SfsState DirFiles) w₄, Shows s₄.fs w₄ → RootDir w₄ b.slots →
      Dropped b.view w₄ k → s₄.fdPool = b.pool →
      Run.Ensures (do sfsFiledescriptorFree n; unlock; return (0 : ℤ)) s₄
        (Answers handsOut b fun r ev => r = 0 ∧ ev = .releases k n) := by
    intro s₄ w₄ h₄ hroot₄ hdropped hpool₄
    refine Run.Ensures.bind (P := fun _ t => t.fs = s₄.fs ∧ t.fdPool = b.pool.push n)
      ⟨(), _, rfl, rfl, congrArg (FdPool.push · n) hpool₄⟩ ?_
    rintro _ s₅ ⟨hfs₅, hp₅⟩
    refine unlock_return_ensures ⟨.releases k n, ⟨w₄, b.slots, b.pool.push n, b.opened.erase n⟩,
      ?_, by rw [hfs₅]; exact h₄, hp₅, rfl, rfl⟩
    exact LedgerStep.releases hroot₄ hk hk1 hdropped
      ⟨hn, ⟨n :: free, hhandles.push hn⟩, fun m _ hmn => FdPool.slot_setSlot_of_ne hmn⟩
  have hone := unlinked_links_eq_zero_iff (b.view.table k) t
  by_cases hlast : (b.view.table k).links - 1 = 0
  · rw [if_pos hlast]
    refine (onFs_ensures (deallocate_drops h₃ hvalid hk1 hplain (hone.mp hlast) t)).bind ?_
    rintro _ s₄ ⟨⟨rfl, w₄, h₄, hapart, hdropped⟩, hp₄⟩
    rw [if_neg (by simp)]
    exact hrest s₄ w₄ h₄ (hapart.directory hroot) hdropped (hp₄.trans hpool₃)
  · rw [if_neg hlast]
    have hplain' : ((b.view.table k).unlinked t).Plain k := ⟨hplain.inumber, hplain.pointers⟩
    refine (onFs_ensures (h₃.writeFile hplain' hvalid hk1)).bind ?_
    rintro _ s₄ ⟨⟨rfl, h₄, -⟩, hp₄⟩
    rw [if_neg (by simp)]
    exact hrest s₄ _ h₄ ((Apart.setInode _ (hplain'.ne_root hk1)).directory hroot)
      (dropped_setInode hk1 hplain (fun h1 => hlast (hone.mpr h1)) t) (hp₄.trans hpool₃)

/-! ### `sfs_create` -/

/-- **What is asked of `sfs_fs_inode_allocate`** in a state with this ledger: it fails, or it
returns an inode that is not in use, and takes it off the free inode list. -/
def Ledger.Allocates (allocate : Fs DirFiles (Option Inode))
    (handsOut : View → UInt64 → UInt64 → Prop) (b : Ledger) : Prop :=
  ∀ fs w, Shows fs w → RootTouched b.view w → Run.Ensures allocate fs fun answer fs' =>
    match answer with
    | none => Shows fs' w
    | some v => b.Unused v.inumber ∧
      ∃ head, handsOut b.view v.inumber head ∧ Shows fs' (w.withHead head)

theorem Ledger.Allocates.mono {handsOut' : View → UInt64 → UInt64 → Prop}
    (h : b.Allocates allocate handsOut) (hle : ∀ w k head, handsOut w k head → handsOut' w k head) :
    b.Allocates allocate handsOut' := by
  intro fs w hshows htouched
  refine (h fs w hshows htouched).mono ?_
  intro answer fs' hanswer
  cases answer with
  | none => exact hanswer
  | some v =>
    obtain ⟨hunused, head, hhanded, h'⟩ := hanswer
    exact ⟨hunused, head, hle _ _ _ hhanded, h'⟩

/-- What `sfs_create` answers. -/
def CreateAnswer (b : Ledger) (name : CString) (flags : UInt64) (r : ℤ × Option UInt64)
    (ev : LedgerEvent) : Prop :=
  (∃ e, b.HasEntry e ∧ cString e.name = name ∧ flags &&& oExcl ≠ 0 ∧ r = (-eexist, none) ∧
    ev = .look) ∨
  (∃ e n, b.HasEntry e ∧ cString e.name = name ∧ flags &&& oExcl = 0 ∧
    r = (0, some (ofCInt (n : ℕ))) ∧ ev = .opens e.inumber n) ∨
  (b.Unbound name ∧ r = (-edquot, none) ∧ ev = .look) ∨
  (b.Unbound name ∧ r = (-1, none) ∧ ∃ k, ev = .leaks k) ∨
  (b.Unbound name ∧ ∃ k n, r = (0, some (ofCInt (n : ℕ))) ∧ ev = .creates name k n)

theorem newFile_ensures {fs : Filesystem DirFiles} {w : View} (h : Shows fs w)
    (context : FuseContext) (mode : UInt32) (directory v : Inode) :
    Run.Ensures (newFile context mode directory v) fs fun file fs' =>
      file.Plain v.inumber ∧ file.links = 1 ∧ Shows fs' w := by
  rw [newFile]
  refine h.time_ensures.bind ?_
  rintro _ fs₁ h₁
  refine h₁.time_ensures.bind ?_
  rintro _ fs₂ h₂
  refine h₂.time_ensures.bind ?_
  rintro _ fs₃ h₃
  exact Run.ensures_pure ⟨⟨rfl, rfl⟩, rfl, h₃⟩

/-- What `sfs_create` does with an inode that was allocated. -/
def createWith (L : InodeLayer DirFiles) (context : FuseContext) (mode : UInt32) (flags : UInt64)
    (name : CString) (directory file : Inode) : Sfs DirFiles (ℤ × Option UInt64) := do
  let file ← onFs (newFile context mode directory file)
  if (← onFs (sfsFsWriteInode file)) ≠ 0 then
    unlock
    return (-1, none)
  let (ret, _, _) ← onFs (sfsDirLink L directory name file)
  if ret ≠ 0 then
    unlock
    return (-1, none)
  openHandle file.inumber flags

/-- **`sfs_create` of a name that is not there** comes to allocate an inode. -/
theorem sfsCreate_unbound (h : b.Books s) (hpath : pathName path = .inr name)
    (hunbound : b.Unbound name) (allocate : Fs DirFiles (Option Inode)) (context : FuseContext)
    (mode : UInt32) (flags : UInt64) :
    ∃ t w, Shows t.fs w ∧ RootTouched b.view w ∧ RootDir w b.slots ∧ t.fdPool = b.pool ∧
      (sfsCreate (loggedLayer allocate) context path mode flags).run s = (do
        let some file ← onFs allocate |
          unlock
          return (-edquot, none)
        createWith (loggedLayer allocate) context mode flags name (w.table 1) file :
          Sfs DirFiles (ℤ × Option UInt64)).run t := by
  have hroot := h.balanced.root
  rw [sfsCreate]
  obtain ⟨_, s₁, ⟨hfs, hp₁⟩, hrun₁⟩ := (lock_ensures h.idle).goes_on
  have h₁ : Shows s₁.fs b.view := by
    rw [hfs]
    exact h.shows
  obtain ⟨_, s₂, ⟨⟨rfl, h₂⟩, hp₂⟩, hrun₂⟩ := (onFs_ensures (splitPath_ensures h₁ path)).goes_on
  obtain ⟨_, s₃, ⟨⟨rfl, h₃⟩, hp₃⟩, hrun₃⟩ := (onFs_ensures (sfsDirRoot_ensures h₂ hroot)).goes_on
  obtain ⟨_, s₄, ⟨⟨h₄, it, rfl, hahead⟩, hp₄⟩, hrun₄⟩ :=
    (onFs_ensures (sfsDirIterate_ensures h₃ hroot)).goes_on
  obtain ⟨found, s₅, ⟨⟨w₅, haccess, h₅, hfound⟩, hp₅⟩, hrun₅⟩ := (onFs_ensures
    (search_ensures (serves_shows allocate) h₄ hahead (pathName_short hpath))).goes_on
  rw [hrun₁, hrun₂, hpath]
  dsimp only
  rw [hrun₃]
  dsimp only
  rw [hrun₄]
  dsimp only
  rw [hrun₅]
  cases found with
  | found it j =>
    obtain ⟨-, -, before, e, after, hslots, hname, hstops⟩ := hfound
    exact absurd hname (hunbound e (h.balanced.hasEntry hslots hstops.used).mem)
  | stop directory =>
    obtain ⟨rfl, -⟩ := hfound
    exact ⟨s₅, w₅, h₅, haccess.touched, haccess.directory hroot,
      hp₅.trans (hp₄.trans (hp₃.trans (hp₂.trans (hp₁.trans h.pool)))), rfl⟩

/-- **A new file** gets the name and a handle, or no name: the directory is full. -/
theorem createWith_ensures {w : View} {v : Inode} {head : UInt64} (hb : b.Balanced)
    (hpath : pathName path = .inr name) (hzero : 0 ∉ path)
    (few : b.opened.length + slotsPerSlab < 2 ^ 31) (hunbound : b.Unbound name)
    (htouched : RootTouched b.view w) (hroot : RootDir w b.slots) (hunused : b.Unused v.inumber)
    (hhanded : handsOut b.view v.inumber head) (h : Shows s.fs (w.withHead head))
    (hpool : s.fdPool = b.pool) (context : FuseContext) (mode : UInt32) :
    Run.Ensures
      (createWith (loggedLayer allocate) context mode flags name (w.table 1) v) s
      (Answers handsOut b fun r ev => (r = (-1, none) ∧ ev = .leaks v.inumber) ∨
        ∃ n : ℕ, r = (0, some (ofCInt n)) ∧ ev = .creates name v.inumber n) := by
  obtain ⟨free, hhandles⟩ := hb.pool
  rw [createWith]
  refine (onFs_ensures (newFile_ensures h context mode (w.table 1) v)).bind ?_
  rintro file s₇ ⟨⟨hplain, hlinks, h₇⟩, hp₇⟩
  generalize v.inumber = k at hunused hhanded hplain
  have hk := htouched.valid hunused.valid
  have hk1 := hunused.notRoot
  have hroot₆ : RootDir (w.withHead head) b.slots := hroot.congr rfl rfl hroot.inumber rfl rfl
  refine (onFs_ensures (h₇.writeFile hplain (hk.congr rfl) hk1)).bind ?_
  rintro _ s₈ ⟨⟨rfl, h₈, hset⟩, hp₈⟩
  rw [if_neg (by simp)]
  have hne := hplain.ne_root hk1
  have hroot₈ := (Apart.setInode _ hne).directory hroot₆
  have hsets : Sets b.view ((w.withHead head).setInode file) k file.links :=
    htouched.sets hset.of_withHead
  have hdirectory₈ : w.table 1 = ((w.withHead head).setInode file).table 1 := by
    rw [View.setInode_table_of_ne (Ne.symm hne)]
    rfl
  rw [hdirectory₈]
  have hpool₈ : s₈.fdPool = b.pool := hp₈.trans (hp₇.trans hpool)
  refine (onFs_ensures (sfsDirLink_ensures h₈ hroot₈ (pathName_short hpath) hplain
    (hk.congr rfl) hk1)).bind ?_
  rintro ⟨ret, directory', file'⟩ s₉ ⟨hlink, hp₉⟩
  have hpool₉ : s₉.fdPool = b.pool := hp₉.trans hpool₈
  dsimp only at hlink ⊢
  rcases hlink with ⟨rfl, w₉, slots', h₉, hroot₉, hfills, hset₉, hlist⟩ | ⟨rfl, h₉, hfull, hused⟩
  · rw [if_neg (by simp), hplain.inumber]
    rw [← hpool₉] at hhandles
    refine (openHandle_ensures h₉ hhandles few k flags).mono ?_
    rintro _ t ⟨n, rfl, hopened, ht⟩
    rw [hpool₉] at hopened
    have hset₂ := hsets.trans hset₉
    rw [hlinks] at hset₂
    refine ⟨.creates name k n, ⟨w₉, slots', t.fdPool, n :: b.opened⟩, ?_, ht, rfl,
      Or.inr ⟨n, rfl, rfl⟩⟩
    refine LedgerStep.creates hroot₉ hfills hunbound ?_ ?_ hunused hset₂ ?_ ?_ hopened
    · exact pathName_ne_nil hpath
    · exact cString_strncpy256 (pathName_short hpath) (pathName_zero hpath hzero)
    · rw [hlist.head]
      exact hhanded
    · rw [hlist.deallocated]
      exact htouched.deallocated
  · rw [if_pos (by simp)]
    rw [hlinks] at hsets
    refine unlock_return_ensures ⟨.leaks k, { b with view := (w.withHead head).setInode file },
      ?_, h₉, hpool₉, Or.inl ⟨rfl, rfl⟩⟩
    exact LedgerStep.leaks hroot₈ hfull hused hunused hsets hhanded htouched.deallocated

/-- **`sfs_create`** opens a handle on the file with the name, or on a new file. -/
theorem sfsCreate_ensures (h : b.Books s) (hzero : 0 ∉ path)
    (few : b.opened.length + slotsPerSlab < 2 ^ 31) (hallocate : b.Allocates allocate handsOut)
    (context : FuseContext) (mode : UInt32) :
    Run.Ensures (sfsCreate (loggedLayer allocate) context path mode flags) s
      (Answers handsOut b
        (NameAnswer path (fun ret => (ret, none)) fun name => CreateAnswer b name flags)) := by
  have hroot := h.balanced.root
  obtain ⟨free, hhandles⟩ := h.balanced.pool
  rw [sfsCreate]
  refine (lock_ensures h.idle).bind ?_
  rintro _ s₁ ⟨hfs, hp₁⟩
  have h₁ : Shows s₁.fs b.view := by
    rw [hfs]
    exact h.shows
  refine (onFs_ensures (splitPath_ensures h₁ path)).bind ?_
  rintro _ s₂ ⟨⟨rfl, h₂⟩, hp₂⟩
  unfold NameAnswer
  cases hpath : pathName path with
  | inl ret =>
    exact unlock_return_ensures ⟨.look, b, LedgerStep.look hroot (DirTouched.refl 1 _), h₂,
      hp₂.trans (hp₁.trans h.pool), rfl, rfl⟩
  | inr name =>
  dsimp only
  refine (onFs_ensures (sfsDirRoot_ensures h₂ hroot)).bind ?_
  rintro _ s₃ ⟨⟨rfl, h₃⟩, hp₃⟩
  dsimp only
  refine (onFs_ensures (sfsDirIterate_ensures h₃ hroot)).bind ?_
  rintro _ s₄ ⟨⟨h₄, it, rfl, hahead⟩, hp₄⟩
  dsimp only
  refine (onFs_ensures (search_ensures (serves_shows allocate) h₄ hahead
    (pathName_short hpath))).bind ?_
  rintro found s₅ ⟨⟨w₅, haccess, h₅, hfound⟩, hp₅⟩
  have hpool : s₅.fdPool = b.pool :=
    hp₅.trans (hp₄.trans (hp₃.trans (hp₂.trans (hp₁.trans h.pool))))
  cases found with
  | found it j =>
    obtain ⟨-, -, before, e, after, hslots, hname, hstops⟩ := hfound
    have hentry := h.balanced.hasEntry hslots hstops.used
    have htouched := haccess.released.touched
    dsimp only
    rw [hstops.entry]
    refine (onFs_ensures (h₅.free_ensures it.cachedBlock)).bind ?_
    rintro _ s₆ ⟨⟨-, h₆⟩, hp₆⟩
    by_cases hexcl : flags &&& oExcl ≠ 0
    · rw [if_pos hexcl]
      exact unlock_return_ensures ⟨.look, { b with view := w₅.released },
        LedgerStep.look (haccess.released.directory hroot) htouched, h₆, hp₆.trans hpool,
        Or.inl ⟨e, hentry, hname, hexcl, rfl, rfl⟩⟩
    rw [if_neg hexcl]
    refine (onFs_ensures (addLink_ensures h₆ (haccess.released.directory hroot)
      (htouched.valid hentry.valid) hentry.notRoot (hentry.plain_touched htouched))).bind ?_
    rintro _ s₇ ⟨⟨w₇, h₇, hroot₇, hadded, rfl⟩, hp₇⟩
    dsimp only
    have hpool₇ : s₇.fdPool = b.pool := hp₇.trans (hp₆.trans hpool)
    rw [← hpool₇] at hhandles
    refine (openHandle_ensures h₇ hhandles few e.inumber flags).mono ?_
    rintro _ s₈ ⟨n, rfl, hopened, h₈⟩
    rw [hpool₇] at hopened
    refine ⟨.opens e.inumber n, ⟨w₇, b.slots, s₈.fdPool, n :: b.opened⟩, ?_, h₈, rfl,
      Or.inr (Or.inl ⟨e, n, hentry, hname, not_not.mp hexcl, rfl, rfl⟩)⟩
    exact LedgerStep.opens hroot₇ (List.mem_map_of_mem hentry.mem)
      (htouched.added hentry.notRoot hadded) hopened
  | stop directory =>
    obtain ⟨hdirectory, hnone⟩ := hfound
    have hunbound := unbound_of_search hnone
    have htouched := haccess.touched
    have hroot₅ := haccess.directory hroot
    dsimp only
    refine (onFs_ensures (hallocate s₅.fs w₅ h₅ htouched)).bind ?_
    rintro answer s₆ ⟨hanswer, hp₆⟩
    cases answer with
    | none =>
      exact unlock_return_ensures ⟨.look, { b with view := w₅ }, LedgerStep.look hroot₅ htouched,
        hanswer, hp₆.trans hpool, Or.inr (Or.inr (Or.inl ⟨hunbound, rfl, rfl⟩))⟩
    | some v =>
    obtain ⟨hunused, head, hhanded, h₆⟩ := hanswer
    dsimp only
    rw [hdirectory]
    refine (createWith_ensures h.balanced hpath hzero few hunbound htouched hroot₅ hunused
      hhanded h₆
      (hp₆.trans hpool) context mode).mono ?_
    rintro r t ⟨ev, b', hstep, ht, hpool', hanswer⟩
    refine ⟨ev, b', hstep, ht, hpool', ?_⟩
    rcases hanswer with ⟨rfl, rfl⟩ | ⟨n, rfl, rfl⟩
    · exact Or.inr (Or.inr (Or.inr (Or.inl ⟨hunbound, rfl, _, rfl⟩)))
    · exact Or.inr (Or.inr (Or.inr (Or.inr ⟨hunbound, _, n, rfl, rfl⟩)))

/-- **A new name** gets the first inode of the free inode list, if there is room for it. -/
theorem sfsCreate_creates (h : b.Books s) (hpath : pathName path = .inr name) (hzero : 0 ∉ path)
    (few : b.opened.length + slotsPerSlab < 2 ^ 31) (hunbound : b.Unbound name)
    (hunused : b.Unused b.view.head)
    (hroom : ¬ (b.slots.length = mappedBlocks ∧ ∀ e ∈ b.slots, e.inumber ≠ 0))
    (hinumber : (b.view.table b.view.head).inumber = b.view.head)
    (hhanded : handsOut b.view b.view.head (b.view.table b.view.head).size)
    (context : FuseContext) (mode : UInt32) :
    Run.Ensures (sfsCreate (loggedLayer sfsFsInodeAllocate) context path mode flags) s
      (Answers handsOut b fun r ev =>
        ∃ n : ℕ, r = (0, some (ofCInt n)) ∧ ev = .creates name b.view.head n) := by
  obtain ⟨t, w, ht, htouched, hroot, hpool, hrun⟩ :=
    sfsCreate_unbound h hpath hunbound sfsFsInodeAllocate context mode flags
  have hhead : w.head = b.view.head := htouched.head
  have htable : w.table w.head = b.view.table b.view.head := by
    rw [hhead, htouched.others _ hunused.notRoot]
  have hvalid : w.Valid w.head := by
    rw [hhead]
    exact htouched.valid hunused.valid
  obtain ⟨_, u, ⟨⟨rfl, hu⟩, hpu⟩, hallocated⟩ := (onFs_ensures (ht.allocate_ensures hvalid)).goes_on
  rw [htable] at hu hallocated
  rw [hallocated] at hrun
  have hunused' : b.Unused (b.view.table b.view.head).inumber := by
    rw [hinumber]
    exact hunused
  have hhanded' : handsOut b.view (b.view.table b.view.head).inumber
      (b.view.table b.view.head).size := by
    rw [hinumber]
    exact hhanded
  obtain ⟨r, s', hrest, ev, b', hstep, hshows, hpool', hans⟩ := createWith_ensures h.balanced hpath
    hzero few hunbound htouched hroot hunused' hhanded' hu (hpu.trans hpool) context mode
  refine ⟨r, s', hrun.trans hrest, ev, b', hstep, hshows, hpool', ?_⟩
  rw [hinumber] at hans
  refine hans.resolve_left ?_
  rintro ⟨-, rfl⟩
  cases hstep with
  | leaks root full used unused sets handed deallocated => exact hroom ⟨full, used⟩

/-! ### `sfs_readdir` -/

/-- The call of the filler for an entry. -/
def fillerCall (w : View) (e : DirEntry) : FillerCall :=
  (cString e.name, some (sfsFsInodeToStat (w.table e.inumber)))

/-- The listing of the entries from some slot on: as far as the filler takes it. -/
structure Lists (filler : List FillerCall → Bool) (calls all answer : List FillerCall) : Prop where
  pre : answer <+: calls ++ all
  whole : (∀ calls, filler calls = false) → answer = calls ++ all

theorem Lists.cons {filler : List FillerCall → Bool} {calls all answer : List FillerCall}
    {call : FillerCall} (h : Lists filler (calls ++ [call]) all answer) :
    Lists filler calls (call :: all) answer := by
  obtain ⟨hpre, hwhole⟩ := h
  rw [List.append_assoc, List.singleton_append] at hpre hwhole
  exact ⟨hpre, hwhole⟩

theorem live_of_unused {slots : List DirEntry} (h : ∀ e ∈ slots, e.inumber = 0) :
    live slots = [] :=
  List.filter_eq_nil_iff.mpr fun e he => by simpa using h e he

theorem Accessed.fillerCall {w w' : View} (h : Accessed 1 w w') {e : DirEntry}
    (he : e.inumber ≠ 1) : fillerCall w' e = fillerCall w e := by
  rw [SimpleFileSystem.fillerCall, h.table_of_ne he]
  rfl

theorem readdirLoop_ensures {fs : Filesystem DirFiles} {w : View} {it : DirIterator}
    {passed ahead : List DirEntry} (filler : List FillerCall → Bool) (calls : List FillerCall)
    (h : Shows fs w) (hahead : Ahead 1 w it passed ahead)
    (hentries : ∀ e ∈ ahead, e.inumber ≠ 0 → w.Valid e.inumber ∧ e.inumber ≠ 1) {n : ℕ}
    (hn : ahead.length < n) :
    Run.Ensures (Run.loop (readdirStep (loggedLayer allocate) filler) n (it, calls)) fs
      fun answer fs' => ∃ w', Accessed 1 w w' ∧ Shows fs' w' ∧
        Lists filler calls ((live ahead).map (fillerCall w)) answer := by
  induction n generalizing fs w it passed ahead calls with
  | zero => exact absurd hn (Nat.not_lt_zero _)
  | succ n ih =>
    rw [Run.loop, readdirStep, Run.bind_assoc']
    refine (sfsDirIternext_ensures (serves_shows _) h hahead fun _ e he h0 =>
      (hentries e he h0).1).bind ?_
    rintro answer fs₁ ⟨w₁, haccess, h₁, hpost⟩
    cases answer with
    | stop directory =>
      refine Run.ensures_pure ⟨w₁, haccess, h₁, ?_⟩
      rw [live_of_unused hpost.2, List.map_nil]
      exact ⟨by rw [List.append_nil], fun _ => (List.append_nil calls).symm⟩
    | entry it₁ j v =>
      obtain ⟨-, unused, e, ahead', rfl, hunused, hstops, hahead₁⟩ := hpost
      have hused := hstops.used
      have he := hentries e (List.mem_append_right unused List.mem_cons_self) hused
      have hlive : live (unused ++ e :: ahead') = e :: live ahead' := by
        rw [live_append, live_of_unused hunused, List.nil_append, live_cons_of_used hused]
      have hcall : (cString e.name, some (sfsFsInodeToStat v)) = fillerCall w e := by
        rw [hstops.inode, if_pos rfl, ← haccess.fillerCall he.2]
        rfl
      dsimp only
      rw [hstops.entry, hcall, hlive, List.map_cons]
      by_cases hfull : filler (calls ++ [fillerCall w e]) = true
      · rw [if_pos hfull]
        refine Run.ensures_pure ⟨w₁, haccess, h₁, ?_, fun hnever => ?_⟩
        · exact ⟨(live ahead').map (fillerCall w), by simp⟩
        · rw [hnever] at hfull
          cases hfull
      · rw [if_neg hfull]
        have hlt : ahead'.length < n := by
          rw [List.length_append, List.length_cons] at hn
          omega
        have hentries' : ∀ d ∈ ahead', d.inumber ≠ 0 → w.Valid d.inumber ∧ d.inumber ≠ 1 :=
          fun d hd => hentries d (List.mem_append_right unused (List.mem_cons_of_mem e hd))
        refine (ih (calls ++ [fillerCall w e]) h₁ hahead₁
          (fun d hd h0 => ⟨haccess.valid (hentries' d hd h0).1, (hentries' d hd h0).2⟩) hlt).mono ?_
        rintro answer fs₂ ⟨w₂, haccess₂, h₂, hlists⟩
        have hsame : (live ahead').map (fillerCall w₁) = (live ahead').map (fillerCall w) := by
          refine List.map_congr_left fun d hd => ?_
          obtain ⟨hd, h0⟩ := mem_live.mp hd
          exact haccess.fillerCall (hentries' d hd h0).2
        rw [hsame] at hlists
        exact ⟨w₂, haccess.trans haccess₂, h₂, hlists.cons⟩

/-- What `sfs_readdir` lists of the root directory. -/
def Ledger.listing (b : Ledger) : List FillerCall :=
  [(dot, none), (dot ++ dot, none)] ++ (live b.slots).map (fillerCall b.view)

/-- **`sfs_readdir`** lists the entries in use. -/
theorem sfsReaddir_ensures (h : b.Books s) (filler : List FillerCall → Bool) :
    Run.Ensures (sfsReaddir (loggedLayer allocate) filler [slash]) s
      (Answers handsOut b fun r ev =>
        r.1 = 0 ∧ Lists filler [] b.listing r.2 ∧ ev = .look) := by
  have hroot := h.balanced.root
  rw [sfsReaddir]
  refine (lock_ensures h.idle).bind ?_
  rintro _ s₁ ⟨hfs, hp₁⟩
  have h₁ : Shows s₁.fs b.view := by
    rw [hfs]
    exact h.shows
  rw [if_neg (not_not.mpr rfl)]
  refine (onFs_ensures (sfsDirRoot_ensures h₁ hroot)).bind ?_
  rintro _ s₂ ⟨⟨rfl, h₂⟩, hp₂⟩
  have hpool₂ : s₂.fdPool = b.pool := hp₂.trans (hp₁.trans h.pool)
  dsimp only
  by_cases hone : filler [(dot, none)] = true
  · rw [if_pos hone]
    refine unlock_return_ensures ⟨.look, b, LedgerStep.look hroot (DirTouched.refl 1 _), h₂,
      hpool₂, rfl, ⟨⟨_, rfl⟩, fun hnever => ?_⟩, rfl⟩
    rw [hnever] at hone
    cases hone
  rw [if_neg hone]
  by_cases htwo : filler ([(dot, none)] ++ [(dot ++ dot, none)]) = true
  · rw [if_pos htwo]
    refine unlock_return_ensures ⟨.look, b, LedgerStep.look hroot (DirTouched.refl 1 _), h₂,
      hpool₂, rfl, ⟨⟨_, rfl⟩, fun hnever => ?_⟩, rfl⟩
    rw [hnever] at htwo
    cases htwo
  rw [if_neg htwo]
  refine (onFs_ensures (sfsDirIterate_ensures h₂ hroot)).bind ?_
  rintro _ s₃ ⟨⟨h₃, it, rfl, hahead⟩, hp₃⟩
  dsimp only
  have hmapped := hroot.mapped
  unfold mappedBlocks at hmapped
  have hentries : ∀ e ∈ b.slots, e.inumber ≠ 0 → b.view.Valid e.inumber ∧ e.inumber ≠ 1 := by
    intro e he h0
    have hlive := mem_live.mpr ⟨he, h0⟩
    exact ⟨h.balanced.valid _ (Ledger.Balanced.refs_of_entry hlive), (h.balanced.files e hlive).1⟩
  refine (onFs_ensures (readdirLoop_ensures filler _ h₃ hahead hentries
    (by unfold loopBound; omega))).bind ?_
  rintro answer s₄ ⟨⟨w₄, haccess, h₄, hlists⟩, hp₄⟩
  refine unlock_return_ensures ⟨.look, { b with view := w₄ },
    LedgerStep.look (haccess.directory hroot) haccess.touched, h₄,
    hp₄.trans (hp₃.trans hpool₂), rfl, ⟨hlists.pre, hlists.whole⟩, rfl⟩

end Requests

end SimpleFileSystem
