import SimpleFileSystem.FdPool
import SimpleFileSystem.ReadWrite

/-!
# Every request gives the lock back, but one

The mutex is taken and given back by hand.  Between the two a request does work that
leaves the mutex alone (`Run.Keeps`), and what is left of it from any point on should
make one call, that of `pthread_mutex_unlock` (`Unlocks`).  Both are compositional, so
the proof for a request is the request, read branch by branch.

`sfs_opendir` returns without it in two places: for a path that is not `/`, and where its
walk finds a file without a name (`HasUnnamedFile`).  `gives_back_iff` says that there is
no third, in any of the requests, and `lock_is_given_back` is what that means for
sequences of requests: the mutex is free whenever one starts.
-/

namespace SimpleFileSystem

variable {F α β : Type}

/-! ## Programs that leave the mutex alone, and programs that give it back -/

theorem keeps_onFs (x : Fs F α) : Run.Keeps SfsState.mu (onFs x) := by
  intro s a s' h
  rw [onFs, Run.run_zoom] at h
  cases hx : x.run s.fs with
  | done b fs =>
    rw [hx, Outcome.onState_done] at h
    cases h
    rfl
  | halt e =>
    rw [hx, Outcome.onState_halt] at h
    cases h

/-- What is left of a request gives the mutex back and makes no other call on it. -/
def Unlocks (x : Sfs F α) : Prop :=
  ∀ s a s', x.run s = .done a s' → s'.mu = .unlock :: s.mu

theorem unlocks_return (a : α) : Unlocks (unlock >>= fun _ => pure a : Sfs F α) := by
  intro s b s' h
  cases h
  rfl

theorem Unlocks.bind {x : Sfs F α} {f : α → Sfs F β} (hx : Run.Keeps SfsState.mu x)
    (hf : ∀ a, Unlocks (f a)) : Unlocks (x >>= f) := by
  intro s b s' h
  obtain ⟨a, t, ha, hb⟩ := Run.bind_eq_done.mp h
  rw [hf a t b s' hb, hx s a t ha]

theorem Unlocks.ite {c : Prop} [Decidable c] {x y : Sfs F α} (hx : Unlocks x)
    (hy : Unlocks y) : Unlocks (if c then x else y) := by
  split
  · exact hx
  · exact hy

theorem unlocks_halt (e : Halt) : Unlocks (Run.halt e : Sfs F α) := by
  intro s a s' h
  cases h

/-- A program that takes the mutex and gives it back. -/
def GivesBack (x : Sfs F α) (s : SfsState F) : Prop :=
  ∀ a s', x.run s = .done a s' → s'.mu = .unlock :: .lock :: s.mu

theorem lock_run {s s' : SfsState F} (h : lock.run s = .done () s') :
    ¬ s.Locked ∧ s' = { s with mu := .lock :: s.mu } := by
  by_cases hlocked : s.Locked
  · rw [lock, Run.run_bind, Run.run_get, Run.andThen_done, if_pos hlocked] at h
    cases h
  · rw [lock, Run.run_bind, Run.run_get, Run.andThen_done, if_neg hlocked] at h
    cases h
    exact ⟨hlocked, rfl⟩

theorem Unlocks.givesBack {x : Sfs F α} (h : Unlocks x) (s : SfsState F) :
    GivesBack (lock >>= fun _ => x) s := by
  intro a s' hrun
  obtain ⟨⟨⟩, t, hlock, hx⟩ := Run.bind_eq_done.mp hrun
  obtain ⟨-, rfl⟩ := lock_run hlock
  exact h _ a s' hx

section Pool

theorem keeps_allocate :
    Run.Keeps SfsState.mu (sfsFiledescriptorAllocate : Sfs F (Option ℕ)) := by
  intro s a s' h
  by_cases hfree : s.fdPool.freelist ≠ 0
  · rw [sfsFiledescriptorAllocate, Run.run_bind, Run.run_get, Run.andThen_done,
      if_pos hfree] at h
    cases h
    rfl
  · rw [sfsFiledescriptorAllocate, Run.run_bind, Run.run_get, Run.andThen_done,
      if_neg hfree] at h
    dsimp only at h
    obtain ⟨got, t, hmalloc, h⟩ := Run.bind_eq_done.mp h
    rw [← keeps_onFs _ _ _ _ hmalloc]
    split at h
    · cases h
      rfl
    · cases h
      rfl

theorem keeps_getFromFd (fd : ℤ) :
    Run.Keeps SfsState.mu (sfsFiledescriptorGetFromFd fd : Sfs F (Option ℕ)) :=
  (Run.keeps_assert _).bind fun _ => Run.keeps_get.bind fun _ =>
    (Run.keeps_pure _).ite (Run.keeps_pure _)

theorem keeps_free (n : ℕ) : Run.Keeps SfsState.mu (sfsFiledescriptorFree n : Sfs F Unit) :=
  Run.keeps_modify fun _ => rfl

theorem unlocks_openHandle (inumber flags : UInt64) :
    Unlocks (openHandle inumber flags : Sfs F _) := by
  refine Unlocks.bind keeps_allocate fun fd => ?_
  cases fd with
  | none => exact unlocks_return _
  | some fd =>
    refine Unlocks.bind (Run.keeps_modify fun _ => rfl) fun _ => ?_
    refine Unlocks.bind (Run.keeps_modify fun _ => rfl) fun _ => ?_
    exact Unlocks.bind Run.keeps_get fun _ => unlocks_return _

end Pool

/-! ## The requests -/

section Requests

variable (L : InodeLayer F) (s : SfsState F)

theorem givesBack_getattr (path : CString) : GivesBack (sfsGetattr L path) s := by
  refine Unlocks.givesBack (Unlocks.bind (keeps_onFs _) fun name => ?_) s
  cases name with
  | inl ret => exact unlocks_return _
  | inr name =>
    refine Unlocks.bind (keeps_onFs _) fun directory => ?_
    cases directory with
    | none => exact unlocks_return _
    | some directory =>
      refine Unlocks.ite (unlocks_return _) (Unlocks.bind (keeps_onFs _) fun it => ?_)
      cases it with
      | none => exact unlocks_return _
      | some it =>
        refine Unlocks.bind (keeps_onFs _) fun found => ?_
        cases found with
        | stop _ => exact unlocks_return _
        | found it j =>
          refine Unlocks.bind (keeps_onFs _) fun block => Unlocks.bind (keeps_onFs _) fun file => ?_
          cases file with
          | none => exact unlocks_return _
          | some file => exact unlocks_return _

theorem givesBack_create (context : FuseContext) (path : CString) (mode : UInt32)
    (flags : UInt64) : GivesBack (sfsCreate L context path mode flags) s := by
  refine Unlocks.givesBack (Unlocks.bind (keeps_onFs _) fun name => ?_) s
  cases name with
  | inl ret => exact unlocks_return _
  | inr name =>
    refine Unlocks.bind (keeps_onFs _) fun directory => ?_
    cases directory with
    | none => exact unlocks_return _
    | some directory =>
      refine Unlocks.bind (keeps_onFs _) fun it => ?_
      cases it with
      | none => exact unlocks_return _
      | some it =>
        refine Unlocks.bind (keeps_onFs _) fun found => ?_
        cases found with
        | stop directory =>
          refine Unlocks.bind (keeps_onFs _) fun file => ?_
          cases file with
          | none => exact unlocks_return _
          | some file =>
            refine Unlocks.bind (keeps_onFs _) fun file => ?_
            refine Unlocks.bind (keeps_onFs _) fun ret => Unlocks.ite (unlocks_return _) ?_
            refine Unlocks.bind (keeps_onFs _) fun linked => Unlocks.ite (unlocks_return _) ?_
            exact unlocks_openHandle _ _
        | found it j =>
          refine Unlocks.bind (keeps_onFs _) fun _ => Unlocks.ite (unlocks_return _) ?_
          refine Unlocks.bind (keeps_onFs _) fun file => ?_
          cases file with
          | none => exact unlocks_return _
          | some file => exact unlocks_openHandle _ _

theorem givesBack_unlink (path : CString) : GivesBack (sfsUnlink L path) s := by
  refine Unlocks.givesBack (Unlocks.bind (keeps_onFs _) fun name => ?_) s
  cases name with
  | inl ret => exact unlocks_return _
  | inr name =>
    refine Unlocks.bind (keeps_onFs _) fun directory => ?_
    cases directory with
    | none => exact unlocks_return _
    | some directory =>
      refine Unlocks.ite (unlocks_return _) (Unlocks.bind (keeps_onFs _) fun it => ?_)
      cases it with
      | none => exact unlocks_return _
      | some it =>
        refine Unlocks.bind (keeps_onFs _) fun found => ?_
        cases found with
        | stop _ => exact unlocks_return _
        | found it j =>
          refine Unlocks.bind (keeps_onFs _) fun unlinked => Unlocks.ite (unlocks_return _) ?_
          exact Unlocks.bind (keeps_onFs _) fun _ => unlocks_return _

theorem givesBack_open (path : CString) (flags : UInt64) :
    GivesBack (sfsOpen L path flags) s := by
  refine Unlocks.givesBack (Unlocks.bind (keeps_onFs _) fun name => ?_) s
  cases name with
  | inl ret => exact unlocks_return _
  | inr name =>
    refine Unlocks.bind (keeps_onFs _) fun directory => ?_
    cases directory with
    | none => exact unlocks_return _
    | some directory =>
      refine Unlocks.bind (keeps_onFs _) fun it => ?_
      cases it with
      | none => exact unlocks_return _
      | some it =>
        refine Unlocks.bind (keeps_onFs _) fun found => ?_
        cases found with
        | stop _ => exact unlocks_return _
        | found it j =>
          refine Unlocks.bind (keeps_onFs _) fun _ => Unlocks.bind (keeps_onFs _) fun file => ?_
          cases file with
          | none => exact unlocks_return _
          | some file => exact unlocks_openHandle _ _

theorem givesBack_release (fh : UInt64) : GivesBack (sfsRelease L fh) s := by
  refine Unlocks.givesBack (Unlocks.bind (keeps_getFromFd _) fun fd => ?_) s
  cases fd with
  | none => exact unlocks_return _
  | some fd =>
    refine Unlocks.bind Run.keeps_get fun t => Unlocks.bind (keeps_onFs _) fun inode => ?_
    cases inode with
    | none => exact unlocks_return _
    | some inode =>
      refine Unlocks.bind (Run.keeps_assert _) fun _ => Unlocks.bind (keeps_onFs _) fun now => ?_
      refine Unlocks.ite ?_ ?_
      · refine Unlocks.bind (keeps_onFs _) fun ret => Unlocks.ite (unlocks_return _) ?_
        exact Unlocks.bind (keeps_free _) fun _ => unlocks_return _
      · refine Unlocks.bind (keeps_onFs _) fun ret => Unlocks.ite (unlocks_return _) ?_
        exact Unlocks.bind (keeps_free _) fun _ => unlocks_return _

theorem givesBack_read (memory : Memory) (tmpBlock : Block) (size : UInt64) (offset : ℤ)
    (fh : UInt64) : GivesBack (sfsRead L memory tmpBlock size offset fh) s := by
  refine Unlocks.givesBack (Unlocks.ite (unlocks_return _) ?_) s
  refine Unlocks.bind (keeps_getFromFd _) fun fd => ?_
  cases fd with
  | none => exact unlocks_return _
  | some fd =>
    refine Unlocks.bind Run.keeps_get fun t => Unlocks.bind (keeps_onFs _) fun inode => ?_
    cases inode with
    | none => exact unlocks_return _
    | some inode =>
      refine Unlocks.bind (keeps_onFs _) fun now => Unlocks.bind (keeps_onFs _) fun ret => ?_
      refine Unlocks.ite (unlocks_return _) (Unlocks.bind (keeps_onFs _) fun _ => ?_)
      exact unlocks_return _

theorem givesBack_write (memory : Memory) (tmpBlock : Block) (size : UInt64) (offset : ℤ)
    (fh : UInt64) : GivesBack (sfsWrite L memory tmpBlock size offset fh) s := by
  refine Unlocks.givesBack (Unlocks.ite (unlocks_return _) ?_) s
  refine Unlocks.bind (keeps_getFromFd _) fun fd => ?_
  cases fd with
  | none => exact unlocks_return _
  | some fd =>
    refine Unlocks.bind Run.keeps_get fun t => Unlocks.bind (keeps_onFs _) fun inode => ?_
    cases inode with
    | none => exact unlocks_return _
    | some inode =>
      refine Unlocks.bind (keeps_onFs _) fun inode => Unlocks.bind (keeps_onFs _) fun ret => ?_
      refine Unlocks.ite (unlocks_return _) (Unlocks.bind (keeps_onFs _) fun _ => ?_)
      exact unlocks_return _

theorem givesBack_readdir (filler : List FillerCall → Bool) (path : CString) :
    GivesBack (sfsReaddir L filler path) s := by
  refine Unlocks.givesBack (Unlocks.ite (unlocks_return _) ?_) s
  refine Unlocks.bind (keeps_onFs _) fun inode => ?_
  cases inode with
  | none => exact unlocks_return _
  | some inode =>
    refine Unlocks.ite (unlocks_return _) (Unlocks.ite (unlocks_return _) ?_)
    refine Unlocks.bind (keeps_onFs _) fun it => ?_
    cases it with
    | none => exact unlocks_halt _
    | some it => exact Unlocks.bind (keeps_onFs _) fun _ => unlocks_return _

omit L in
theorem givesBack_releasedir (fh : UInt64) : GivesBack (sfsReleasedir fh) s := by
  refine Unlocks.givesBack (Unlocks.bind (keeps_getFromFd _) fun fd => ?_) s
  cases fd with
  | none => exact unlocks_return _
  | some fd =>
    refine Unlocks.bind Run.keeps_get fun t => Unlocks.bind (keeps_onFs _) fun inode => ?_
    cases inode with
    | none => exact unlocks_return _
    | some inode =>
      refine Unlocks.bind (keeps_onFs _) fun now => Unlocks.bind (keeps_onFs _) fun ret => ?_
      refine Unlocks.ite (unlocks_return _) (Unlocks.bind (keeps_free _) fun _ => ?_)
      exact unlocks_return _

end Requests

/-! ## `sfs_opendir` -/

/-- Calls of `sfs_dir_iternext`, of which the last is the first that returns an entry with an
empty name: how many, the iterator after them, and the inode that the entry names. -/
inductive FindsUnnamed (L : InodeLayer F) :
    ℕ → DirIterator → Filesystem F → DirIterator → Inode → Filesystem F → Prop where
  | here {it it' : DirIterator} {fs fs' : Filesystem F} {j : ℕ} {v : Inode}
      (call : (sfsDirIternext L true it).run fs = .done (.entry it' j v) fs')
      (unnamed : cString (Block.dirEntry it'.cachedBlock j).name = []) :
      FindsUnnamed L 1 it fs it' v fs'
  | later {n : ℕ} {it it₁ it' : DirIterator} {fs fs₁ fs' : Filesystem F} {j : ℕ} {w v : Inode}
      (call : (sfsDirIternext L true it).run fs = .done (.entry it₁ j w) fs₁)
      (named : cString (Block.dirEntry it₁.cachedBlock j).name ≠ [])
      (rest : FindsUnnamed L n it₁ fs₁ it' v fs') : FindsUnnamed L (n + 1) it fs it' v fs'

/-- The directory has an entry with an empty name, and the first of these names `v`. -/
def HasUnnamed (L : InodeLayer F) (n : ℕ) (directory : Inode) (fs : Filesystem F) (v : Inode)
    (fs' : Filesystem F) : Prop :=
  ∃ it it' fs₁ fs₂ block, (sfsDirIterate directory).run fs = .done (some it) fs₁ ∧
    FindsUnnamed L n it fs₁ it' v fs₂ ∧ (sfsDirIterclose it').run fs₂ = .done block fs'

/-- **A file without a name**: the root directory has an entry with an empty name, and what it
names has one that names no directory. -/
def HasUnnamedFile (L : InodeLayer F) (fs : Filesystem F) : Prop :=
  ∃ root v file fs₁ fs₂ fs₃ m n, sfsDirRoot.run fs = .done (some root) fs₁ ∧
    HasUnnamed L m root fs₁ v fs₂ ∧ HasUnnamed L n v fs₂ file fs₃ ∧ ¬ sIsdir file.mode ∧
    m + n ≤ loopBound

section Walk

variable {L : InodeLayer F} {fuel : ℕ} {it : DirIterator} {fs fs' : Filesystem F} {v : Inode}
  {pathTok : Option CString}

/-- What the loop of `sfs_opendir` does with an entry that it was looking for. -/
def opendirFound (L : InodeLayer F) (fuel : ℕ) (pathTok : Option CString) (inumber : UInt64)
    (entry : Inode) : Fs F Walk :=
  (match strsep pathTok with
    | (none, _) => do
      if ¬ sIsdir entry.mode then return .inr .notDirectory
      let some directory ← addLink inumber | return .inr .failed
      return .inr (.opened directory)
    | (some tok, pathTok) => do
      let some it ← sfsDirIterate entry | Run.halt .assertion
      return .inl (tok, pathTok, it)) >>= Sum.elim (Run.loop (opendirStep L) fuel) pure

theorem opendirLoop_succ_iff : (Run.loop (opendirStep L) (fuel + 1) ([], pathTok, it)).run fs =
      .done .notDirectory fs' ↔
    ∃ it' j v fs₁, (sfsDirIternext L true it).run fs = .done (.entry it' j v) fs₁ ∧
      if cString (Block.dirEntry it'.cachedBlock j).name = [] then
        ∃ block fs₂, (sfsDirIterclose it').run fs₁ = .done block fs₂ ∧
          (opendirFound L fuel pathTok (Block.dirEntry it'.cachedBlock j).inumber v).run fs₂ =
            .done .notDirectory fs'
      else
        (Run.loop (opendirStep L) fuel ([], pathTok, it')).run fs₁ = .done .notDirectory fs' := by
  rw [Run.loop, opendirStep, Run.bind_assoc', Run.bind_eq_done]
  constructor
  · rintro ⟨answer, fs₁, hnext, hrest⟩
    cases answer with
    | stop directory => cases hrest
    | entry it' j v =>
      refine ⟨it', j, v, fs₁, hnext, ?_⟩
      dsimp only at hrest
      by_cases hname : cString (Block.dirEntry it'.cachedBlock j).name = []
      · rw [if_neg (not_not.mpr hname), Run.bind_assoc', Run.bind_eq_done] at hrest
        rw [if_pos hname]
        exact hrest
      · rw [if_pos hname] at hrest
        rw [if_neg hname]
        exact hrest
  · rintro ⟨it', j, v, fs₁, hnext, hrest⟩
    refine ⟨_, fs₁, hnext, ?_⟩
    dsimp only
    by_cases hname : cString (Block.dirEntry it'.cachedBlock j).name = []
    · rw [if_neg (not_not.mpr hname), Run.bind_assoc', Run.bind_eq_done]
      rw [if_pos hname] at hrest
      exact hrest
    · rw [if_pos hname]
      rw [if_neg hname] at hrest
      exact hrest

/-- It ends with `ENOTDIR` where what it does with the first entry without a name does. -/
theorem opendirLoop_iff {K : ℕ → Inode → Filesystem F → Filesystem F → Prop}
    (hK : ∀ m k v fs fs', (opendirFound L m pathTok k v).run fs = .done .notDirectory fs' ↔
      K m v fs fs') :
    (Run.loop (opendirStep L) fuel ([], pathTok, it)).run fs = .done .notDirectory fs' ↔
      ∃ n m it' v fs₁ block fs₂, n + m = fuel ∧ FindsUnnamed L n it fs it' v fs₁ ∧
        (sfsDirIterclose it').run fs₁ = .done block fs₂ ∧ K m v fs₂ fs' := by
  induction fuel generalizing it fs with
  | zero =>
    refine iff_of_false (by intro h; cases h) ?_
    rintro ⟨n, m, it', v, fs₁, block, fs₂, hsum, hfinds, -⟩
    cases hfinds <;> omega
  | succ fuel ih =>
    rw [opendirLoop_succ_iff]
    constructor
    · rintro ⟨it₁, j, v, fs₁, hnext, hrest⟩
      by_cases hname : cString (Block.dirEntry it₁.cachedBlock j).name = []
      · rw [if_pos hname] at hrest
        obtain ⟨block, fs₂, hclose, hfound⟩ := hrest
        exact ⟨1, fuel, it₁, v, fs₁, block, fs₂, Nat.add_comm 1 fuel, .here hnext hname, hclose,
          (hK _ _ _ _ _).mp hfound⟩
      · rw [if_neg hname, ih] at hrest
        obtain ⟨n, m, it', w, fs₂, block, fs₃, hsum, hfinds, hclose, hfound⟩ := hrest
        exact ⟨n + 1, m, it', w, fs₂, block, fs₃, by omega, .later hnext hname hfinds, hclose,
          hfound⟩
    · rintro ⟨n, m, it', v, fs₁, block, fs₂, hsum, hfinds, hclose, hfound⟩
      cases hfinds with
      | here hnext hname =>
        obtain rfl : m = fuel := by omega
        refine ⟨it', _, v, fs₁, hnext, ?_⟩
        rw [if_pos hname]
        exact ⟨block, fs₂, hclose, (hK _ _ _ _ _).mpr hfound⟩
      | @later n _ it₁ _ _ fs₀ _ j w _ hnext hname hrest =>
        refine ⟨it₁, j, w, fs₀, hnext, ?_⟩
        rw [if_neg hname, ih]
        exact ⟨n, m, it', v, fs₁, block, fs₂, by omega, hrest, hclose, hfound⟩

/-- At the end of the path. -/
theorem opendirFound_none_iff {k : UInt64} :
    (opendirFound L fuel none k v).run fs = .done .notDirectory fs' ↔
      ¬ sIsdir v.mode ∧ fs' = fs := by
  rw [opendirFound, strsep]
  dsimp only
  by_cases hdir : sIsdir v.mode = true
  · refine iff_of_false (fun h => ?_) fun h => h.1 hdir
    rw [if_neg (not_not.mpr hdir), Run.bind_assoc'] at h
    obtain ⟨directory, fs₁, -, h⟩ := Run.bind_eq_done.mp h
    cases directory <;> cases h
  · rw [if_pos hdir]
    constructor
    · intro h
      cases h
      exact ⟨hdir, rfl⟩
    · rintro ⟨-, rfl⟩
      rfl

/-- With one more name to go. -/
theorem opendirFound_some_iff {k : UInt64} :
    (opendirFound L fuel (some []) k v).run fs = .done .notDirectory fs' ↔
      ∃ it fs₁, (sfsDirIterate v).run fs = .done (some it) fs₁ ∧
        (Run.loop (opendirStep L) fuel ([], none, it)).run fs₁ = .done .notDirectory fs' := by
  rw [opendirFound, strsep, if_neg List.not_mem_nil]
  dsimp only
  rw [Run.bind_assoc', Run.bind_eq_done]
  constructor
  · rintro ⟨answer, fs₁, hiterate, h⟩
    cases answer with
    | none => cases h
    | some it => exact ⟨it, fs₁, hiterate, h⟩
  · rintro ⟨it, fs₁, hiterate, h⟩
    exact ⟨some it, fs₁, hiterate, h⟩

/-- **The walk of `sfs_opendir`** ends with `ENOTDIR` where there is a file without a name. -/
theorem opendirWalk_iff {root : Inode} :
    (opendirWalk L root [] (some [])).run fs = .done .notDirectory fs' ↔
      ∃ m n v file fs₁, m + n ≤ loopBound ∧ HasUnnamed L m root fs v fs₁ ∧
        HasUnnamed L n v fs₁ file fs' ∧ ¬ sIsdir file.mode := by
  rw [opendirWalk, Run.bind_eq_done]
  constructor
  · rintro ⟨answer, fs₁, hiterate, h⟩
    cases answer with
    | none => cases h
    | some it =>
      dsimp only at h
      rw [opendirLoop_iff fun _ _ _ _ _ => opendirFound_some_iff] at h
      obtain ⟨m, rest, it', v, fs₂, block, fs₃, hm, hfinds, hclose, it₂, fs₄, hiterate', h⟩ := h
      rw [opendirLoop_iff fun _ _ _ _ _ => opendirFound_none_iff] at h
      obtain ⟨n, rest', it₂', file, fs₅, block', fs₆, hn, hfinds', hclose', hmode, rfl⟩ := h
      exact ⟨m, n, v, file, fs₃, by omega, ⟨it, it', fs₁, fs₂, block, hiterate, hfinds, hclose⟩,
        ⟨it₂, it₂', fs₄, fs₅, block', hiterate', hfinds', hclose'⟩, hmode⟩
  · rintro ⟨m, n, v, file, fs₃, hle, ⟨it, it', fs₁, fs₂, block, hiterate, hfinds, hclose⟩,
      ⟨it₂, it₂', fs₄, fs₅, block', hiterate', hfinds', hclose'⟩, hmode⟩
    refine ⟨some it, fs₁, hiterate, ?_⟩
    dsimp only
    refine (opendirLoop_iff fun _ _ _ _ _ => opendirFound_some_iff).mpr
      ⟨m, loopBound - m, it', v, fs₂, block, fs₃, by omega, hfinds, hclose, it₂, fs₄, hiterate', ?_⟩
    exact (opendirLoop_iff fun _ _ _ _ _ => opendirFound_none_iff).mpr
      ⟨n, loopBound - m - n, it₂', file, fs₅, block', fs', by omega, hfinds', hclose', hmode, rfl⟩

end Walk

section Opendir

variable {L : InodeLayer F} {s s' : SfsState F} {path : CString} {flags : UInt64}

theorem lock_run_of_free (hfree : ¬ s.Locked) :
    (lock : Sfs F Unit).run s = .done () { s with mu := .lock :: s.mu } := by
  rw [lock, Run.run_bind, Run.run_get, Run.andThen_done, if_neg hfree]
  rfl

theorem onFs_run {x : Fs F α} {a : α} {fs : Filesystem F} (h : x.run s.fs = .done a fs) :
    (onFs x).run s = .done a { s with fs := fs } := by
  rw [onFs, Run.run_zoom, h, Outcome.onState_done]

theorem lock_ensures (h : ¬ s.Locked) :
    Run.Ensures (lock : Sfs F Unit) s fun _ s' => s'.fs = s.fs ∧ s'.fdPool = s.fdPool :=
  Run.Ensures.of_eq (lock_run_of_free h) ⟨rfl, rfl⟩

theorem onFs_ensures {x : Fs F α} {P : α → Filesystem F → Prop} (h : Run.Ensures x s.fs P) :
    Run.Ensures (onFs x) s fun a s' => P a s'.fs ∧ s'.fdPool = s.fdPool := by
  obtain ⟨a, fs, hrun, hP⟩ := h
  exact Run.Ensures.of_eq (onFs_run hrun) ⟨hP, rfl⟩

theorem onFs_eq_done {x : Fs F α} {a : α} (h : (onFs x).run s = .done a s') :
    ∃ fs, x.run s.fs = .done a fs ∧ s' = { s with fs := fs } := by
  rw [onFs, Run.run_zoom] at h
  cases hx : x.run s.fs with
  | done b fs =>
    rw [hx, Outcome.onState_done] at h
    cases h
    exact ⟨fs, rfl, rfl⟩
  | halt e =>
    rw [hx, Outcome.onState_halt] at h
    cases h

/-- A request that returns with one call on the mutex has not given it back. -/
theorem not_givesBack {x : Sfs F α} {a : α} (h : x.run s = .done a s')
    (hmu : s'.mu = .lock :: s.mu) : ¬ GivesBack x s := by
  intro hback
  have hlength := congrArg List.length ((hback _ _ h).symm.trans hmu)
  simp at hlength

/-- A `sfs_opendir` of `/` gives the mutex back, unless there is a file without a name. -/
theorem mu_of_opendir {a : ℤ × Option UInt64}
    (h : (sfsOpendir L [slash] flags).run s = .done a s') :
    s'.mu = .unlock :: .lock :: s.mu ∨ a = (-enotdir, none) ∧ HasUnnamedFile L s.fs := by
  obtain ⟨⟨⟩, t, hlock, h⟩ := Run.bind_eq_done.mp h
  obtain ⟨-, rfl⟩ := lock_run hlock
  rw [if_neg (not_not.mpr rfl)] at h
  obtain ⟨directory, t, hroot, h⟩ := Run.bind_eq_done.mp h
  obtain ⟨fs₁, hroot', rfl⟩ := onFs_eq_done hroot
  cases directory with
  | none =>
    cases h
    exact Or.inl rfl
  | some directory =>
    dsimp only at h
    rw [if_neg (by decide)] at h
    obtain ⟨walk, t, hwalk, h⟩ := Run.bind_eq_done.mp h
    obtain ⟨fs₂, hwalk', rfl⟩ := onFs_eq_done hwalk
    cases walk with
    | opened directory => exact Or.inl (unlocks_openHandle _ _ _ _ _ h)
    | failed =>
      cases h
      exact Or.inl rfl
    | notDirectory =>
      cases h
      obtain ⟨m, n, v, file, fs₃, hle, hfirst, hsecond, hmode⟩ := opendirWalk_iff.mp hwalk'
      exact Or.inr ⟨rfl, directory, v, file, fs₁, fs₃, fs₂, m, n, hroot', hfirst, hsecond, hmode,
        hle⟩

theorem givesBack_opendir_iff (hfree : ¬ s.Locked) :
    GivesBack (sfsOpendir L path flags) s ↔ path = [slash] ∧ ¬ HasUnnamedFile L s.fs := by
  constructor
  · intro hback
    by_cases hpath : path = [slash]
    · refine ⟨hpath, ?_⟩
      rintro ⟨directory, v, file, fs₁, fs₃, fs₂, m, n, hroot, hfirst, hsecond, hmode, hle⟩
      have hwalk := (opendirWalk_iff (L := L)).mpr
        ⟨m, n, v, file, fs₃, hle, hfirst, hsecond, hmode⟩
      have hrun : (sfsOpendir L path flags).run s =
          .done (-enotdir, none) { s with mu := .lock :: s.mu, fs := fs₂ } := ?_
      · exact not_givesBack hrun rfl hback
      have hroot' : (onFs sfsDirRoot).run { s with mu := .lock :: s.mu } =
          .done (some directory) { s with mu := .lock :: s.mu, fs := fs₁ } := onFs_run hroot
      have hwalk' : (onFs (opendirWalk L directory [] (strsep (some [slash])).2)).run
          { s with mu := .lock :: s.mu, fs := fs₁ } =
          .done .notDirectory { s with mu := .lock :: s.mu, fs := fs₂ } := onFs_run hwalk
      rw [sfsOpendir, Run.run_bind, lock_run_of_free hfree, Run.andThen_done,
        if_neg (not_not.mpr hpath), Run.run_bind, hroot', Run.andThen_done]
      dsimp only
      rw [hpath, if_neg (by decide), Run.run_bind, hwalk', Run.andThen_done, Run.run_pure]
    · have hrun : (sfsOpendir L path flags).run s =
          .done (-enoent, none) { s with mu := .lock :: s.mu } := ?_
      · exact absurd hback (not_givesBack hrun rfl)
      rw [sfsOpendir, Run.run_bind, lock_run_of_free hfree, Run.andThen_done, if_pos hpath]
      rfl
  · rintro ⟨hpath, hnone⟩ a s' h
    subst hpath
    exact (mu_of_opendir h).resolve_right fun hfile => hnone hfile.2

end Opendir

/-! ## Sequences of requests -/

/-- A request, with its arguments.  For `sfs_read` and `sfs_write` the bytes that the
stack holds are one of them. -/
inductive Request where
  | getattr (path : CString)
  | create (context : FuseContext) (path : CString) (mode : UInt32) (flags : UInt64)
  | unlink (path : CString)
  | open (path : CString) (flags : UInt64)
  | release (fh : UInt64)
  | read (memory : Memory) (tmpBlock : Block) (size : UInt64) (offset : ℤ) (fh : UInt64)
  | write (memory : Memory) (tmpBlock : Block) (size : UInt64) (offset : ℤ) (fh : UInt64)
  | opendir (path : CString) (flags : UInt64)
  | readdir (filler : List FillerCall → Bool) (path : CString)
  | releasedir (fh : UInt64)

namespace Request

/-- The request is served. -/
def run (L : InodeLayer F) : Request → Sfs F Unit
  | getattr path => sfsGetattr L path >>= fun _ => pure ()
  | create context path mode flags => sfsCreate L context path mode flags >>= fun _ => pure ()
  | unlink path => sfsUnlink L path >>= fun _ => pure ()
  | .open path flags => sfsOpen L path flags >>= fun _ => pure ()
  | release fh => sfsRelease L fh >>= fun _ => pure ()
  | read memory tmpBlock size offset fh =>
    sfsRead L memory tmpBlock size offset fh >>= fun _ => pure ()
  | write memory tmpBlock size offset fh =>
    sfsWrite L memory tmpBlock size offset fh >>= fun _ => pure ()
  | opendir path flags => sfsOpendir L path flags >>= fun _ => pure ()
  | readdir filler path => sfsReaddir L filler path >>= fun _ => pure ()
  | releasedir fh => sfsReleasedir fh >>= fun _ => pure ()

/-- **The condition on a request**: a `sfs_opendir` is one of `/`, and there is no file
without a name. -/
def StaysOnPath (L : InodeLayer F) (s : SfsState F) : Request → Prop
  | opendir path _ => path = [slash] ∧ ¬ HasUnnamedFile L s.fs
  | _ => True

end Request

section Runs

variable {L : InodeLayer F} {s s' : SfsState F}

theorem givesBack_discard {x : Sfs F α} :
    GivesBack (x >>= fun _ => pure ()) s ↔ GivesBack x s := by
  constructor
  · intro h a s' hx
    exact h () s' (Run.bind_eq_done.mpr ⟨a, s', hx, rfl⟩)
  · intro h a s' hrun
    obtain ⟨b, t, hx, hpure⟩ := Run.bind_eq_done.mp hrun
    cases hpure
    exact h b _ hx

/-- **A request gives the mutex back exactly if it meets the condition.** -/
theorem gives_back_iff (hfree : ¬ s.Locked) (r : Request) :
    GivesBack (r.run L) s ↔ r.StaysOnPath L s := by
  cases r with
  | opendir path flags => exact givesBack_discard.trans (givesBack_opendir_iff hfree)
  | getattr path => exact iff_of_true (givesBack_discard.mpr (givesBack_getattr L s _)) trivial
  | create context path mode flags =>
    exact iff_of_true (givesBack_discard.mpr (givesBack_create L s _ _ _ _)) trivial
  | unlink path => exact iff_of_true (givesBack_discard.mpr (givesBack_unlink L s _)) trivial
  | «open» path flags =>
    exact iff_of_true (givesBack_discard.mpr (givesBack_open L s _ _)) trivial
  | release fh => exact iff_of_true (givesBack_discard.mpr (givesBack_release L s _)) trivial
  | read memory tmpBlock size offset fh =>
    exact iff_of_true (givesBack_discard.mpr (givesBack_read L s _ _ _ _ _)) trivial
  | write memory tmpBlock size offset fh =>
    exact iff_of_true (givesBack_discard.mpr (givesBack_write L s _ _ _ _ _)) trivial
  | readdir filler path =>
    exact iff_of_true (givesBack_discard.mpr (givesBack_readdir L s _ _)) trivial
  | releasedir fh => exact iff_of_true (givesBack_discard.mpr (givesBack_releasedir s _)) trivial

/-- A request that finds the mutex held waits for ever. -/
theorem run_of_locked (hlocked : s.Locked) (r : Request) :
    (r.run L).run s = .halt .deadlock := by
  have hlock : (lock : Sfs F Unit).run s = .halt .deadlock := by
    rw [lock, Run.run_bind, Run.run_get, Run.andThen_done, if_pos hlocked]
    rfl
  have hwaits : ∀ {α : Type} (x : Sfs F α),
      ((lock >>= fun _ => x) >>= fun _ => pure () : Sfs F Unit).run s = .halt .deadlock := by
    intro α x
    rw [Run.run_bind, Run.run_bind, hlock, Run.andThen_halt, Run.andThen_halt]
  cases r <;> exact hwaits _

theorem flatMap_append_comm (tr : List Request) (calls : List MutexCall) :
    tr.flatMap (fun _ => calls) ++ calls = calls ++ tr.flatMap fun _ => calls := by
  induction tr with
  | nil => simp
  | cons r tr ih => simp only [List.flatMap_cons, List.append_assoc, ih]

/-- **The lock is given back** in a run whose requests all meet the condition: each takes
it and gives it back, once, and it is free when the next one starts. -/
theorem lock_is_given_back {tr : List Request} (hfree : ¬ s.Locked)
    (hexec : Exec (fun s r t => r.StaysOnPath L s ∧ (r.run L).run s = .done () t) s tr s') :
    s'.mu = tr.flatMap (fun _ => [.unlock, .lock]) ++ s.mu ∧ ¬ s'.Locked ∧
      ∀ r : Request, GivesBack (r.run L) s' ↔ r.StaysOnPath L s' := by
  suffices hmu : s'.mu = tr.flatMap (fun _ => [.unlock, .lock]) ++ s.mu ∧ ¬ s'.Locked from
    ⟨hmu.1, hmu.2, gives_back_iff hmu.2⟩
  induction hexec with
  | nil => exact ⟨rfl, hfree⟩
  | @cons s t u r tr head tail ih =>
    have hback := (gives_back_iff hfree r).mpr head.1 () t head.2
    have hfree' : ¬ t.Locked := by
      rw [SfsState.Locked, hback]
      exact fun e => absurd (Option.some.inj e) (by decide)
    obtain ⟨hmu, hend⟩ := ih hfree'
    refine ⟨?_, hend⟩
    rw [hmu, hback]
    have hcons : MutexCall.unlock :: .lock :: s.mu = [.unlock, .lock] ++ s.mu := rfl
    rw [hcons, ← List.append_assoc, flatMap_append_comm, List.flatMap_cons]

end Runs

/-- `"/a"` -/
def slashA : CString := [47, 97]

/-- The inode of an empty root directory. -/
def bareRoot : Inode :=
  { Inode.zero with inumber := 1, mode := sIfdir }

/-- A small disk with an empty root directory. -/
def rootedPool : SfsState Unit :=
  { newPool with fs := newPool.fs.writeBlock 1 (Block.zero.setInode 0 bareRoot) }

/-- Whether the walk of `sfs_opendir` opens the root directory. -/
def opensRoot : Fs Unit Bool := do
  match ← sfsDirRoot with
  | none => return false
  | some root =>
    match ← opendirWalk fsLayer root [] (some []) with
    | .opened _ => return true
    | _ => return false

theorem not_hasUnnamedFile_rootedPool : ¬ HasUnnamedFile fsLayer rootedPool.fs := by
  have hvalue : (opensRoot.run rootedPool.fs).value = some true := by decide +kernel
  obtain ⟨last, hrun⟩ := Outcome.exists_of_value hvalue
  rintro ⟨root, v, file, fs₁, fs₂, fs₃, m, n, hroot, hfirst, hsecond, hmode, hle⟩
  have hwalk := opendirWalk_iff.mpr ⟨m, n, v, file, fs₂, hle, hfirst, hsecond, hmode⟩
  rw [opensRoot, Run.run_bind, hroot, Run.andThen_done] at hrun
  dsimp only at hrun
  rw [Run.run_bind, hwalk, Run.andThen_done] at hrun
  cases hrun

/-- The root directory is opened, and a path is unlinked that is no name in it. -/
def opendirThenUnlink : Sfs Unit ((ℤ × Option UInt64) × ℤ) := do
  let opened ← sfsOpendir fsLayer [slash] 0
  let ret ← sfsUnlink fsLayer (slashA ++ slashA)
  return (opened, ret)

theorem lock_is_given_back_rootedPool :
    ∃ s s' : SfsState Unit, (sfsOpendir fsLayer [slash] 0).run rootedPool = .done (0, some 0) s ∧
      (sfsUnlink fsLayer (slashA ++ slashA)).run s = .done (-enoent) s' ∧
      s'.mu = [.unlock, .lock, .unlock, .lock] ∧ ¬ s'.Locked := by
  have hvalue : (opendirThenUnlink.run rootedPool).value = some ((0, some 0), -enoent) := by
    decide +kernel
  obtain ⟨last, hrun⟩ := Outcome.exists_of_value hvalue
  obtain ⟨opened, s, hopendir, hrun⟩ := Run.bind_eq_done.mp hrun
  obtain ⟨ret, s', hunlink, hrun⟩ := Run.bind_eq_done.mp hrun
  obtain ⟨hresult, -⟩ := Outcome.done.inj hrun
  obtain ⟨rfl, rfl⟩ := Prod.mk.inj hresult
  have hexec : Exec (fun s (r : Request) t => r.StaysOnPath fsLayer s ∧
      (r.run fsLayer).run s = .done () t) rootedPool
      [.opendir [slash] 0, .unlink (slashA ++ slashA)] s' :=
    .cons ⟨⟨rfl, not_hasUnnamedFile_rootedPool⟩, Run.bind_eq_done.mpr ⟨_, s, hopendir, rfl⟩⟩
      (.cons ⟨trivial, Run.bind_eq_done.mpr ⟨_, s', hunlink, rfl⟩⟩ (.nil _))
  obtain ⟨hmu, hfree, -⟩ := lock_is_given_back (by decide) hexec
  exact ⟨s, s', hopendir, hunlink, hmu, hfree⟩

/-- **A `sfs_opendir` of another path keeps the lock**, and no request is served after
it. -/
theorem opendir_keeps_the_lock :
    ∃ s' : SfsState Unit, ¬ newPool.Locked ∧
      (sfsOpendir fsLayer slashA 0).run newPool = .done (-enoent, none) s' ∧
      ¬ GivesBack (sfsOpendir fsLayer slashA 0) newPool ∧
      ∀ r : Request, (r.run fsLayer).run s' = .halt .deadlock := by
  have hfree : ¬ newPool.Locked := by decide
  refine ⟨{ newPool with mu := [.lock] }, hfree, ?_, fun hback => ?_,
    run_of_locked (by decide)⟩
  · rw [sfsOpendir, Run.run_bind, lock_run_of_free hfree, Run.andThen_done, if_pos (by decide)]
    rfl
  · exact absurd ((givesBack_opendir_iff hfree).mp hback).1 (by decide)

end SimpleFileSystem
