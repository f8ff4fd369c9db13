import SimpleFileSystem.MirrorEntries
import SimpleFileSystem.NameMap

/-!
# The requests, side by side

A request over `fs.c` and the same request over the array, from states with the same mutex
and the same handles (`Beside`), end alike: they return the same, up to the times in the
attributes of files, and leave such states again.

What each of them finds on the disk is what there was when it began, so the conditions are
on that state: `sfs_create` finds room for its entry, and `sfs_getattr` finds the number of
the inode in the memory that it has freed.
-/

namespace SimpleFileSystem

variable {F : Type}

/-! ## States -/

/-- **Two states with the same mutex and the same handles.** -/
structure Beside (R : Filesystem F → Filesystem DirFiles → Prop) (s : SfsState F)
    (s' : SfsState DirFiles) : Prop where
  mu : s'.mu = s.mu
  fdPool : s'.fdPool = s.fdPool
  fs : R s.fs s'.fs

section Rules

variable {α β : Type} {R R' : Filesystem F → Filesystem DirFiles → Prop} {s : SfsState F}
  {s' : SfsState DirFiles}

theorem Beside.mono (h : Beside R s s') (hR : ∀ f t, R f t → R' f t) : Beside R' s s' :=
  ⟨h.mu, h.fdPool, hR _ _ h.fs⟩

/-- A call of a function below. -/
theorem Beside.onFs {x : Fs F α} {y : Fs DirFiles β}
    {Q : α → Filesystem F → β → Filesystem DirFiles → Prop} (h : Beside R s s')
    (hx : Run.Agree x s.fs y s'.fs Q) :
    Run.Agree (onFs x) s (onFs y) s' fun a r b r' => Beside (Q a · b ·) r r' :=
  Run.Agree.zoom (hx.mono fun _ _ _ _ hQ => ⟨h.mu, h.fdPool, hQ⟩)

theorem agree_get (s : SfsState F) (s' : SfsState DirFiles) :
    Run.Agree (get : Sfs F (SfsState F)) s (get : Sfs DirFiles (SfsState DirFiles)) s'
      fun a r b r' => a = s ∧ r = s ∧ b = s' ∧ r' = s' :=
  Run.Agree.of_eq rfl rfl ⟨rfl, rfl, rfl, rfl⟩

/-- An assignment to the pool. -/
theorem Beside.withPool (h : Beside R s s') (f : FdPool → FdPool) :
    Run.Agree (modify fun s => { s with fdPool := f s.fdPool } : Sfs F PUnit) s
      (modify fun s => { s with fdPool := f s.fdPool } : Sfs DirFiles PUnit) s'
      fun _ r _ r' => Beside R r r' :=
  Run.Agree.of_eq rfl rfl ⟨h.mu, congrArg f h.fdPool, h.fs⟩

/-- The slot of a handle number. -/
theorem Beside.getFromFd (h : Beside R s s') (fd : ℤ) :
    Run.Agree (sfsFiledescriptorGetFromFd fd) s (sfsFiledescriptorGetFromFd fd) s'
      fun a r b r' => Beside R r r' ∧ b = a ∧ r.fdPool = s.fdPool ∧
        ∀ n, a = some n → n = fd.toNat := by
  rw [sfsFiledescriptorGetFromFd, sfsFiledescriptorGetFromFd]
  refine (Run.agree_assert rfl).bind ?_
  rintro _ r _ r' ⟨rfl, rfl, -⟩
  refine (agree_get r r').bind ?_
  rintro a r₁ b r₁' ⟨rfl, rfl, rfl, rfl⟩
  rw [h.fdPool]
  refine Run.Agree.ite Iff.rfl (fun _ => ?_) fun _ => ?_
  · exact Run.agree_pure ⟨h, rfl, rfl, fun n hn => (Option.some.inj hn).symm⟩
  · exact Run.agree_pure ⟨h, rfl, rfl, fun n hn => absurd hn (by simp)⟩

theorem Beside.lock (h : Beside R s s') :
    Run.Agree lock s lock s' fun _ r _ r' => Beside R r r' ∧ r.fdPool = s.fdPool := by
  have hlocked : s.Locked ↔ s'.Locked := by
    rw [SfsState.Locked, SfsState.Locked, h.mu]
  rw [SimpleFileSystem.lock, SimpleFileSystem.lock]
  refine (agree_get s s').bind ?_
  rintro a r b r' ⟨rfl, rfl, rfl, rfl⟩
  refine Run.Agree.ite hlocked (fun _ => Or.inr ⟨.deadlock, rfl, rfl⟩) fun _ => ?_
  exact Run.Agree.of_eq rfl rfl ⟨⟨congrArg (MutexCall.lock :: ·) h.mu, h.fdPool, h.fs⟩, rfl⟩

/-- The mutex is given back, and the request returns. -/
theorem Beside.giveBack {a : α} {b : β} {Q : α → SfsState F → β → SfsState DirFiles → Prop}
    (h : Beside R s s') (hQ : ∀ r r', Beside R r r' → Q a r b r') :
    Run.Agree (unlock >>= fun _ => pure a) s (unlock >>= fun _ => pure b) s' Q :=
  Run.Agree.of_eq rfl rfl (hQ _ _ ⟨congrArg (MutexCall.unlock :: ·) h.mu, h.fdPool, h.fs⟩)

end Rules

/-! ## The front of a request -/

section Front

variable {base fs : Filesystem F} {t : Filesystem DirFiles} {A : List UInt64} {L : FreeList}
  {w : View} {T : UInt64 → Inode} {freed : ℕ → Block → Block} {v u : Inode} {name : CString}

/-- A request begins. -/
theorem Paired.browsing (h : Paired A L fs fs t w) :
    Browsing A L fs fs.logicalInode w.freed fs t w :=
  ⟨h, fun _ _ _ => rfl, rfl⟩

theorem Browsing.malloc (h : Browsing A L base T freed fs t w) :
    Run.Agree (malloc : Fs F Bool) fs (malloc : Fs DirFiles Bool) t fun a fs' b t' =>
      a = true ∧ b = true ∧ Browsing A L base T freed fs' t' w ∧
        fs'.logicalInode = fs.logicalInode := by
  refine h.toPaired.malloc.mono ?_
  rintro a fs' b t' ⟨ha, hb, h', hsame⟩
  exact ⟨ha, hb, h.next h' fun j _ => congrFun hsame j, hsame⟩

/-- **The path is checked.** -/
theorem Browsing.splitPath (h : Browsing A L base T freed fs t w) (path : CString) :
    Run.Agree (splitPath path) fs (splitPath path) t fun a fs' b t' =>
      a = pathName path ∧ b = pathName path ∧ Browsing A L base T freed fs' t' w ∧
        fs'.logicalInode = fs.logicalInode := by
  obtain ⟨b, t', hrun, -, -, h', hsame⟩ := h.malloc.matched (malloc_run fs)
  cases hrun
  refine Run.Agree.of_eq (splitPath_run fs path) (splitPath_run t path) ⟨?_, ?_, h', hsame⟩
  · rw [if_pos (h.mirrors.memory 0)]
  · rw [if_pos (h.shows.memory 0)]

theorem Browsing.dirRoot (h : Browsing A L base T freed fs t w) :
    Run.Agree sfsDirRoot fs sfsDirRoot t fun a fs' b t' =>
      a = some (fs.logicalInode 1) ∧ b = some (w.table 1) ∧ Browsing A L base T freed fs' t' w ∧
        fs'.logicalInode 1 = fs.logicalInode 1 := by
  refine (h.readInode (h.mirrors.mem_valid h.mirrors.root)).mono ?_
  rintro a fs' b t' ⟨ha, hb, h', hsame⟩
  exact ⟨ha, hb, h', hsame 1 (by decide)⟩

/-- **An iterator of the root directory.** -/
theorem Browsing.iterate (h : Browsing A L base T freed fs t w) (hv : v = fs.logicalInode 1)
    (hu : u = w.table 1) :
    Run.Agree (sfsDirIterate v) fs (sfsDirIterate u) t fun a fs' b t' => ∃ it it',
      a = some it ∧ b = some it' ∧ Browsing A L base T freed fs' t' w ∧
        Iterates base fs' w it it' := by
  have hmode : u.mode = v.mode := by
    rw [hv, hu, (h.mirrors.table 1 (h.mirrors.mem_valid h.mirrors.root)).mode]
  rw [sfsDirIterate, sfsDirIterate, hmode]
  refine (Run.agree_assert rfl).bind ?_
  rintro _ fs₁ _ t₁ ⟨hfs, ht, -⟩
  rw [hfs, ht]
  refine h.malloc.bind ?_
  rintro a fs' b t' ⟨rfl, rfl, h', hsame⟩
  rw [if_neg (by simp), if_neg (by simp)]
  refine Run.agree_pure ⟨_, _, rfl, rfl, h', ?_, hu, rfl, rfl, rfl, Or.inl rfl⟩
  rw [hsame]
  exact hv

/-- An iterator is closed. -/
theorem Browsing.iterclose (h : Browsing A L base T freed fs t w) {it it' : DirIterator}
    (hcached : it'.cachedBlock = it.cachedBlock) :
    Run.Agree (sfsDirIterclose it) fs (sfsDirIterclose it') t fun a fs' b t' =>
      a = freed 0 it.cachedBlock ∧ b = freed 0 it.cachedBlock ∧
        Browsing A L base T (fun i => freed (i + 1)) fs' t' w.released ∧
        fs'.logicalInode = fs.logicalInode := by
  unfold sfsDirIterclose
  rw [hcached]
  exact h.free it.cachedBlock

end Front

/-! ## Answers -/

/-- The same attributes, but for the times. -/
structure Stat.Alike (x y : Stat) : Prop where
  ino : y.ino = x.ino
  mode : y.mode = x.mode
  nlink : y.nlink = x.nlink
  uid : y.uid = x.uid
  gid : y.gid = x.gid
  size : y.size = x.size

theorem Inode.Shadow.alike {v u : Inode} (h : v.Shadow u) :
    (sfsFsInodeToStat v).Alike (sfsFsInodeToStat u) :=
  ⟨h.inumber, h.mode, h.links, h.uid, h.gid, h.size⟩

/-- **The disk still mirrors the array**, with the contents that the files had in `base`. -/
abbrev Stays (A : List UInt64) (base : Filesystem F) : SfsState F → SfsState DirFiles → Prop :=
  Beside (Follows A base)

section Stays

variable {s : SfsState F} {s' : SfsState DirFiles} {A : List UInt64} {base fs fs' : Filesystem F}
  {t t' : Filesystem DirFiles}

/-- A step on the host. -/
theorem Follows.of_host (h : Follows A base fs t)
    (hstep : ∀ {A' L' w}, Paired A' L' fs fs t w → ∃ w', Paired A' L' fs fs' t' w')
    (hsame : fs'.logicalInode = fs.logicalInode) : Follows A base fs' t' := by
  obtain ⟨A', L', w, hpaired, hfiles⟩ := h
  obtain ⟨w', h'⟩ := hstep hpaired
  obtain ⟨nodes, himage⟩ := h'.mirrors.shelved.image
  refine ⟨A', L', w', h'.rebase, fun k hk h1 => ?_⟩
  have hblocks := h'.mirrors.still.fileBlock himage hk
  obtain ⟨hmem, hfile⟩ | ⟨hmem, hfile⟩ := hfiles k hk h1
  · exact Or.inl ⟨hmem, hfile.trans ⟨by rw [hsame], hblocks⟩⟩
  · exact Or.inr ⟨hmem, by rw [hsame, hfile.size], fun i => (hblocks i).trans (hfile.block i)⟩

theorem Follows.malloc (h : Follows A base fs t) :
    Run.Agree (malloc : Fs F Bool) fs (malloc : Fs DirFiles Bool) t fun a fs' b t' =>
      a = true ∧ b = true ∧ Follows A base fs' t' := by
  obtain ⟨A', L', w, hpaired, hfiles⟩ := id h
  refine Run.Agree.of_eq (malloc_run fs) (malloc_run t)
    ⟨hpaired.mirrors.memory 0, hpaired.shows.memory 0, h.of_host (fun hpaired => ?_) rfl⟩
  obtain ⟨b, t', hrun, -, -, h', -⟩ := hpaired.malloc.matched (malloc_run fs)
  cases hrun
  exact ⟨_, h'⟩

/-- The iterator is closed. -/
theorem Follows.iterclose (h : Follows A base fs t) {it it' : DirIterator}
    (hcached : it'.cachedBlock = it.cachedBlock) :
    Run.Agree (sfsDirIterclose it) fs (sfsDirIterclose it') t fun _ fs' _ t' =>
      Follows A base fs' t' := by
  unfold sfsDirIterclose
  rw [hcached]
  refine Or.inl ⟨fs.host.freed 0 it.cachedBlock, _, t.host.freed 0 it.cachedBlock, _, rfl, rfl,
    h.of_host (fun hpaired => ?_) rfl⟩
  obtain ⟨b, t', hrun, -, -, h', -⟩ := (hpaired.free it.cachedBlock).matched rfl
  cases hrun
  exact ⟨_, h'⟩

/-- **A slot for a handle.** -/
theorem Beside.fdAllocate (h : Stays A base s s') :
    Run.Agree sfsFiledescriptorAllocate s sfsFiledescriptorAllocate s' fun a r b r' =>
      b = a ∧ Stays A base r r' := by
  rw [sfsFiledescriptorAllocate, sfsFiledescriptorAllocate]
  refine (agree_get s s').bind ?_
  rintro a r b r' ⟨rfl, rfl, rfl, rfl⟩
  rw [h.fdPool]
  refine Run.Agree.ite Iff.rfl (fun _ => ?_) fun _ => ?_
  · exact Run.Agree.of_eq rfl rfl ⟨rfl, h.mu, rfl, h.fs⟩
  dsimp only
  refine (h.onFs h.fs.malloc).bind ?_
  rintro a r₁ b r₁' h₁
  obtain ⟨rfl, rfl, h₁fs⟩ := h₁.fs
  refine Run.Agree.ite Iff.rfl (fun hno => absurd rfl hno) fun _ => ?_
  refine (agree_get r₁ r₁').bind ?_
  rintro a r₂ b r₂' ⟨rfl, rfl, rfl, rfl⟩
  rw [h₁.fdPool]
  exact Run.Agree.of_eq rfl rfl ⟨rfl, h₁.mu, rfl, h₁fs⟩

/-- **A handle is opened.** -/
theorem Beside.openHandle (h : Stays A base s s') (k flags : UInt64) :
    Run.Agree (openHandle k flags) s (openHandle k flags) s' fun a r b r' =>
      b = a ∧ Stays A base r r' := by
  rw [SimpleFileSystem.openHandle, SimpleFileSystem.openHandle]
  refine h.fdAllocate.bind ?_
  rintro a r₁ b r₁' ⟨rfl, h₁⟩
  cases b with
  | none => exact h₁.giveBack fun r r' hr => ⟨rfl, hr⟩
  | some n =>
    dsimp only
    refine (h₁.withPool fun pool => pool.setSlot n { pool.slot n with inumber := k }).bind ?_
    rintro _ r₂ _ r₂' h₂
    refine (h₂.withPool fun pool => pool.setSlot n { pool.slot n with flags := flags }).bind ?_
    rintro _ r₃ _ r₃' h₃
    refine (agree_get r₃ r₃').bind ?_
    rintro a r₄ b r₄' ⟨rfl, rfl, rfl, rfl⟩
    rw [h₃.fdPool]
    exact h₃.giveBack fun r r' hr => ⟨rfl, hr⟩

end Stays

/-- Two answers of `sfs_getattr`: what the one says of an inode is what is on the disk. -/
def StatPair (base : Filesystem F) (a b : ℤ × Option Stat) : Prop :=
  b.1 = a.1 ∧ Option.Rel Stat.Alike a.2 b.2 ∧
    ∀ stat, a.2 = some stat → stat = sfsFsInodeToStat (base.logicalInode stat.ino)

/-- The memory of a closed iterator still holds the inode number of the entry with the
name. -/
def Filesystem.DiskFreedKeeps (fs : Filesystem F) (name : CString) : Prop :=
  ∀ i < fs.rootLength, (fs.rootSlot i).inumber ≠ 0 → cString (fs.rootSlot i).name = name →
    (Block.dirEntry (fs.host.freed 0 (fs.fileBlock 1 (UInt64.ofNat i))) 0).inumber =
      (fs.rootSlot i).inumber

section Requests

variable {s : SfsState F} {s' : SfsState DirFiles} {A : List UInt64} {L : FreeList} {w : View}
  {path : CString} {allocate : Fs DirFiles (Option Inode)}

theorem length_of_pathName {name : CString} (h : pathName path = .inr name) :
    name.length ≤ 255 := by
  unfold pathName at h
  split at h
  · cases h
  split at h
  · cases h
  · next hlong =>
    cases h
    exact Nat.not_lt.mp hlong

/-- **`sfs_getattr`** -/
theorem Beside.getattr (h : Beside (fun fs t => Paired A L fs fs t w) s s')
    (hdir : Entries A s.fs)
    (hfreed : path ≠ [slash] → ∀ name, pathName path = .inr name → s.fs.DiskFreedKeeps name) :
    Run.Agree (sfsGetattr fsLayer path) s (sfsGetattr (loggedLayer allocate) path) s'
      fun a r b r' => StatPair s.fs a b ∧ Stays A s.fs r r' := by
  have hvalid := h.fs.mirrors.mem_valid h.fs.mirrors.root
  have hown := h.fs.mirrors.own 1 hvalid
  have hfail : ∀ {ret : ℤ} {r r'}, Stays A s.fs r r' →
      StatPair s.fs (ret, none) (ret, none) ∧ Stays A s.fs r r' := fun hstays =>
    ⟨⟨rfl, .none, fun stat hstat => absurd hstat (by simp)⟩, hstays⟩
  rw [sfsGetattr, sfsGetattr]
  have h₀ : Beside (fun fs t => Browsing A L s.fs s.fs.logicalInode w.freed fs t w ∧
      fs.logicalInode = s.fs.logicalInode) s s' := ⟨h.mu, h.fdPool, h.fs.browsing, rfl⟩
  refine h₀.lock.bind ?_
  rintro _ r₁ _ r₁' ⟨h₁, -⟩
  refine (h₁.onFs (h₁.fs.1.splitPath path)).bind ?_
  rintro a r₂ b r₂' h₂
  obtain ⟨rfl, rfl, h₂fs, hsame₂⟩ := h₂.fs
  rw [h₁.fs.2] at hsame₂
  cases hpath : pathName path with
  | inl ret => exact h₂.giveBack fun r r' hr => hfail (hr.mono fun f t hf => hf.2.2.1.follows)
  | inr name =>
    dsimp only
    have hshadow := h₂fs.mirrors.table 1 (h₂fs.mirrors.mem_valid h₂fs.mirrors.root)
    refine (h₂.onFs h₂fs.dirRoot).bind ?_
    rintro a r₃ b r₃' h₃
    obtain ⟨rfl, rfl, h₃fs, hsame₃⟩ := h₃.fs
    dsimp only
    have hv : r₂.fs.logicalInode 1 = s.fs.logicalInode 1 := congrFun hsame₂ 1
    rw [← hv] at hown
    generalize r₂.fs.logicalInode 1 = v at hv hown hshadow hsame₃
    obtain ⟨u, hu⟩ : ∃ u, u = w.table 1 := ⟨_, rfl⟩
    rw [← hu] at hshadow ⊢
    refine Run.Agree.ite Iff.rfl (fun _ => ?_) fun hslash => ?_
    · refine h₃.giveBack fun r r' hr => ⟨⟨rfl, .some hshadow.alike, fun stat hstat => ?_⟩,
        hr.mono fun f t hf => hf.2.2.1.follows⟩
      cases hstat
      show sfsFsInodeToStat v = sfsFsInodeToStat (s.fs.logicalInode v.inumber)
      rw [hown, hv]
    refine (h₃.onFs (h₃fs.iterate hsame₃.symm hu)).bind ?_
    rintro a r₄ b r₄' h₄
    obtain ⟨it, it', rfl, rfl, h₄fs, hit⟩ := h₄.fs
    dsimp only
    refine (h₄.onFs (h₄fs.search hdir hit name)).bind ?_
    rintro a r₅ b r₅' h₅
    have h₅fs := h₅.fs
    cases a with
    | stop d =>
      cases b with
      | found it j => exact h₅fs.elim
      | stop d' =>
        refine h₅.giveBack fun r r' hr => hfail (hr.mono ?_)
        rintro f t ⟨w₅, φ, hbrowse, -, -⟩
        exact hbrowse.follows
    | found it j =>
      cases b with
      | stop d' => exact h₅fs.elim
      | found it' j' =>
        obtain ⟨rfl, rfl, hused, hname, w₅, hbrowse, hit₅, hloaded⟩ := h₅fs
        have hentry := hloaded.entry
        have hkept : (Block.dirEntry (w.freed 0 it.cachedBlock) 0).inumber =
            (Block.dirEntry it.cachedBlock 0).inumber := by
          rw [strncmp256_iff _ (length_of_pathName hpath), hentry] at hname
          have hkeeps := hfreed hslash name hpath _ hloaded.lt (hentry ▸ hused) hname
          rw [UInt64.ofNat_toNat, ← hloaded.block, h.fs.mirrors.freed] at hkeeps
          rw [hkeeps, hentry]
        obtain ⟨hk, h1⟩ := hdir.named _ hloaded.lt (hentry ▸ hused)
        rw [← hentry] at hk h1
        refine (h₅.onFs (hbrowse.iterclose hit₅.cached)).bind ?_
        rintro a r₆ b r₆' h₆
        obtain ⟨rfl, rfl, h₆fs, hsame₆⟩ := h₆.fs
        have hvalid₆ := h₆fs.mirrors.mem_valid hk
        rw [← hkept] at hvalid₆
        refine (h₆.onFs (h₆fs.readInode hvalid₆)).bind ?_
        rintro a r₇ b r₇' h₇
        obtain ⟨rfl, rfl, h₇fs, hsame₇⟩ := h₇.fs
        have hshadow₆ := h₆fs.mirrors.table _ hvalid₆
        have hown₆ := h₆fs.mirrors.own _ hvalid₆
        have hv₆ := h₆fs.others _ hvalid₆ (by rw [hkept]; exact h1)
        rw [hkept] at hshadow₆ hown₆ hv₆ ⊢
        dsimp only
        generalize r₆.fs.logicalInode _ = x at hshadow₆ hown₆ hv₆
        refine h₇.giveBack fun r r' hr => ⟨⟨rfl, .some hshadow₆.alike, fun stat hstat => ?_⟩,
          hr.mono fun f t hf => hf.2.2.1.follows⟩
        cases hstat
        show sfsFsInodeToStat x = sfsFsInodeToStat (s.fs.logicalInode x.inumber)
        rw [hown₆, hv₆]

/-- **`sfs_open`** -/
theorem Beside.open (h : Beside (fun fs t => Paired A L fs fs t w) s s') (hdir : Entries A s.fs)
    (flags : UInt64) :
    Run.Agree (sfsOpen fsLayer path flags) s (sfsOpen (loggedLayer allocate) path flags) s'
      fun a r b r' => b = a ∧ Stays A s.fs r r' := by
  rw [sfsOpen, sfsOpen]
  have h₀ : Beside (fun fs t => Browsing A L s.fs s.fs.logicalInode w.freed fs t w) s s' :=
    ⟨h.mu, h.fdPool, h.fs.browsing⟩
  refine h₀.lock.bind ?_
  rintro _ r₁ _ r₁' ⟨h₁, -⟩
  refine (h₁.onFs (h₁.fs.splitPath path)).bind ?_
  rintro a r₂ b r₂' h₂
  obtain ⟨rfl, rfl, h₂fs, -⟩ := h₂.fs
  cases pathName path with
  | inl ret => exact h₂.giveBack fun r r' hr => ⟨rfl, hr.mono fun f t hf => hf.2.2.1.follows⟩
  | inr name =>
    dsimp only
    refine (h₂.onFs h₂fs.dirRoot).bind ?_
    rintro a r₃ b r₃' h₃
    obtain ⟨rfl, rfl, h₃fs, hsame₃⟩ := h₃.fs
    dsimp only
    refine (h₃.onFs (h₃fs.iterate hsame₃.symm rfl)).bind ?_
    rintro a r₄ b r₄' h₄
    obtain ⟨it, it', rfl, rfl, h₄fs, hit⟩ := h₄.fs
    dsimp only
    refine (h₄.onFs (h₄fs.search hdir hit name)).bind ?_
    rintro a r₅ b r₅' h₅
    have h₅fs := h₅.fs
    cases a with
    | stop d =>
      cases b with
      | found it j => exact h₅fs.elim
      | stop d' =>
        refine h₅.giveBack fun r r' hr => ⟨rfl, hr.mono ?_⟩
        rintro f t ⟨w₅, φ, hbrowse, -, -⟩
        exact hbrowse.follows
    | found it j =>
      cases b with
      | stop d' => exact h₅fs.elim
      | found it' j' =>
        obtain ⟨rfl, rfl, hused, -, w₅, hbrowse, hit₅, hloaded⟩ := h₅fs
        have hentry := hloaded.entry
        obtain ⟨hk, h1⟩ := hdir.named _ hloaded.lt (hentry ▸ hused)
        rw [← hentry] at hk h1
        dsimp only
        rw [hit₅.cached]
        refine (h₅.onFs (hbrowse.iterclose hit₅.cached)).bind ?_
        rintro _ r₆ _ r₆' h₆
        obtain ⟨-, -, h₆fs, -⟩ := h₆.fs
        refine (h₆.onFs (h₆fs.addLink hk h1)).bind ?_
        rintro a r₇ b r₇' h₇
        obtain ⟨v, u, rfl, rfl, hv, hu, hfollows⟩ := h₇.fs
        dsimp only
        rw [hv, hu]
        exact Beside.openHandle ⟨h₇.mu, h₇.fdPool, hfollows⟩ _ flags

/-- **`sfs_create`** -/
theorem Beside.create (h : Beside (fun fs t => Paired A L fs fs t w) s s') (hdir : Entries A s.fs)
    (hhead : s.fs.superblock.HeadOk) (htakes : s.fs.TakesEntry) (context : FuseContext)
    (mode : UInt32) (flags : UInt64) :
    Run.Agree (sfsCreate fsLayer context path mode flags) s
      (sfsCreate (loggedLayer sfsFsInodeAllocate) context path mode flags) s'
      fun a r b r' => b = a ∧ Stays A s.fs r r' := by
  obtain ⟨nodes, hr⟩ := h.fs.rootImage
  rw [sfsCreate, sfsCreate]
  have h₀ : Beside (fun fs t => Browsing A L s.fs s.fs.logicalInode w.freed fs t w) s s' :=
    ⟨h.mu, h.fdPool, h.fs.browsing⟩
  refine h₀.lock.bind ?_
  rintro _ r₁ _ r₁' ⟨h₁, -⟩
  refine (h₁.onFs (h₁.fs.splitPath path)).bind ?_
  rintro a r₂ b r₂' h₂
  obtain ⟨rfl, rfl, h₂fs, -⟩ := h₂.fs
  cases pathName path with
  | inl ret => exact h₂.giveBack fun r r' hr => ⟨rfl, hr.mono fun f t hf => hf.2.2.1.follows⟩
  | inr name =>
    dsimp only
    refine (h₂.onFs h₂fs.dirRoot).bind ?_
    rintro a r₃ b r₃' h₃
    obtain ⟨rfl, rfl, h₃fs, hsame₃⟩ := h₃.fs
    dsimp only
    refine (h₃.onFs (h₃fs.iterate hsame₃.symm rfl)).bind ?_
    rintro a r₄ b r₄' h₄
    obtain ⟨it, it', rfl, rfl, h₄fs, hit⟩ := h₄.fs
    dsimp only
    refine (h₄.onFs (h₄fs.search hdir hit name)).bind ?_
    rintro a r₅ b r₅' h₅
    have h₅fs := h₅.fs
    cases a with
    | found it j =>
      cases b with
      | stop d' => exact h₅fs.elim
      | found it' j' =>
        obtain ⟨rfl, rfl, hused, -, w₅, hbrowse, hit₅, hloaded⟩ := h₅fs
        have hentry := hloaded.entry
        obtain ⟨hk, h1⟩ := hdir.named _ hloaded.lt (hentry ▸ hused)
        rw [← hentry] at hk h1
        dsimp only
        rw [hit₅.cached]
        refine (h₅.onFs (hbrowse.iterclose hit₅.cached)).bind ?_
        rintro _ r₆ _ r₆' h₆
        obtain ⟨-, -, h₆fs, -⟩ := h₆.fs
        refine Run.Agree.ite Iff.rfl (fun _ => h₆.giveBack fun r r' hr =>
          ⟨rfl, hr.mono fun f t hf => hf.2.2.1.follows⟩) fun _ => ?_
        refine (h₆.onFs (h₆fs.addLink hk h1)).bind ?_
        rintro a r₇ b r₇' h₇
        obtain ⟨v, u, rfl, rfl, -, -, hfollows⟩ := h₇.fs
        exact Beside.openHandle ⟨h₇.mu, h₇.fdPool, hfollows⟩ _ flags
    | stop d =>
      cases b with
      | found it j => exact h₅fs.elim
      | stop d' =>
        obtain ⟨w₅, φ, hbrowse, hd, hd'⟩ := h₅fs
        have hshadow := hbrowse.mirrors.table 1 (hbrowse.mirrors.mem_valid hbrowse.mirrors.root)
        dsimp only
        refine (h₅.onFs (hbrowse.allocate (h.fs.mirrors.shelved.last_eq_zero hhead))).bind ?_
        rintro a r₆ b r₆' h₆
        obtain ⟨rfl, rfl, -, -⟩ | ⟨k, l, w₆, hl, rfl, rfl, h₆fs, htable, hinodes, hsame₆⟩ := h₆.fs
        · refine h₆.giveBack fun r r' hr => ⟨rfl, hr.mono ?_⟩
          rintro f t (⟨-, -, -, hf⟩ | ⟨k, l, w', -, h0, -⟩)
          · exact hf.follows
          · cases h0
        have hmem : k ∈ L.inodes := hl ▸ List.mem_cons_self
        have hvalid := hbrowse.mirrors.shelved.list.valid k hmem
        have hk := hbrowse.mirrors.shelved.apart k hmem
        have hfree := (List.nodup_cons.mp (hl ▸ hbrowse.mirrors.shelved.list.nodup)).1
        have hown := hbrowse.mirrors.own k hvalid
        have hshadow' := hbrowse.mirrors.table k hvalid
        have hvalid' : w₆.Valid k := (hbrowse.mirrors.valid hvalid).congr hinodes
        rw [← hd, ← hd'] at hshadow
        rw [← hsame₆ 1 (by decide)] at hd
        rw [← htable] at hd'
        dsimp only
        generalize r₅.fs.logicalInode k = v at hown hshadow' h₆
        generalize w₅.table k = u at hshadow' h₆
        refine (h₆.onFs (h₆fs.newFile context mode hshadow hshadow')).bind ?_
        rintro v₁ r₇ u₁ r₇' h₇
        obtain ⟨h₇fs, hsame₇, hnumber, hsize, hempty, hu₁⟩ := h₇.fs
        rw [hown] at hnumber
        rw [← hsame₇] at hd
        refine (h₇.onFs (h₇fs.writeNew hr hdir htakes (by rw [hnumber]; exact hk)
          (by rw [hnumber]; exact hfree)
          (by rw [hnumber]; exact h₇fs.mirrors.validInumber hvalid') hsize hempty hu₁)).bind ?_
        rintro a r₈ b r₈' h₈
        obtain ⟨rfl, rfl, hmade⟩ := h₈.fs
        rw [if_neg (by simp), if_neg (by simp)]
        have hk1 : v₁.inumber ≠ 1 := by
          rw [hnumber]
          rintro rfl
          exact hk hbrowse.mirrors.root
        refine (h₈.onFs (hmade.link (by rw [hnumber]; exact hk) hk1 hd hd' hu₁
          sfsFsInodeAllocate name)).bind ?_
        rintro ⟨ret, x⟩ r₉ ⟨ret', x'⟩ r₉' h₉
        obtain ⟨hret, hfollows⟩ := h₉.fs
        dsimp only at hret ⊢
        subst hret
        rw [hu₁.inumber]
        exact Run.Agree.ite Iff.rfl (fun _ => h₉.giveBack fun r r' hr =>
          ⟨rfl, hr.mono fun f t hf => hf.2⟩) fun _ =>
            Beside.openHandle ⟨h₉.mu, h₉.fdPool, hfollows⟩ _ flags

/-- **`sfs_unlink`** -/
theorem Beside.unlink (h : Beside (fun fs t => Paired A L fs fs t w) s s') (hdir : Entries A s.fs) :
    Run.Agree (sfsUnlink fsLayer path) s (sfsUnlink (loggedLayer allocate) path) s'
      fun a r b r' => b = a ∧ Stays A s.fs r r' := by
  rw [sfsUnlink, sfsUnlink]
  have h₀ : Beside (fun fs t => Browsing A L s.fs s.fs.logicalInode w.freed fs t w) s s' :=
    ⟨h.mu, h.fdPool, h.fs.browsing⟩
  refine h₀.lock.bind ?_
  rintro _ r₁ _ r₁' ⟨h₁, -⟩
  refine (h₁.onFs (h₁.fs.splitPath path)).bind ?_
  rintro a r₂ b r₂' h₂
  obtain ⟨rfl, rfl, h₂fs, -⟩ := h₂.fs
  cases pathName path with
  | inl ret => exact h₂.giveBack fun r r' hr => ⟨rfl, hr.mono fun f t hf => hf.2.2.1.follows⟩
  | inr name =>
    dsimp only
    refine (h₂.onFs h₂fs.dirRoot).bind ?_
    rintro a r₃ b r₃' h₃
    obtain ⟨rfl, rfl, h₃fs, hsame₃⟩ := h₃.fs
    dsimp only
    refine Run.Agree.ite Iff.rfl (fun _ => h₃.giveBack fun r r' hr =>
      ⟨rfl, hr.mono fun f t hf => hf.2.2.1.follows⟩) fun _ => ?_
    refine (h₃.onFs (h₃fs.iterate hsame₃.symm rfl)).bind ?_
    rintro a r₄ b r₄' h₄
    obtain ⟨it, it', rfl, rfl, h₄fs, hit⟩ := h₄.fs
    dsimp only
    refine (h₄.onFs (h₄fs.search hdir hit name)).bind ?_
    rintro a r₅ b r₅' h₅
    have h₅fs := h₅.fs
    cases a with
    | stop d =>
      cases b with
      | found it j => exact h₅fs.elim
      | stop d' =>
        refine h₅.giveBack fun r r' hr => ⟨rfl, hr.mono ?_⟩
        rintro f t ⟨w₅, φ, hbrowse, -, -⟩
        exact hbrowse.follows
    | found it j =>
      cases b with
      | stop d' => exact h₅fs.elim
      | found it' j' =>
        obtain ⟨rfl, rfl, hused, -, w₅, hbrowse, hit₅, hloaded⟩ := h₅fs
        dsimp only
        refine (h₅.onFs (hbrowse.iterUnlink allocate hdir hit₅ hloaded hused)).bind ?_
        rintro ⟨ret, it₆⟩ r₆ ⟨ret', it₆'⟩ r₆' h₆
        obtain ⟨hret, hcached, hfollows⟩ := h₆.fs
        dsimp only at hret hcached ⊢
        subst hret
        refine Run.Agree.ite Iff.rfl (fun _ => h₆.giveBack fun r r' hr =>
          ⟨rfl, hr.mono fun f t hf => hf.2.2⟩) fun _ => ?_
        refine (h₆.onFs (hfollows.iterclose hcached)).bind ?_
        rintro _ r₇ _ r₇' h₇
        exact h₇.giveBack fun r r' hr => ⟨rfl, hr⟩

/-- **`sfs_release`** of a handle of a file -/
theorem Beside.release (h : Beside (fun fs t => Paired A L fs fs t w) s s') {fh : UInt64}
    (hk : (s.fdPool.slot (toCInt fh).toNat).inumber ∈ A)
    (h1 : (s.fdPool.slot (toCInt fh).toNat).inumber ≠ 1) :
    Run.Agree (sfsRelease fsLayer fh) s (sfsRelease (loggedLayer allocate) fh) s'
      fun a r b r' => b = a ∧ Stays A s.fs r r' := by
  rw [sfsRelease, sfsRelease]
  have h₀ : Beside (fun fs t => Browsing A L s.fs s.fs.logicalInode w.freed fs t w) s s' :=
    ⟨h.mu, h.fdPool, h.fs.browsing⟩
  refine h₀.lock.bind ?_
  rintro _ r₁ _ r₁' ⟨h₁, hpool⟩
  rw [← hpool] at hk h1
  refine (h₁.getFromFd (toCInt fh)).bind ?_
  rintro a r₂ b r₂' ⟨h₂, rfl, hpool₂, hsome⟩
  cases b with
  | none => exact h₂.giveBack fun r r' hr => ⟨rfl, hr.mono fun f t hf => hf.follows⟩
  | some fd =>
    rw [← hpool₂, ← hsome fd rfl] at hk h1
    dsimp -zeta only
    refine (agree_get r₂ r₂').bind ?_
    rintro a r₃ b r₃' ⟨rfl, rfl, rfl, rfl⟩
    rw [h₂.fdPool]
    have hvalid := h₂.fs.mirrors.mem_valid hk
    generalize (r₃.fdPool.slot fd).inumber = k at hk h1 hvalid
    refine (h₂.onFs (h₂.fs.readInode hvalid)).bind ?_
    rintro a r₄ b r₄' h₄
    obtain ⟨rfl, rfl, h₄fs, hsame₄⟩ := h₄.fs
    have hown := h₂.fs.mirrors.own k hvalid
    have hshadow := h₂.fs.mirrors.table k hvalid
    have hstored := hsame₄ k hvalid.1
    dsimp -zeta only
    generalize r₃.fs.logicalInode k = v at hown hshadow hstored
    generalize w.table k = u at hshadow
    refine (Run.agree_assert (by rw [hshadow.links])).bind ?_
    rintro _ r₅ _ r₅' ⟨rfl, rfl, -⟩
    refine (h₄.onFs h₄fs.time).bind ?_
    rintro now r₆ now' r₆' h₆
    obtain ⟨h₆fs, hsame₆⟩ := h₆.fs
    rw [← hsame₆] at hstored
    extract_lets inode rest inode' rest'
    -- what follows the removal of the link
    have hrest : ∀ r₇ r₇', Stays A s.fs r₇ r₇' → Run.Agree (rest ()) r₇ (rest' ()) r₇'
        fun a r b r' => b = a ∧ Stays A s.fs r r' := by
      intro r₇ r₇' h₇
      refine (h₇.withPool fun pool => pool.push fd).bind ?_
      rintro _ r₈ _ r₈' h₈
      exact h₈.giveBack fun r r' hr => ⟨rfl, hr⟩
    have hcurrent : r₆.fs.Current A inode :=
      ⟨show v.inumber ∈ A by rw [hown]; exact hk, by
        show v.blockPointers = (r₆.fs.logicalInode v.inumber).blockPointers
        rw [hown, hstored]⟩
    have hnumber : inode.inumber ≠ 1 := fun e => h1 (hown.symm.trans e)
    have hsize : inode.size = (r₆.fs.logicalInode inode.inumber).size := by
      show v.size = (r₆.fs.logicalInode v.inumber).size
      rw [hown, hstored]
    have hshadow' : inode.Shadow inode' :=
      ⟨hshadow.inumber, hshadow.mode, hshadow.uid, hshadow.gid,
        congrArg (· - 1) hshadow.links, hshadow.size, hshadow.empty⟩
    refine Run.Agree.ite (by rw [hshadow'.links]) (fun hlinks => ?_) fun _ => ?_
    · refine (h₆.onFs (h₆fs.deallocate allocate hcurrent hnumber hlinks hshadow')).bind ?_
      rintro a r₇ b r₇' h₇
      obtain ⟨rfl, rfl, A', L', w₇, h₇fs, hloosed⟩ := h₇.fs
      rw [if_neg (by simp), if_neg (by simp)]
      exact hrest r₇ r₇' ⟨h₇.mu, h₇.fdPool, h₆fs.follows_of_loosed h₇fs hloosed⟩
    · refine (h₆.onFs (h₆fs.relink hcurrent hnumber hsize hshadow')).bind ?_
      rintro a r₇ b r₇' h₇
      obtain ⟨rfl, rfl, A', L', w₇, h₇fs, hloosed⟩ := h₇.fs
      rw [if_neg (by simp), if_neg (by simp)]
      exact hrest r₇ r₇' ⟨h₇.mu, h₇.fdPool, h₆fs.follows_of_loosed h₇fs hloosed⟩

/-- The call of the filler with the attributes of the inodes in a table. -/
def FillerCall.restat (T : UInt64 → Inode) (call : FillerCall) : FillerCall :=
  (call.1, call.2.map fun stat => sfsFsInodeToStat (T stat.ino))

/-- The entries are listed. -/
theorem Browsing.readdir {base fs : Filesystem F} {t : Filesystem DirFiles} {T : UInt64 → Inode}
    {freed : ℕ → Block → Block} {it it' : DirIterator} {calls calls' : List FillerCall}
    (h : Browsing A L base T freed fs t w) (hdir : Entries A base) (hit : Iterates base fs w it it')
    (hcalls : calls = calls'.map (FillerCall.restat T)) (filler : List FillerCall → Bool) :
    Run.Agree (Run.loop (readdirStep fsLayer filler) loopBound (it, calls)) fs
      (Run.loop (readdirStep (loggedLayer allocate) fun calls =>
        filler (calls.map (FillerCall.restat T))) loopBound (it', calls')) t
      fun a fs' b t' => a = b.map (FillerCall.restat T) ∧
        ∃ w φ, Browsing A L base T φ fs' t' w := by
  refine Run.Agree.loop (I := fun x fs y t => x.2 = y.2.map (FillerCall.restat T) ∧
    ∃ w, Browsing A L base T freed fs t w ∧ Iterates base fs w x.1 y.1) ?_ loopBound
    ⟨hcalls, w, h, hit⟩
  rintro ⟨it, calls⟩ fs ⟨it', calls'⟩ t ⟨hcalls, w, h, hit⟩
  dsimp only at hcalls hit
  rw [readdirStep, readdirStep]
  refine (h.iternext allocate hdir hit).bind ?_
  intro a fs₁ b t₁ hnext
  cases a with
  | stop d =>
    cases b with
    | stop d' =>
      obtain ⟨w₁, φ, h₁, -, -⟩ := hnext
      exact Run.agree_pure (Sum.LiftRel.inr ⟨hcalls, w₁, φ, h₁⟩)
    | entry it' j' v' => exact hnext.elim
  | entry it j v =>
    cases b with
    | stop d' => exact hnext.elim
    | entry it' j' v' =>
      obtain ⟨rfl, rfl, hused, w₁, h₁, hit₁, hentry, hinode⟩ := hnext
      obtain ⟨rfl, rfl⟩ := hinode rfl
      obtain hzero | ⟨-, hloaded⟩ := hit₁.place
      · rw [hentry] at hzero
        exact absurd hzero (by decide)
      obtain ⟨hk, -⟩ := hdir.named _ hloaded.lt (hloaded.entry ▸ hused)
      rw [← hloaded.entry] at hk
      have hvalid := h₁.mirrors.mem_valid hk
      have hnumber := (h₁.mirrors.table _ hvalid).inumber.trans (h₁.mirrors.own _ hvalid)
      have hcalls₁ : calls ++ [(cString (Block.dirEntry it.cachedBlock 0).name,
            some (sfsFsInodeToStat (T (Block.dirEntry it.cachedBlock 0).inumber)))] =
          (calls' ++ [(cString (Block.dirEntry it.cachedBlock 0).name,
            some (sfsFsInodeToStat (w₁.table (Block.dirEntry it.cachedBlock 0).inumber)))]).map
              (FillerCall.restat T) := by
        rw [List.map_append, ← hcalls, List.map_singleton, FillerCall.restat, Option.map_some,
          show (sfsFsInodeToStat (w₁.table (Block.dirEntry it.cachedBlock 0).inumber)).ino = _ from
            hnumber]
      dsimp only
      rw [hit₁.cached, ← hcalls₁]
      refine Run.Agree.ite Iff.rfl (fun _ => ?_) fun _ => ?_
      · exact Run.agree_pure (Sum.LiftRel.inr ⟨hcalls₁, w₁, freed, h₁⟩)
      · exact Run.agree_pure (Sum.LiftRel.inl ⟨hcalls₁, w₁, h₁, hit₁⟩)

/-- **`sfs_readdir`** -/
theorem Beside.readdir (h : Beside (fun fs t => Paired A L fs fs t w) s s')
    (hdir : Entries A s.fs) (filler : List FillerCall → Bool) :
    Run.Agree (sfsReaddir fsLayer filler path) s
      (sfsReaddir (loggedLayer allocate) (fun calls =>
        filler (calls.map (FillerCall.restat s.fs.logicalInode))) path) s'
      fun a r b r' => a = (b.1, b.2.map (FillerCall.restat s.fs.logicalInode)) ∧
        Stays A s.fs r r' := by
  rw [sfsReaddir, sfsReaddir]
  have h₀ : Beside (fun fs t => Browsing A L s.fs s.fs.logicalInode w.freed fs t w) s s' :=
    ⟨h.mu, h.fdPool, h.fs.browsing⟩
  refine h₀.lock.bind ?_
  rintro _ r₁ _ r₁' ⟨h₁, -⟩
  refine Run.Agree.ite Iff.rfl (fun _ => h₁.giveBack fun r r' hr =>
    ⟨rfl, hr.mono fun f t hf => hf.follows⟩) fun _ => ?_
  dsimp only
  refine (h₁.onFs h₁.fs.dirRoot).bind ?_
  rintro a r₂ b r₂' h₂
  obtain ⟨rfl, rfl, h₂fs, hsame₂⟩ := h₂.fs
  dsimp only
  refine Run.Agree.ite Iff.rfl (fun _ => h₂.giveBack fun r r' hr =>
    ⟨rfl, hr.mono fun f t hf => hf.2.2.1.follows⟩) fun _ => ?_
  refine Run.Agree.ite Iff.rfl (fun _ => h₂.giveBack fun r r' hr =>
    ⟨rfl, hr.mono fun f t hf => hf.2.2.1.follows⟩) fun _ => ?_
  refine (h₂.onFs (h₂fs.iterate hsame₂.symm rfl)).bind ?_
  rintro a r₃ b r₃' h₃
  obtain ⟨it, it', rfl, rfl, h₃fs, hit⟩ := h₃.fs
  dsimp only
  have hcalls : [(dot, none)] ++ [(dot ++ dot, none)] =
      ([(dot, none)] ++ [(dot ++ dot, none)]).map (FillerCall.restat s.fs.logicalInode) := rfl
  refine (h₃.onFs (h₃fs.readdir hdir hit hcalls filler)).bind ?_
  rintro a r₄ b r₄' h₄
  obtain ⟨rfl, -⟩ := h₄.fs
  refine h₄.giveBack fun r r' hr => ⟨rfl, hr.mono ?_⟩
  rintro f t ⟨-, w₄, φ, hbrowse⟩
  exact hbrowse.follows

variable (allocate) in
/-- **The walk of `sfs_opendir`** goes past all entries, as they have names. -/
theorem Browsing.opendirWalk {base fs : Filesystem F} {t : Filesystem DirFiles}
    {T : UInt64 → Inode} {freed : ℕ → Block → Block} {v u : Inode}
    (h : Browsing A L base T freed fs t w) (hdir : Entries A base)
    (hnamed : ∀ i < base.rootLength, (base.rootSlot i).inumber ≠ 0 →
      cString (base.rootSlot i).name ≠ []) (hv : v = fs.logicalInode 1) (hu : u = w.table 1) :
    Run.Agree (opendirWalk fsLayer v [] (some [])) fs
      (opendirWalk (loggedLayer allocate) u [] (some [])) t fun a fs' b t' =>
        ∃ d d' w' φ, a = .opened d ∧ b = .opened d' ∧ Browsing A L base T φ fs' t' w' ∧
          d = fs'.logicalInode 1 ∧ d' = w'.table 1 := by
  rw [SimpleFileSystem.opendirWalk, SimpleFileSystem.opendirWalk]
  refine (h.iterate hv hu).bind ?_
  rintro a fs₁ b t₁ ⟨it, it', rfl, rfl, h₁, hit⟩
  dsimp only
  refine Run.Agree.loop (I := fun x fs y t => x.1 = [] ∧ y.1 = [] ∧ x.2.1 = some [] ∧
    y.2.1 = some [] ∧ ∃ w, Browsing A L base T freed fs t w ∧ Iterates base fs w x.2.2 y.2.2)
    ?_ loopBound ⟨rfl, rfl, rfl, rfl, w, h₁, hit⟩
  rintro ⟨tok, pathTok, it⟩ fs ⟨tok', pathTok', it'⟩ t ⟨htok, htok', hpath, hpath', w, h, hit⟩
  dsimp only at htok htok' hpath hpath' hit
  subst htok htok' hpath hpath'
  rw [opendirStep, opendirStep]
  refine (h.iternext allocate hdir hit).bind ?_
  intro a fs' b t' hnext
  cases a with
  | stop d =>
    cases b with
    | stop d' =>
      obtain ⟨w', φ, hbrowse, hd, hd'⟩ := hnext
      exact Run.agree_pure (Sum.LiftRel.inr ⟨d, d', w', φ, rfl, rfl, hbrowse, hd, hd'⟩)
    | entry it' j' v' => exact hnext.elim
  | entry it j v =>
    cases b with
    | stop d' => exact hnext.elim
    | entry it' j' v' =>
      obtain ⟨rfl, rfl, hused, w', h', hit', hentry, -⟩ := hnext
      obtain hzero | ⟨-, hloaded⟩ := hit'.place
      · rw [hentry] at hzero
        exact absurd hzero (by decide)
      have hname := hnamed _ hloaded.lt (hloaded.entry ▸ hused)
      rw [← hloaded.entry] at hname
      dsimp only
      rw [hit'.cached, if_pos hname, if_pos hname]
      exact Run.agree_pure (Sum.LiftRel.inl ⟨rfl, rfl, rfl, rfl, w', h', hit'⟩)

/-- **`sfs_opendir`** of the root directory -/
theorem Beside.opendir (h : Beside (fun fs t => Paired A L fs fs t w) s s')
    (hdir : Entries A s.fs) (hnamed : ∀ i < s.fs.rootLength, (s.fs.rootSlot i).inumber ≠ 0 →
      cString (s.fs.rootSlot i).name ≠ []) (flags : UInt64) :
    Run.Agree (sfsOpendir fsLayer [slash] flags) s
      (sfsOpendir (loggedLayer allocate) [slash] flags) s'
      fun a r b r' => b = a ∧ Stays A s.fs r r' := by
  rw [sfsOpendir, sfsOpendir]
  have h₀ : Beside (fun fs t => Browsing A L s.fs s.fs.logicalInode w.freed fs t w) s s' :=
    ⟨h.mu, h.fdPool, h.fs.browsing⟩
  refine h₀.lock.bind ?_
  rintro _ r₁ _ r₁' ⟨h₁, -⟩
  rw [if_neg (by simp), if_neg (by simp)]
  refine (h₁.onFs h₁.fs.dirRoot).bind ?_
  rintro a r₂ b r₂' h₂
  obtain ⟨rfl, rfl, h₂fs, hsame₂⟩ := h₂.fs
  dsimp only
  rw [if_neg (by decide), if_neg (by decide)]
  refine (h₂.onFs (h₂fs.opendirWalk allocate hdir hnamed hsame₂.symm rfl)).bind ?_
  rintro a r₃ b r₃' h₃
  obtain ⟨d, d', w₃, φ, rfl, rfl, hbrowse, hd, hd'⟩ := h₃.fs
  dsimp only
  have hvalid := hbrowse.mirrors.mem_valid hbrowse.mirrors.root
  have hnumber : d'.inumber = d.inumber := by
    rw [hd, hd', (hbrowse.mirrors.table 1 hvalid).inumber]
  rw [hnumber]
  exact Beside.openHandle ⟨h₃.mu, h₃.fdPool, hbrowse.follows⟩ _ flags

/-- **`sfs_releasedir`** of a handle of the root directory -/
theorem Beside.releasedir (h : Beside (fun fs t => Paired A L fs fs t w) s s') {fh : UInt64}
    (h1 : (s.fdPool.slot (toCInt fh).toNat).inumber = 1) :
    Run.Agree (sfsReleasedir fh) s (sfsReleasedir fh) s'
      fun a r b r' => b = a ∧ Stays A s.fs r r' := by
  rw [sfsReleasedir, sfsReleasedir]
  have h₀ : Beside (fun fs t => Browsing A L s.fs s.fs.logicalInode w.freed fs t w) s s' :=
    ⟨h.mu, h.fdPool, h.fs.browsing⟩
  refine h₀.lock.bind ?_
  rintro _ r₁ _ r₁' ⟨h₁, hpool⟩
  rw [← hpool] at h1
  refine (h₁.getFromFd (toCInt fh)).bind ?_
  rintro a r₂ b r₂' ⟨h₂, rfl, hpool₂, hsome⟩
  cases b with
  | none => exact h₂.giveBack fun r r' hr => ⟨rfl, hr.mono fun f t hf => hf.follows⟩
  | some fd =>
    rw [← hpool₂, ← hsome fd rfl] at h1
    dsimp only
    refine (agree_get r₂ r₂').bind ?_
    rintro a r₃ b r₃' ⟨rfl, rfl, rfl, rfl⟩
    rw [h₂.fdPool, h1]
    have hvalid := h₂.fs.mirrors.mem_valid h₂.fs.mirrors.root
    refine (h₂.onFs (h₂.fs.readInode hvalid)).bind ?_
    rintro a r₄ b r₄' h₄
    obtain ⟨rfl, rfl, h₄fs, hsame₄⟩ := h₄.fs
    have hown := h₂.fs.mirrors.own 1 hvalid
    have hshadow := h₂.fs.mirrors.table 1 hvalid
    have hstored := hsame₄ 1 hvalid.1
    dsimp only
    generalize r₃.fs.logicalInode 1 = v at hown hshadow hstored
    generalize w.table 1 = u at hshadow
    refine (h₄.onFs h₄fs.time).bind ?_
    rintro now r₅ now' r₅' h₅
    obtain ⟨h₅fs, hsame₅⟩ := h₅.fs
    rw [← hsame₅] at hstored
    refine (h₅.onFs (h₅fs.writeRoot (v := { v with links := v.links - 1, changeTime := now })
      (u := { u with links := u.links - 1, changeTime := now' }) hown (by rw [hstored])
      (by rw [hstored]) ⟨hshadow.inumber, hshadow.mode, hshadow.uid, hshadow.gid,
        congrArg (· - 1) hshadow.links, hshadow.size, hshadow.empty⟩)).bind ?_
    rintro a r₆ b r₆' h₆
    obtain ⟨rfl, rfl, h₆fs, -, -, hothers⟩ := h₆.fs
    rw [if_neg (by simp), if_neg (by simp)]
    have hbrowse : Browsing A L s.fs s.fs.logicalInode w.freed r₆.fs r₆'.fs _ :=
      h₅fs.rewritten h₆fs hothers
    have h₇ : Stays A s.fs r₆ r₆' := ⟨h₆.mu, h₆.fdPool, hbrowse.follows⟩
    refine (h₇.withPool fun pool => pool.push fd).bind ?_
    rintro _ r₇ _ r₇' h₇
    exact h₇.giveBack fun r r' hr => ⟨rfl, hr⟩

end Requests

end SimpleFileSystem
