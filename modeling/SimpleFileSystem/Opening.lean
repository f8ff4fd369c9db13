import SimpleFileSystem.CacheFaults
import SimpleFileSystem.FreshDisk
import SimpleFileSystem.Reopen

/-!
# What opening a disk does to it

`sfs_fs_open_disk` either returns without a write, or runs `format_fs` on a disk that has no
signature (`sfsFsOpenDisk_cases`), and it does the second whatever `maybe_format` is.  A disk
that has been opened has the signature and the superblock of the handle
(`signed_of_open`), whether it was formatted by that call or before, so opening it again only
reads it.

That `maybe_format` is not looked at is seen on the disks without a signature that
`format_fs` takes to be large enough: `open_is_stable_iff`.
-/

namespace SimpleFileSystem

variable {F : Type}

/-- A disk whose first block begins with the signature. -/
structure Disk.Signed (d : Disk) : Prop where
  le_size : 512 ≤ d.size
  signature : (d.block 0).superblock.signature = sfsFileTypeSignature

/-- **Opening the disk is non-destructive and stable**: without `maybe_format` it writes
nothing, with it only if there is no signature, and after an open that succeeded every later
one, in whatever memory and with either flag, writes nothing and gives the same superblock. -/
structure OpenIsStable (fs : Filesystem F) : Prop where
  readOnly : Run.Ensures (sfsFsOpenDisk false) fs fun _ fs' => fs'.disk = fs.disk
  signed : fs.disk.Signed → Run.Ensures (sfsFsOpenDisk true) fs fun _ fs' => fs'.disk = fs.disk
  stable : ∀ (maybeFormat : Bool) (opened : Filesystem F),
    (sfsFsOpenDisk maybeFormat).run fs = .done true opened →
    ∀ (again : Filesystem F) (maybeFormat' : Bool), again.disk = opened.disk →
      Run.Ensures (sfsFsOpenDisk maybeFormat') again fun ok fs' => fs'.disk = again.disk ∧
        (again.host.NoFaults → again.host.mallocs 0 = true → ok = true) ∧
        (ok = true → fs'.superblock = opened.superblock)

section Open

variable {fs fs' : Filesystem F}

/-- No more bytes are read than the file has. -/
theorem pread_le_size (d : Disk) (fault : Fault) (off : UInt64) (b : Block) :
    (d.pread fault off b).1 ≤ (d.size : ℤ) := by
  have havail : ((min blockSize (d.size - off.toNat) : ℕ) : ℤ) ≤ (d.size : ℤ) := by
    exact_mod_cast (Nat.min_le_right _ _).trans (Nat.sub_le _ _)
  have hpos : (-1 : ℤ) ≤ d.size := by omega
  rw [Disk.pread]
  split
  · exact hpos
  · cases fault with
    | none => exact havail
    | error => exact hpos
    | short n => exact (min_le_right (n : ℤ) _).trans havail

/-- A read of the first block of the file that returns all of it. -/
theorem pread_zero {d : Disk} (hlt : d.size < 2 ^ 63) {fault : Fault} {b : Block}
    (h : (d.pread fault (0 * 512) b).1 = 512) :
    512 ≤ d.size ∧ (d.pread fault (0 * 512) b).2 = d.block 0 := by
  have hle : 512 ≤ d.size := by
    have hsize := pread_le_size d fault (0 * 512) b
    rw [h] at hsize
    exact_mod_cast hsize
  have hholds : d.Holds 0 := ⟨hle, hlt⟩
  exact ⟨hle, Disk.pread_of_full hholds h⟩

/-- The filesystem in which `format_fs` is run: memory has been allocated, and the read of
the superblock is done. -/
def Filesystem.probed (fs : Filesystem F) : Filesystem F :=
  { fs.malloced with inodeCache := { fs.inodeCache with blockNumber := 0 } }.called

/-- **The ways in which opening a disk goes on**: it ends without a handle, or there is the
signature and the superblock is read, or there is none and the disk is formatted. -/
theorem sfsFsOpenDisk_cases (fs : Filesystem F) (hlt : fs.disk.size < 2 ^ 63) (maybeFormat : Bool) :
    ((fs.host.mallocs 0 = true → fs.host.faults 0 = .none → fs.disk.size < 512) ∧
      ∃ fs', (sfsFsOpenDisk maybeFormat).run fs = .done false fs' ∧ fs'.disk = fs.disk) ∨
    (fs.disk.Signed ∧ ∃ fs', (sfsFsOpenDisk maybeFormat).run fs = .done true fs' ∧
      fs'.disk = fs.disk ∧ fs'.superblock = (fs.disk.block 0).superblock) ∨
    ¬ fs.disk.Signed ∧ (sfsFsOpenDisk maybeFormat).run fs =
      (formatFs >>= fun ret => pure (decide (ret = 0)) : Fs F Bool).run fs.probed := by
  rw [sfsFsOpenDisk, Run.run_bind, malloc_run, Run.andThen_done]
  by_cases hmalloc : fs.host.mallocs 0 = true
  swap
  · rw [if_pos hmalloc]
    exact Or.inl ⟨fun h => absurd h hmalloc, _, rfl, rfl⟩
  rw [if_neg (not_not.mpr hmalloc), Run.run_bind, Run.run_modify, Run.andThen_done, Run.run_bind,
    blockRead_run, Run.andThen_done]
  dsimp only
  have hpread : fs.malloced.disk.pread (fs.malloced.host.faults 0) (0 * 512) Block.zero =
      fs.disk.pread (fs.host.faults 0) (0 * 512) Block.zero := rfl
  rw [hpread]
  by_cases hfull : (fs.disk.pread (fs.host.faults 0) (0 * 512) Block.zero).1 = 512
  swap
  · rw [if_pos hfull]
    refine Or.inl ⟨fun _ hfault => ?_, _, rfl, rfl⟩
    by_contra hle
    have hholds : fs.disk.Holds 0 := ⟨Nat.not_lt.mp hle, hlt⟩
    rw [hfault, Disk.pread_none hholds] at hfull
    exact hfull rfl
  obtain ⟨hle, hblock⟩ := pread_zero hlt hfull
  have hsome : ¬ (fs.disk.pread (fs.host.faults 0) (0 * 512) Block.zero).1 ≤ 0 := by
    rw [hfull]
    decide
  rw [if_neg (not_not.mpr hfull), if_neg hsome, hblock]
  by_cases hsignature : (fs.disk.block 0).superblock.signature = sfsFileTypeSignature
  · rw [if_pos hsignature]
    exact Or.inr (Or.inl ⟨⟨hle, hsignature⟩, _, rfl, rfl, rfl⟩)
  · rw [if_neg hsignature]
    exact Or.inr (Or.inr ⟨fun h => hsignature h.signature, rfl⟩)

variable (fs) in
/-- `format_fs` on a disk that is too small writes nothing, on any host. -/
theorem formatFs_of_small (hsize : fs.disk.size < 1536) :
    Run.Ensures (formatFs : Fs F ℤ) fs fun ret fs' => ret = -1 ∧ fs'.disk = fs.disk := by
  have hrun : (diskBlocks : Fs F (Option UInt64)).run fs =
      .done (if fs.host.faults 0 = .error then none else some (UInt64.ofNat (fs.disk.size / 512)))
        fs.called := rfl
  have hsmall : UInt64.ofNat (fs.disk.size / 512) < 3 := by
    rw [UInt64.lt_iff_toNat_lt, toNat_ofNat_of_lt' (by omega)]
    show _ < 3
    omega
  rw [formatFs]
  refine Run.Ensures.bind (Run.Ensures.of_eq hrun (Q := fun blocks fs' =>
    (blocks = none ∨ blocks = some (UInt64.ofNat (fs.disk.size / 512))) ∧ fs'.disk = fs.disk)
    ⟨?_, rfl⟩) fun blocks fs' hpost => ?_
  · split
    · exact Or.inl rfl
    · exact Or.inr rfl
  obtain ⟨rfl | rfl, hdisk⟩ := hpost
  · exact Run.Ensures.of_eq (Run.run_pure _ _) ⟨rfl, hdisk⟩
  · dsimp only
    rw [if_pos hsmall]
    exact Run.Ensures.of_eq (Run.run_pure _ _) ⟨rfl, hdisk⟩

/-- **Opening a disk that is signed, or too small, writes nothing**, on any host. -/
theorem sfsFsOpenDisk_keeps_disk (hlt : fs.disk.size < 2 ^ 63)
    (h : fs.host.mallocs 0 = false ∨ fs.disk.size < 1536 ∨ fs.disk.Signed) (maybeFormat : Bool) :
    Run.Ensures (sfsFsOpenDisk maybeFormat) fs fun _ fs' => fs'.disk = fs.disk := by
  rcases sfsFsOpenDisk_cases fs hlt maybeFormat with ⟨-, fs', hrun, hdisk⟩ |
    ⟨-, fs', hrun, hdisk, -⟩ | ⟨hunsigned, hrun⟩
  · exact Run.Ensures.of_eq hrun hdisk
  · exact Run.Ensures.of_eq hrun hdisk
  · rcases h with hmalloc | hsize | hsigned
    · have hnone : (sfsFsOpenDisk maybeFormat).run fs = .done false fs.malloced := by
        rw [sfsFsOpenDisk, Run.run_bind, malloc_run, Run.andThen_done, if_pos (by simp [hmalloc])]
        rfl
      exact Run.Ensures.of_eq hnone rfl
    · obtain ⟨ret, fs', hformat, -, hdisk⟩ := formatFs_of_small fs.probed hsize
      rw [Run.run_bind, hformat, Run.andThen_done] at hrun
      exact Run.Ensures.of_eq hrun hdisk
    · exact absurd hsigned hunsigned

/-- **A disk that has been opened** has the signature, and the superblock of the handle. -/
theorem signed_of_open (hlt : fs.disk.size < 2 ^ 63) {maybeFormat : Bool}
    (hopen : (sfsFsOpenDisk maybeFormat).run fs = .done true fs') :
    fs'.disk.Signed ∧ (fs'.disk.block 0).superblock = fs'.superblock ∧ fs'.disk.size < 2 ^ 63 := by
  rcases sfsFsOpenDisk_cases fs hlt maybeFormat with ⟨-, fs₁, hrun, -⟩ |
    ⟨hsigned, fs₁, hrun, hdisk, hsuper⟩ | ⟨-, hrun⟩
  · rw [hopen] at hrun
    cases hrun
  · rw [hopen] at hrun
    cases hrun
    rw [hdisk]
    exact ⟨hsigned, hsuper.symm, hlt⟩
  · rw [hopen] at hrun
    obtain ⟨ret, fs₁, hformat, hret⟩ := Run.bind_eq_done.mp hrun.symm
    have hzero : ret = 0 := by
      by_contra hne
      rw [decide_eq_false hne] at hret
      cases hret
    rw [hzero, decide_eq_true rfl] at hret
    cases hret
    have hsize : 1536 ≤ fs.disk.size := by
      by_contra hsmall
      obtain ⟨_, _, hformat', rfl, -⟩ := formatFs_of_small fs.probed (Nat.not_le.mp hsmall)
      rw [hformat, hzero] at hformat'
      cases hformat'
    rw [hzero] at hformat
    obtain ⟨-, hformatted⟩ := formatted_of_run fs.probed hlt rfl
      (by show 3 ≤ fs.disk.size / 512; omega) hformat
    have hsynced : (fs'.disk.block 0).superblock = fs'.superblock := hformatted.synced
    have hsize' : fs'.disk.size = fs.disk.size := hformatted.size
    obtain ⟨now, hsuper⟩ := hformatted.superblock
    refine ⟨⟨by omega, ?_⟩, hsynced, by omega⟩
    rw [hsynced, hsuper]
    rfl

/-- **Opening a signed disk** gives its superblock, if it gives a handle. -/
theorem sfsFsOpenDisk_of_signed (hlt : fs.disk.size < 2 ^ 63) (h : fs.disk.Signed)
    (maybeFormat : Bool) :
    Run.Ensures (sfsFsOpenDisk maybeFormat) fs fun ok fs' => fs'.disk = fs.disk ∧
      (fs.host.NoFaults → fs.host.mallocs 0 = true → ok = true) ∧
      (ok = true → fs'.superblock = (fs.disk.block 0).superblock) := by
  rcases sfsFsOpenDisk_cases fs hlt maybeFormat with ⟨-, fs', hrun, hdisk⟩ |
    ⟨-, fs', hrun, hdisk, hsuper⟩ | ⟨hunsigned, -⟩
  · refine Run.Ensures.of_eq hrun ⟨hdisk, fun hnf hmalloc => ?_, fun hok => nomatch hok⟩
    have hformatted : FormattedDisk fs := ⟨hnf, ⟨h.le_size, hlt⟩, h.signature⟩
    rw [sfsFsOpenDisk_run hformatted hmalloc] at hrun
    cases hrun
  · exact Run.Ensures.of_eq hrun ⟨hdisk, fun _ _ => rfl, fun _ => hsuper⟩
  · exact absurd h hunsigned

/-- What of the property holds of every disk. -/
theorem stable_of_open (hlt : fs.disk.size < 2 ^ 63) (h : Run.Ensures (sfsFsOpenDisk false) fs
    fun _ fs' => fs'.disk = fs.disk) : OpenIsStable fs where
  readOnly := h
  signed hsigned := sfsFsOpenDisk_keeps_disk hlt (Or.inr (Or.inr hsigned)) true
  stable maybeFormat opened hopen again maybeFormat' hdisk := by
    obtain ⟨hsigned, hsuper, hlt'⟩ := signed_of_open hlt hopen
    rw [← hdisk] at hsigned hsuper hlt'
    exact (sfsFsOpenDisk_of_signed hlt' hsigned maybeFormat').mono fun ok fs' hpost =>
      ⟨hpost.1, hpost.2.1, fun hok => (hpost.2.2 hok).trans hsuper⟩

end Open

/-- **Opening a disk is non-destructive and stable** if there is no memory for the handle,
the disk is too small to be formatted or it has the signature, and only then: on every other
disk the call without `maybe_format` writes. -/
theorem open_is_stable_iff {fs : Filesystem F} (hnf : fs.host.NoFaults)
    (hlt : fs.disk.size < 2 ^ 63) :
    OpenIsStable fs ↔ fs.host.mallocs 0 = false ∨ fs.disk.size < 1536 ∨ fs.disk.Signed := by
  constructor
  · intro h
    by_contra hnot
    obtain ⟨hmalloc, hsize, hunsigned⟩ : fs.host.mallocs 0 = true ∧ 1536 ≤ fs.disk.size ∧
        ¬ fs.disk.Signed := by
      simpa only [not_or, Bool.not_eq_false, Nat.not_lt] using hnot
    obtain ⟨ok, fs', hopen, hdisk⟩ := h.readOnly
    have hok : ok = true := by
      rcases sfsFsOpenDisk_cases fs hlt false with ⟨hfails, -⟩ | ⟨hsigned, -⟩ | ⟨-, hrun⟩
      · have hsmall := hfails hmalloc (hnf 0)
        omega
      · exact absurd hsigned hunsigned
      · obtain ⟨hgood, hbad⟩ := formatFs_run fs.probed (fun i => hnf (i + 1)) hlt rfl
          (by show 3 ≤ fs.disk.size / 512; omega)
        rw [hopen] at hrun
        obtain ⟨ret, fs₁, hformat, hret⟩ := Run.bind_eq_done.mp hrun.symm
        by_cases hfits : Fits (fs.probed.disk.size / 512)
        · obtain ⟨fs₂, hrun₂, -⟩ := hgood hfits
          rw [hrun₂] at hformat
          cases hformat
          cases hret
          rfl
        · rw [hbad hfits] at hformat
          cases hformat
    -- the disk had no signature before, and has one now
    rw [hok] at hopen
    exact hunsigned (hdisk ▸ (signed_of_open hlt hopen).1)
  · exact fun h => stable_of_open hlt (sfsFsOpenDisk_keeps_disk hlt h false)

/-- Four zero blocks have no signature. -/
theorem not_signed_unformatted : ¬ (Filesystem.unformatted 4).disk.Signed := by
  intro h
  have hzero : (Filesystem.unformatted 4).disk.block 0 = Block.zero := rfl
  have hbyte := congrFun h.signature 0
  rw [hzero] at hbyte
  exact absurd hbyte (by decide)

/-- A disk of two blocks is too small. -/
theorem open_is_stable_iff_two :
    OpenIsStable (Filesystem.unformatted 2) ↔
      (Filesystem.unformatted 2).host.mallocs 0 = false ∨
      (Filesystem.unformatted 2).disk.size < 1536 ∨ (Filesystem.unformatted 2).disk.Signed :=
  open_is_stable_iff (fun _ => by rfl) (by decide)

/-- **Four zero blocks are formatted**, though `maybe_format` is false. -/
theorem open_formats_unasked :
    ∃ fs', (sfsFsOpenDisk false).run (Filesystem.unformatted 4) = .done true fs' ∧
      fs'.disk ≠ (Filesystem.unformatted 4).disk ∧ ¬ OpenIsStable (Filesystem.unformatted 4) := by
  have hsize : (Filesystem.unformatted 4).disk.size < 2 ^ 63 := by decide
  have hopen : ∃ fs', (sfsFsOpenDisk false).run (Filesystem.unformatted 4) = .done true fs' := by
    rcases sfsFsOpenDisk_cases (Filesystem.unformatted 4) hsize false with ⟨hfails, -⟩ |
      ⟨hsigned, -⟩ | ⟨-, hrun⟩
    · exact absurd (hfails rfl rfl) (by decide)
    · exact absurd hsigned not_signed_unformatted
    · obtain ⟨fs', hformat, -⟩ := (formatFs_run (Filesystem.unformatted 4).probed (B := 4)
        (fun _ => by rfl) hsize (by decide) (by decide)).1 (by decide)
      rw [Run.run_bind, hformat, Run.andThen_done] at hrun
      exact ⟨fs', hrun⟩
  obtain ⟨fs', hrun⟩ := hopen
  have hchanged : fs'.disk ≠ (Filesystem.unformatted 4).disk := fun e =>
    not_signed_unformatted (e ▸ (signed_of_open hsize hrun).1)
  exact ⟨fs', hrun, hchanged, fun h => hchanged (h.readOnly.post hrun)⟩

end SimpleFileSystem
