import SimpleFileSystem.FailedWrites
import SimpleFileSystem.Volumes

/-!
# The sizes of files

A file is within what an inode maps as long as no write fails past the end of it: that is one
step of arithmetic (`Contents.Write.size_le`), and no other request makes a file longer.  So
over `fs.c`, in every run in which the writes that fail are within their files, every byte below
the size of a file can be read (`readable_of_exec`).

`failed_write_keeps_size_iff` joins this to what a single `sfs_write` does, whatever the host
does.
-/

namespace SimpleFileSystem

/-! ## One write -/

section Write

variable {n : ℕ} {e : Request × Reply} {c c' : Contents} {memory : Memory} {tmpBlock : Block}
  {size : UInt64} {o : ℕ} {ret : ℤ}

/-- **A write keeps the file within what an inode maps**, if it ends within the file when it
fails. -/
theorem Contents.Write.size_le (h : c.Write memory tmpBlock o size ret c')
    (hsmall : o + size.toNat < 2 ^ 63)
    (hwithin : ret < 0 → size = 0 ∨ o + size.toNat ≤ c.size.toNat)
    (hc : c.size.toNat ≤ mappedBytes) : c'.size.toNat ≤ mappedBytes := by
  cases h with
  | empty => exact hc
  | @blocks _ ok stop nonempty range =>
    have hpos : 0 < size := UInt64.pos_iff_ne_zero.mpr nonempty
    have hcovers := BlockRange.covers_blockRange hpos hsmall
    have hend : o + size.toNat ≤ mappedBytes := by
      cases ok with
      | false => exact ((hwithin (show (-1 : ℤ) < 0 by decide)).resolve_left nonempty).trans hc
      | true =>
        obtain ⟨-, hbeyond⟩ := range.all rfl
        have hle : (blockRange (o : ℤ) size).firstBlock ≤ (blockRange (o : ℤ) size).lastBlock :=
          UInt64.le_iff_toNat_le.mpr (firstBlock_le hcovers)
        have hlast := Nat.not_le.mp fun hlast => hbeyond ⟨hle, hlast⟩
        rw [hcovers.lastBlock] at hlast
        unfold mappedBlocks at hlast
        unfold mappedBytes
        omega
    have hsum : (UInt64.ofInt (o : ℤ) + size).toNat = o + size.toNat := by
      rw [UInt64.toNat_add, BlockRange.toNat_ofInt_natCast (by omega),
        Nat.mod_eq_of_lt (by omega)]
    dsimp only
    split
    · rw [hsum]
      exact hend
    · exact hc

/-- **If the request is a write that fails**, it is of nothing, or ends within the file. -/
def Contents.FailsWithin (c : Contents) : Request × Reply → Prop
  | (.write _ _ size offset _, .code ret) => ∃ o : ℕ, offset = o ∧ o + size.toNat < 2 ^ 63 ∧
      (ret < 0 → size = 0 ∨ o + size.toNat ≤ c.size.toNat)
  | _ => True

/-- **A read or a write** keeps the file within what an inode maps. -/
theorem TransferStep.size_le (h : TransferStep n c e c') (hwithin : c.FailsWithin e)
    (hc : c.size.toNat ≤ mappedBytes) : c'.size.toNat ≤ mappedBytes := by
  cases h with
  | read => exact hc
  | write written =>
    obtain ⟨o, rfl, hsmall, hfails⟩ := hwithin
    exact written.size_le hsmall hfails hc

end Write

/-! ## Runs over the disk -/

/-- The file that a request is made on, by a handle. -/
def Session.handled (x : Session) : Request → UInt64
  | .read _ _ _ _ fh => (x.state.fdPool.slot (toCInt fh).toNat).inumber
  | .write _ _ _ _ fh => (x.state.fdPool.slot (toCInt fh).toNat).inumber
  | _ => 0

/-- **A request that ends within its file**, if it is a write that fails. -/
def WithinServe (x : Session) (e : Request × Reply) (y : Session) : Prop :=
  (x.state.fs.contents (x.handled e.1)).FailsWithin e ∧ ReadyServe x e y

section Disk

variable {x y : Session} {A : List UInt64} {L : FreeList} {e : Request × Reply}
  {tr : List (Request × Reply)} {k : UInt64} {n : ℕ} {c c' : Contents}

theorem Session.Sound.readable_iff (h : x.Sound A L) (hk : k ∈ A) :
    x.state.fs.Readable k ↔ (x.state.fs.logicalInode k).size.toNat ≤ mappedBytes := by
  obtain ⟨nodes, himage⟩ := h.disk.shelved.image
  exact himage.readable_iff hk

/-- The root directory is within what an inode maps. -/
theorem Session.Sound.readable_root (h : x.Sound A L) : x.state.fs.Readable 1 := by
  rw [h.readable_iff h.disk.root, h.size]
  have hmapped := h.mapped
  unfold mappedBlocks at hmapped
  unfold mappedBytes
  omega

/-- A read or a write is made on the file that its handle is of. -/
theorem TransferStep.handled (h : TransferStep n c e c') (hsound : x.Sound A L)
    (hn : n ∈ x.files) : x.handled e.1 = (x.state.fdPool.slot n).inumber := by
  cases h with
  | read | write => rw [Session.handled, (hsound.holding hn).fd]

/-- **One request** keeps every byte of the files readable. -/
theorem WithinServe.readable (h : x.Sound A L) (hreadable : ∀ k ∈ A, x.state.fs.Readable k)
    (hserve : WithinServe x e y) :
    ∃ A' L', y.Sound A' L' ∧ ∀ k ∈ A', y.state.fs.Readable k := by
  obtain ⟨hwithin, hserve⟩ := hserve
  obtain hserve | ⟨n, hn, ht, hfiles, hdirs, hstep⟩ := hserve.cases h
  · obtain ⟨A', L', ev, b', hbears, -, -, -, hkept⟩ := DiskServe.bears h hserve
    have h' := hbears.sound
    refine ⟨A', L', h', fun k hk => ?_⟩
    by_cases hk1 : k = 1
    · rw [hk1]
      exact h'.readable_root
    rw [h'.readable_iff hk]
    obtain ⟨hmem, hsame⟩ | ⟨-, hempty⟩ := hkept k hk hk1
    · rw [hsame.size]
      exact (h.readable_iff hmem).mp (hreadable k hmem)
    · rw [hempty.size]
      exact Nat.zero_le _
  · obtain ⟨h', -⟩ := h.transferred (h.held n hn) ht hfiles hdirs
    have hfile := h.mem_of_handle hn
    refine ⟨A, L, h', fun k hk => ?_⟩
    rw [h'.readable_iff hk]
    by_cases hkn : k = (x.state.fdPool.slot n).inumber
    · rw [hstep.handled h hn] at hwithin
      rw [hkn]
      exact hstep.size_le hwithin ((h.readable_iff hfile).mp (hreadable _ hfile))
    · rw [ht.changed.others k (h.disk.valid hk) hkn]
      exact (h.readable_iff hk).mp (hreadable k hk)

/-- **A run of requests** in which no write fails past the end of its file: every byte below the
size of a file can be read after it. -/
theorem readable_of_exec (h : x.Sound A L) (hreadable : ∀ k ∈ A, x.state.fs.Readable k)
    (hexec : Exec WithinServe x tr y) :
    ∃ A' L', y.Sound A' L' ∧ ∀ k ∈ A', y.state.fs.Readable k := by
  refine hexec.invariant (I := fun z => ∃ A L, z.Sound A L ∧ ∀ k ∈ A, z.state.fs.Readable k) ?_
    ⟨A, L, h, hreadable⟩
  rintro s e t ⟨A, L, h, hreadable⟩ hserve
  exact hserve.readable h hreadable

/-- The root directory is one of the files, and so is what has a name or an open handle. -/
theorem Session.Sound.mem_of_inUse (h : x.Sound A L) (hk : k = 1 ∨ 0 < x.diskRefs k) : k ∈ A := by
  by_cases hk1 : k = 1
  · rw [hk1]
    exact h.disk.root
  · exact h.mem_files hk1 (hk.resolve_left hk1)

end Disk

/-! ## When a failed write keeps the size -/

/-- **A failed write keeps the size**, whatever the host does, exactly if it writes nothing,
or ends within the file and finds its inode in the cache.  Such writes keep a file within what an
inode maps, whatever the host does; and in every run of requests over a host that does not fail,
in which the writes that fail are within their files, every byte below the size of the root
directory, and of each file with a name or an open handle, can be read. -/
theorem failed_write_keeps_size_iff {F : Type} {s : SfsState F} {fh k size : UInt64} {o : ℕ}
    (h : OpenFile s fh k) (hsmall : o + size.toNat < 2 ^ 63) :
    (s.fs.WritesWithin k size o → s.WriteKeepsSize fh k size o) ∧
    ((inodeBlock k).toNat < 2 ^ 31 → s.WriteKeepsSize fh k size o → s.fs.WritesWithin k size o) ∧
    (∀ tr s', (inodeBlock k).toNat < 2 ^ 31 → (s.fs.logicalInode k).size.toNat ≤ 38912 →
      Exec (WriteCall k) s tr s' → (s'.fs.logicalInode k).size.toNat ≤ 38912) ∧
    ∀ x A L tr y, x.Sound A L → (∀ j ∈ A, x.state.fs.Readable j) →
      Exec WithinServe x tr y → ∀ j, j = 1 ∨ 0 < y.diskRefs j → y.state.fs.Readable j := by
  refine ⟨WritesWithin.keepsSize h hsmall, h.writesWithin hsmall,
    fun _ _ => WriteCall.size_le_of_exec, ?_⟩
  intro x A L tr y hx hreadable hexec j hj
  obtain ⟨A', L', hy, hreadable'⟩ := readable_of_exec hx hreadable hexec
  exact hreadable' j (hy.mem_of_inUse hj)

/-- A file of that size on a small disk, with its inode in the cache. -/
def openedOfSize (size : UInt64) : SfsState Unit :=
  openedTwo (Filesystem.blank oneFreeBlock ()) { emptyTwo with size := size }

theorem openFile_openedOfSize (size : UInt64) : OpenFile (openedOfSize size) 0 2 ∧
    (openedOfSize size).fs.logicalInode 2 = { emptyTwo with size := size } ∧
      TableFrame (Filesystem.blank oneFreeBlock ()) (openedOfSize size).fs := by
  have hcache : (-2 ^ 31 : ℤ) ≤ 0 ∧ (0 : ℤ) < 2 ^ 31 := by decide
  have hvalid : oneFreeBlock.ValidInumber 2 := by constructor <;> decide
  exact openFile_openedTwo inodeState_oneFreeBlock hcache hvalid rfl

/-- The only file of the volume is the root directory. -/
theorem readable_spareSession : ∀ k ∈ [1], spareSession.state.fs.Readable k := by
  intro k hk
  obtain rfl := List.mem_singleton.mp hk
  exact sound_spareSession.readable_root

/-- A write within a file of 600 bytes, and the volume on which a file has been created and
written. -/
theorem failed_write_keeps_size_iff_openedOfSize :
    (openedOfSize 600).WriteKeepsSize 0 2 100 500 ∧
    ∃ y, Exec WithinServe spareSession [(createA, .handle (0, some 0)), (writeOnes, .code 512)] y ∧
      ∀ k, k = 1 ∨ 0 < y.diskRefs k → y.state.fs.Readable k := by
  obtain ⟨hopen, hinode, -⟩ := openFile_openedOfSize 600
  obtain ⟨hkeeps, -, -, hruns⟩ :=
    failed_write_keeps_size_iff hopen (by decide : 500 + (100 : UInt64).toNat < 2 ^ 63)
  obtain ⟨x, y, -, -, -, -, hcreate, hwrite⟩ := serve_spareSession
  have hexec : Exec WithinServe spareSession
      [(createA, .handle (0, some 0)), (writeOnes, .code 512)] y :=
    .cons ⟨trivial, hcreate.2⟩
      (.cons ⟨⟨0, rfl, by decide, fun hneg => absurd hneg (by decide)⟩, hwrite.2⟩ (.nil y))
  refine ⟨hkeeps (Or.inr ⟨by decide, ?_⟩), y, hexec, hruns _ _ _ _ _ sound_spareSession
    readable_spareSession hexec⟩
  rw [hinode]
  decide

/-- **One byte written past the last block that an inode maps.**  No call of the host fails,
the request does, and the file has a size below which there is a byte that cannot be read. -/
theorem failed_write_grows_file :
    OpenFile (openedOfSize 0) 0 2 ∧ (openedOfSize 0).fs.host.NoFaults ∧
      ((openedOfSize 0).fs.logicalInode 2).size = 0 ∧
      ∃ s', (sfsWrite fsLayer (fun _ => 1) Block.zero 1 (38912 : ℕ) 0).run (openedOfSize 0) =
          .done (-1) s' ∧
        (s'.fs.logicalInode 2).size = 38913 ∧ ¬ s'.fs.Readable 2 := by
  obtain ⟨hopen, hinode, hframe⟩ := openFile_openedOfSize 0
  have hsize : ((openedOfSize 0).fs.logicalInode 2).size = 0 := by
    rw [hinode]
  have hhit : (openedOfSize 0).fs.cachedBlock = inodeBlock 2 := by decide
  have hsame : (openedOfSize 0).fs.afterCache true (inodeBlock 2) = (openedOfSize 0).fs :=
    if_pos hhit
  have hread : (sfsFsReadInode 2).run (openedOfSize 0).fs =
      .done (some ((openedOfSize 0).fs.logicalInode 2))
        (((openedOfSize 0).fs.afterCache true (inodeBlock 2)).onHost (openedOfSize 0).fs.host) := by
    rw [hsame, onHost_self]
    exact sfsFsReadInode_of_hit (by decide) hhit
  have hsmall : 38912 + (1 : UInt64).toNat < 2 ^ 63 := by decide
  obtain ⟨v, t, hsized, -, hz, hwrite⟩ := hopen.write_run (by decide) hsmall hread
    (by rw [hsame]; exact hhit)
  have hrun := hwrite (fun _ => 1) Block.zero
  rw [writeBlocks_of_stuck (by decide) (by decide) (Or.inr (by decide)) v] at hrun
  have hlong : (t.fs.logicalInode 2).size = 38913 := by
    rw [hsized.logicalInode_size]
    rw [hsize] at hz
    exact UInt64.toNat_inj.mp hz
  refine ⟨hopen, (hframe.reliable inodeState_oneFreeBlock.reliable).noFaults, hsize, _, hrun,
    hlong, fun hreadable => ?_⟩
  obtain ⟨x, fs', hblock, hx⟩ := hreadable 38912 (by
    show 38912 < (t.fs.logicalInode 2).size.toNat
    rw [hlong]
    decide) Block.zero
  cases hblock
  exact absurd (show (-1 : ℤ) = 0 from hx) (by decide)

end SimpleFileSystem
