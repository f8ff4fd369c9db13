import SimpleFileSystem.Layout
import SimpleFileSystem.Library.Run

/-!
# The disk file, the host, and block I/O

`struct filesystem` has three fields: the descriptor of the disk file, the superblock
in memory, and the inode cache.  A call on it also sees the file behind the
descriptor and the host it runs on, and those are the other fields of `Filesystem`.

The host decides what the code cannot: whether a system call fails and how, what
`time(NULL)` says, whether `malloc` returns memory, and what `free` does to the bytes
it is given back.  Each is a stream, and every call takes the next element, so a
statement about an arbitrary host is a statement about every behaviour of it.

`files` is a field that no function of `fs.c` reads or writes.  The code above
`fs.c` is written against `InodeLayer`, and a layer that is not `fs.c` itself --- one
that keeps the logical blocks of a file in an array --- keeps them here.

## Block numbers and offsets

`block_read` and `block_write` pass `block_num * BLOCK_SIZE` to `pread` and `pwrite`,
a 64-bit product that wraps and that becomes a signed offset.  A product of `2 ^ 63`
and above is a negative offset, which the system call refuses; the other block
numbers past the end of the file read as end of file and are written by extending it.
-/

open ByteCodec

namespace SimpleFileSystem

/-! ## The state -/

/-- The disk file: `st_size` and its bytes. -/
structure Disk where
  size : ℕ
  byte : ℕ → UInt8

/-- What the host makes of one system call. -/
inductive Fault where
  /-- The call does what it is asked to. -/
  | none
  /-- The call fails and transfers nothing. -/
  | error
  /-- The call transfers at most so many bytes. -/
  | short (count : ℕ)
  deriving DecidableEq

/-- The outcomes of the calls to come. -/
structure Host where
  faults : ℕ → Fault
  clock : ℕ → UInt64
  mallocs : ℕ → Bool
  /-- `getuid()` and `getgid()`. -/
  uid : UInt32
  gid : UInt32
  /-- What the bytes of a block are after `free` of the memory that holds it. -/
  freed : ℕ → Block → Block

/-- `struct inode_cache`: a write-back cache of one block of inodes. -/
structure InodeCache where
  dirty : Bool
  /-- A C `int`. -/
  blockNumber : ℤ
  data : Block

/-- `struct filesystem`, the file behind its descriptor, and the host. -/
structure Filesystem (F : Type) where
  disk : Disk
  superblock : Superblock
  inodeCache : InodeCache
  host : Host
  files : F

/-- A function of `fs.c` or `dir.c`. -/
abbrev Fs (F α : Type) := Run (Filesystem F) α

/-- The bound on the iterations of a loop of the model.  Every loop of the code
counts in a `uint64_t` or follows block numbers, which are `uint64_t`s; one that has
gone on for so long has repeated itself. -/
def loopBound : ℕ := 2 ^ 64

/-! ## Conversions between `int` and `uint64_t` -/

/-- The `int` that a `uint64_t` is stored into: its low 32 bits, in two's complement. -/
def toCInt (x : UInt64) : ℤ :=
  if x.toNat % 2 ^ 32 < 2 ^ 31 then x.toNat % 2 ^ 32 else x.toNat % 2 ^ 32 - 2 ^ 32

/-- The `uint64_t` that an `int` is compared as. -/
def ofCInt (z : ℤ) : UInt64 :=
  UInt64.ofInt z

/-- A block number below `2 ^ 31` survives the field it is stored in. -/
theorem ofCInt_toCInt {x : UInt64} (h : x.toNat < 2 ^ 31) : ofCInt (toCInt x) = x := by
  have hsmall : toCInt x = x.toNat := by
    rw [toCInt]
    split <;> omega
  have hmod : ((x.toNat : ℤ) % 2 ^ 64).toNat = x.toNat := by omega
  rw [ofCInt, hsmall, UInt64.ofInt, hmod, UInt64.ofNat_toNat]

theorem toCInt_bounds (x : UInt64) : -2 ^ 31 ≤ toCInt x ∧ toCInt x < 2 ^ 31 := by
  rw [toCInt]
  split <;> omega

/-! ## The disk file -/

namespace Disk

/-- The `n`th block of the file. -/
def block (d : Disk) (n : ℕ) : Block :=
  fun i => d.byte (512 * n + i)

/-- `pread(fd, block, BLOCK_SIZE, off)`: the return value and the bytes of the buffer. -/
def pread (d : Disk) (fault : Fault) (off : UInt64) (block : Block) : ℤ × Block :=
  if 2 ^ 63 ≤ off.toNat then (-1, block)
  else
    let avail := min blockSize (d.size - off.toNat)
    match fault with
    | .none => (avail, splice block 0 avail fun i => d.byte (off.toNat + i))
    | .error => (-1, block)
    | .short n =>
      (min n avail, splice block 0 (min n avail) fun i => d.byte (off.toNat + i))

/-- The file after `n` bytes of a block have been written at `off`.  Bytes between the
old end of the file and `off` are zero. -/
def store (d : Disk) (off n : ℕ) (block : Block) : Disk where
  size := max d.size (off + n)
  byte p :=
    if off ≤ p ∧ p < off + n then view block 0 (p - off)
    else if d.size ≤ p ∧ p < off then 0 else d.byte p

/-- `pwrite(fd, block, BLOCK_SIZE, off)`: the return value and the file. -/
def pwrite (d : Disk) (fault : Fault) (off : UInt64) (block : Block) : ℤ × Disk :=
  if 2 ^ 63 ≤ off.toNat then (-1, d)
  else
    match fault with
    | .none => (blockSize, d.store off.toNat blockSize block)
    | .error => (-1, d)
    | .short n =>
      (min n blockSize, if n = 0 then d else d.store off.toNat (min n blockSize) block)

/-- The file with its `n`th block replaced. -/
def setBlock (d : Disk) (n : ℕ) (block : Block) : Disk :=
  d.store (512 * n) blockSize block

/-- The block with that number lies within the file, and the file is one that an
`off_t` can address. -/
structure Holds (d : Disk) (n : UInt64) : Prop where
  le_size : 512 * (n.toNat + 1) ≤ d.size
  addressable : d.size < 2 ^ 63

@[simp] theorem block_setBlock (d : Disk) (n : ℕ) (b : Block) : (d.setBlock n b).block n = b := by
  funext i
  have hi := i.isLt
  have hin : 512 * n ≤ 512 * n + i ∧ 512 * n + (i : ℕ) < 512 * n + blockSize :=
    ⟨Nat.le_add_right _ _, by unfold blockSize; omega⟩
  show (if _ then _ else _) = b i
  rw [if_pos hin, Nat.add_sub_cancel_left, view, dif_pos (by omega)]
  exact congrArg b (Fin.ext (Nat.zero_add _))

theorem block_setBlock_of_ne (d : Disk) {n m : ℕ} (b : Block) (hne : n ≠ m)
    (hn : 512 * n ≤ d.size) : (d.setBlock n b).block m = d.block m := by
  funext i
  have hi := i.isLt
  show (if _ then _ else if _ then _ else _) = d.byte (512 * m + i)
  rw [if_neg (by unfold blockSize; omega), if_neg (by omega)]

theorem setBlock_size (d : Disk) {n : ℕ} (b : Block) (hn : 512 * (n + 1) ≤ d.size) :
    (d.setBlock n b).size = d.size := by
  show max d.size (512 * n + blockSize) = d.size
  unfold blockSize
  omega

theorem Holds.setBlock {d : Disk} {n : UInt64} {m : ℕ} (b : Block) (h : d.Holds n)
    (hm : 512 * (m + 1) ≤ d.size) : (d.setBlock m b).Holds n := by
  constructor
  · rw [setBlock_size d b hm]; exact h.le_size
  · rw [setBlock_size d b hm]; exact h.addressable

/-- The offset of a block of the file does not wrap. -/
theorem Holds.toNat_mul {d : Disk} {n : UInt64} (h : d.Holds n) :
    (n * 512).toNat = 512 * n.toNat := by
  have h1 := h.le_size
  have h2 := h.addressable
  rw [UInt64.toNat_mul]
  show n.toNat * 512 % 2 ^ 64 = 512 * n.toNat
  omega

/-- Reading a block of the file. -/
theorem pread_none {d : Disk} {n : UInt64} (h : d.Holds n) (b : Block) :
    d.pread .none (n * 512) b = (512, d.block n.toNat) := by
  have h1 := h.le_size
  have h2 := h.addressable
  have havail : min blockSize (d.size - 512 * n.toNat) = 512 := by
    unfold blockSize
    omega
  rw [pread, h.toNat_mul, if_neg (by omega), havail]
  refine Prod.ext rfl (funext fun i => ?_)
  show splice b 0 512 (fun j => d.byte (512 * n.toNat + j)) i = d.byte (512 * n.toNat + i)
  rw [splice_apply_of_mem (Nat.zero_le _) (by omega), Nat.sub_zero]

/-- Writing a block of the file. -/
theorem pwrite_none {d : Disk} {n : UInt64} (h : d.Holds n) (b : Block) :
    d.pwrite .none (n * 512) b = (512, d.setBlock n.toNat b) := by
  have h1 := h.le_size
  have h2 := h.addressable
  rw [pwrite, h.toNat_mul, if_neg (by omega)]
  rfl

/-- A write of a whole block is one that nothing went wrong with. -/
theorem pwrite_of_full {d : Disk} {fault : Fault} {off : UInt64} {b : Block}
    (h : (d.pwrite fault off b).1 = 512) : d.pwrite fault off b = d.pwrite .none off b := by
  unfold pwrite at h ⊢
  by_cases hoff : 2 ^ 63 ≤ off.toNat
  · rw [if_pos hoff, if_pos hoff]
  rw [if_neg hoff] at h ⊢
  rw [if_neg hoff]
  cases fault with
  | none => rfl
  | error => exact absurd (show (-1 : ℤ) = 512 from h) (by decide)
  | short k =>
    have hmin : min (k : ℤ) blockSize = 512 := h
    have hk : min k blockSize = blockSize := by
      simp only [blockSize] at hmin ⊢
      omega
    have hk0 : k ≠ 0 := by
      rintro rfl
      exact absurd hk (by decide)
    simp only [if_neg hk0, hk, hmin]
    rfl

/-! ### Calls that may fail -/

/-- A read of a whole block is one that nothing went wrong with. -/
theorem pread_of_full {d : Disk} {n : UInt64} (h : d.Holds n) {fault : Fault} {b : Block}
    (hfull : (d.pread fault (n * 512) b).1 = 512) :
    (d.pread fault (n * 512) b).2 = d.block n.toNat := by
  have h1 := h.le_size
  have h2 := h.addressable
  have havail : min blockSize (d.size - 512 * n.toNat) = 512 := by
    unfold blockSize
    omega
  cases fault with
  | none => rw [pread_none h]
  | error =>
    rw [pread, h.toNat_mul, if_neg (by omega)] at hfull
    exact absurd (show (-1 : ℤ) = 512 from hfull) (by decide)
  | short k =>
    rw [pread, h.toNat_mul, if_neg (by omega), havail] at hfull
    have hmin : min k 512 = 512 := by
      have hcast : min (k : ℤ) (512 : ℕ) = 512 := hfull
      omega
    have hnone := congrArg Prod.snd (pread_none h b)
    rw [pread, h.toNat_mul, if_neg (by omega), havail] at hnone ⊢
    dsimp only at hnone ⊢
    rw [hmin]
    exact hnone

/-- The first bytes of a block are written: other blocks stay what they are. -/
theorem block_store_of_ne (d : Disk) {n m c : ℕ} (b : Block) (hne : n ≠ m) (hc : c ≤ blockSize)
    (hn : 512 * n ≤ d.size) : (d.store (512 * n) c b).block m = d.block m := by
  unfold blockSize at hc
  funext i
  have hi := i.isLt
  show (if _ then _ else if _ then _ else _) = d.byte (512 * m + i)
  rw [if_neg (by omega), if_neg (by omega)]

/-- **However a write of a block of the file ends**, other blocks stay what they are. -/
theorem block_pwrite_of_ne {d : Disk} {n : UInt64} (h : d.Holds n) (fault : Fault) (b : Block)
    {m : ℕ} (hne : n.toNat ≠ m) : (d.pwrite fault (n * 512) b).2.block m = d.block m := by
  have h1 := h.le_size
  have h2 := h.addressable
  unfold pwrite
  rw [h.toNat_mul, if_neg (by omega)]
  cases fault with
  | none => exact block_store_of_ne d b hne (Nat.le_refl _) (by omega)
  | error => rfl
  | short k =>
    dsimp only
    split
    · rfl
    · exact block_store_of_ne d b hne (Nat.min_le_right _ _) (by omega)

/-- **However a write of a block ends**, each byte of it is new or what it was. -/
theorem block_pwrite_apply {d : Disk} {n : UInt64} (h : d.Holds n) (fault : Fault) (b : Block)
    (i : Fin 512) :
    (d.pwrite fault (n * 512) b).2.block n.toNat i = b i ∨
      (d.pwrite fault (n * 512) b).2.block n.toNat i = d.block n.toNat i := by
  have h1 := h.le_size
  have h2 := h.addressable
  have hi := i.isLt
  have hstore : ∀ c, (d.store (512 * n.toNat) c b).block n.toNat i = b i ∨
      (d.store (512 * n.toNat) c b).block n.toNat i = d.block n.toNat i := by
    intro c
    by_cases hc : (i : ℕ) < c
    · refine Or.inl ?_
      show (if _ then _ else _) = b i
      rw [if_pos ⟨Nat.le_add_right _ _, Nat.add_lt_add_left hc _⟩, Nat.add_sub_cancel_left, view,
        dif_pos (by omega)]
      exact congrArg b (Fin.ext (Nat.zero_add _))
    · refine Or.inr ?_
      show (if _ then _ else if _ then _ else _) = d.byte (512 * n.toNat + i)
      rw [if_neg (by omega), if_neg (by omega)]
  unfold pwrite
  rw [h.toNat_mul, if_neg (by omega)]
  cases fault with
  | none => exact hstore _
  | error => exact Or.inr rfl
  | short k =>
    dsimp only
    split
    · exact Or.inr rfl
    · exact hstore _

/-- The same of a write that may extend the file, for the blocks that the file has. -/
theorem block_pwrite_of_lt {d : Disk} {n : UInt64} (hn : n.toNat < 2 ^ 31) (fault : Fault)
    (b : Block) {m : ℕ} (hm : 512 * (m + 1) ≤ d.size) (hne : n.toNat ≠ m) :
    (d.pwrite fault (n * 512) b).2.block m = d.block m := by
  have hoff : (n * 512).toNat = 512 * n.toNat := by
    rw [UInt64.toNat_mul]
    show n.toNat * 512 % 2 ^ 64 = 512 * n.toNat
    omega
  have hstore : ∀ c, c ≤ blockSize → (d.store (512 * n.toNat) c b).block m = d.block m := by
    intro c hc
    unfold blockSize at hc
    funext i
    have hi := i.isLt
    show (if _ then _ else if _ then _ else _) = d.byte (512 * m + i)
    rw [if_neg (by omega), if_neg (by omega)]
  unfold pwrite
  rw [hoff, if_neg (by omega)]
  cases fault with
  | none => exact hstore _ (Nat.le_refl _)
  | error => rfl
  | short k =>
    dsimp only
    split
    · rfl
    · exact hstore _ (Nat.min_le_right _ _)

/-- A write does not shorten the file. -/
theorem size_le_pwrite (d : Disk) (fault : Fault) (off : UInt64) (b : Block) :
    d.size ≤ (d.pwrite fault off b).2.size := by
  unfold pwrite
  split
  · exact Nat.le_refl _
  · cases fault with
    | none => exact Nat.le_max_left _ _
    | error => exact Nat.le_refl _
    | short k =>
      dsimp only
      split
      · exact Nat.le_refl _
      · exact Nat.le_max_left _ _

theorem size_pwrite {d : Disk} {n : UInt64} (h : d.Holds n) (fault : Fault) (b : Block) :
    (d.pwrite fault (n * 512) b).2.size = d.size := by
  have h1 := h.le_size
  have h2 := h.addressable
  have hstore : ∀ c, c ≤ blockSize → (d.store (512 * n.toNat) c b).size = d.size := by
    intro c hc
    unfold blockSize at hc
    show max d.size (512 * n.toNat + c) = d.size
    omega
  unfold pwrite
  rw [h.toNat_mul, if_neg (by omega)]
  cases fault with
  | none => exact hstore _ (Nat.le_refl _)
  | error => rfl
  | short k =>
    dsimp only
    split
    · rfl
    · exact hstore _ (Nat.min_le_right _ _)

end Disk

/-! ## Calls on the host -/

section Calls

variable {F : Type}

/-- The outcome of the system call being made. -/
def nextFault : Fs F Fault := do
  let fs ← get
  set { fs with host := { fs.host with faults := fun i => fs.host.faults (i + 1) } }
  return fs.host.faults 0

/-- `time(NULL)`. -/
def time : Fs F UInt64 := do
  let fs ← get
  set { fs with host := { fs.host with clock := fun i => fs.host.clock (i + 1) } }
  return fs.host.clock 0

/-- The filesystem after a call of `time`. -/
def Filesystem.ticked (fs : Filesystem F) : Filesystem F :=
  { fs with host := { fs.host with clock := fun i => fs.host.clock (i + 1) } }

theorem time_run (fs : Filesystem F) :
    (time : Fs F UInt64).run fs = .done (fs.host.clock 0) fs.ticked := rfl

/-- Whether a `malloc` returns memory. -/
def malloc : Fs F Bool := do
  let fs ← get
  set { fs with host := { fs.host with mallocs := fun i => fs.host.mallocs (i + 1) } }
  return fs.host.mallocs 0

/-- The filesystem after a call of `malloc`. -/
def Filesystem.malloced (fs : Filesystem F) : Filesystem F :=
  { fs with host := { fs.host with mallocs := fun i => fs.host.mallocs (i + 1) } }

theorem malloc_run (fs : Filesystem F) :
    (malloc : Fs F Bool).run fs = .done (fs.host.mallocs 0) fs.malloced := rfl

/-- `free` of memory that holds a block; what is found there afterwards. -/
def free (block : Block) : Fs F Block := do
  let fs ← get
  set { fs with host := { fs.host with freed := fun i => fs.host.freed (i + 1) } }
  return fs.host.freed 0 block

/-! ## `block.c` -/

/-- `block_read`: the return value and the bytes of `block` afterwards. -/
def blockRead (blockNum : UInt64) (block : Block) : Fs F (ℤ × Block) := do
  let fault ← nextFault
  let fs ← get
  let (ret, block) := fs.disk.pread fault (blockNum * 512) block
  return if ret ≤ 0 then (ret, Block.zero) else (ret, block)

/-- `block_write`. -/
def blockWrite (blockNum : UInt64) (block : Block) : Fs F ℤ := do
  let fault ← nextFault
  let fs ← get
  let (ret, disk) := fs.disk.pwrite fault (blockNum * 512) block
  set { fs with disk := disk }
  return ret

theorem blockWrite_run (fs : Filesystem F) (n : UInt64) (b : Block) :
    (blockWrite n b).run fs = .done (fs.disk.pwrite (fs.host.faults 0) (n * 512) b).1
      { fs with
        host := { fs.host with faults := fun i => fs.host.faults (i + 1) }
        disk := (fs.disk.pwrite (fs.host.faults 0) (n * 512) b).2 } := rfl

theorem returns_blockRead (n : UInt64) (block : Block) :
    Run.Returns (blockRead n block : Fs F (ℤ × Block)) := by
  intro fs
  exact ⟨_, _, rfl, trivial⟩

theorem returns_blockWrite (n : UInt64) (block : Block) :
    Run.Returns (blockWrite n block : Fs F ℤ) := by
  intro fs
  exact ⟨_, _, blockWrite_run fs n block, trivial⟩

/-! ## A host on which I/O does not fail -/

/-- No system call fails. -/
def Host.NoFaults (h : Host) : Prop :=
  ∀ i, h.faults i = .none

theorem nextFault_of_noFaults {fs : Filesystem F} (h : fs.host.NoFaults) :
    (nextFault : Fs F Fault).run fs = .done .none fs := by
  have hshift : (fun i => fs.host.faults (i + 1)) = fs.host.faults :=
    funext fun i => (h (i + 1)).trans (h i).symm
  show Outcome.done (fs.host.faults 0)
    { fs with host := { fs.host with faults := fun i => fs.host.faults (i + 1) } } = _
  rw [h 0, hshift]

/-- **`block_read` of a block of the file** returns its bytes and changes nothing. -/
theorem blockRead_of_holds {fs : Filesystem F} (h : fs.host.NoFaults) {n : UInt64}
    (hn : fs.disk.Holds n) (b : Block) :
    (blockRead n b).run fs = .done (512, fs.disk.block n.toNat) fs := by
  rw [blockRead, Run.run_bind, nextFault_of_noFaults h, Run.andThen_done, Run.run_bind,
    Run.run_get, Run.andThen_done, Disk.pread_none hn]
  rfl

/-- A block of the disk whose number does not fit into an `int` is never found cached. -/
theorem ofCInt_ne {d : Disk} {z : ℤ} {n : UInt64} (hz : -2 ^ 31 ≤ z ∧ z < 2 ^ 31)
    (hn : d.Holds n) (hint : ¬ n.toNat < 2 ^ 31) : ofCInt z ≠ n := by
  rintro rfl
  have h1 := hn.le_size
  have h2 := hn.addressable
  have hnat : (ofCInt z).toNat = (z % 2 ^ 64).toNat % 2 ^ 64 := by
    rw [ofCInt, UInt64.ofInt]
    exact UInt64.toNat_ofNat'
  omega

/-- The filesystem with a block of its disk replaced. -/
def Filesystem.writeBlock (fs : Filesystem F) (n : UInt64) (b : Block) : Filesystem F :=
  { fs with disk := fs.disk.setBlock n.toNat b }

/-- **`block_write` of a block of the file** replaces its bytes. -/
theorem blockWrite_of_holds {fs : Filesystem F} (h : fs.host.NoFaults) {n : UInt64}
    (hn : fs.disk.Holds n) (b : Block) :
    (blockWrite n b).run fs = .done 512 (fs.writeBlock n b) := by
  rw [blockWrite, Run.run_bind, nextFault_of_noFaults h, Run.andThen_done, Run.run_bind,
    Run.run_get, Run.andThen_done, Disk.pwrite_none hn]
  rfl

namespace Filesystem

@[simp] theorem writeBlock_superblock (fs : Filesystem F) (n : UInt64) (b : Block) :
    (fs.writeBlock n b).superblock = fs.superblock := rfl

@[simp] theorem writeBlock_inodeCache (fs : Filesystem F) (n : UInt64) (b : Block) :
    (fs.writeBlock n b).inodeCache = fs.inodeCache := rfl

@[simp] theorem writeBlock_host (fs : Filesystem F) (n : UInt64) (b : Block) :
    (fs.writeBlock n b).host = fs.host := rfl

@[simp] theorem writeBlock_files (fs : Filesystem F) (n : UInt64) (b : Block) :
    (fs.writeBlock n b).files = fs.files := rfl

@[simp] theorem block_writeBlock (fs : Filesystem F) (n : UInt64) (b : Block) :
    (fs.writeBlock n b).disk.block n.toNat = b :=
  Disk.block_setBlock _ _ _

theorem block_writeBlock_of_ne {fs : Filesystem F} {n : UInt64} (b : Block)
    (hn : fs.disk.Holds n) {m : ℕ} (h : n.toNat ≠ m) :
    (fs.writeBlock n b).disk.block m = fs.disk.block m :=
  Disk.block_setBlock_of_ne _ _ h (by have := hn.le_size; omega)

theorem size_writeBlock {fs : Filesystem F} {n : UInt64} (b : Block) (hn : fs.disk.Holds n) :
    (fs.writeBlock n b).disk.size = fs.disk.size :=
  Disk.setBlock_size _ _ hn.le_size

theorem holds_writeBlock {fs : Filesystem F} {n m : UInt64} (b : Block) (hn : fs.disk.Holds n)
    (hm : fs.disk.Holds m) : (fs.writeBlock n b).disk.Holds m :=
  hm.setBlock b hn.le_size

end Filesystem

end Calls

end SimpleFileSystem
