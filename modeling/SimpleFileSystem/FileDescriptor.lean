import SimpleFileSystem.Machine
import Mathlib.Logic.Function.Basic

/-!
# The state of a mounted filesystem, and `filedescriptor.c`

`struct sfs_state` holds the mutex that every request takes, the pool of file
descriptors and the filesystem.  Requests run one after the other, so of the mutex the
calls on it are kept: a request that finds it held waits for ever.

The pool is a list of slabs of 4088 slots; a slot in
use is a `struct sfs_fd`, a free one a `struct node` of the free list, and the two share
their memory as members of a `union`.  So the word that a descriptor keeps its inode
number in is the word that a free slot keeps its next pointer in.

A pointer to a slot is modelled by the number of the slot plus one, counted through the
slabs, and `NULL` by zero.
-/

namespace SimpleFileSystem

variable {F : Type}

/-- `union slot`. -/
structure Slot where
  /-- `fd`, of either member. -/
  fd : ℤ
  /-- `inumber` of a `struct sfs_fd`, `next` of a `struct node`. -/
  inumber : UInt64
  /-- `flags` of a `struct sfs_fd`. -/
  flags : UInt64

/-- The number of slots of a slab. -/
def slotsPerSlab : ℕ := 4088

/-- `data` of a `struct slab`. -/
abbrev Slab := Fin slotsPerSlab → Slot

/-- `struct pool`. -/
structure FdPool where
  slabs : List Slab
  /-- A pointer to a slot. -/
  freelist : UInt64

/-- A call on a mutex. -/
inductive MutexCall where
  | lock
  | unlock
  deriving DecidableEq

/-- `struct sfs_state`. -/
structure SfsState (F : Type) where
  /-- `mu`: the calls on it so far, the last one first. -/
  mu : List MutexCall
  fdPool : FdPool
  fs : Filesystem F

/-- Whether the mutex is held. -/
def SfsState.Locked (s : SfsState F) : Prop :=
  s.mu.head? = some .lock

instance (s : SfsState F) : Decidable s.Locked :=
  inferInstanceAs (Decidable (s.mu.head? = some .lock))

/-- A function of `sfs.c` or `filedescriptor.c`. -/
abbrev Sfs (F α : Type) := Run (SfsState F) α

/-- A call of a function of `fs.c` or `dir.c`. -/
def onFs {α : Type} (x : Fs F α) : Sfs F α :=
  Run.zoom SfsState.fs (fun fs s => { s with fs := fs }) x

/-- `SFS_LOCK_OR_FAIL`: a mutex that is held is waited for. -/
def lock : Sfs F Unit := do
  let s ← get
  if s.Locked then Run.halt .deadlock
  set { s with mu := .lock :: s.mu }

/-- `SFS_UNLOCK_OR_FAIL`. -/
def unlock : Sfs F Unit :=
  modify fun s => { s with mu := .unlock :: s.mu }

/-! ## Slots -/

/-- The index of a slot within its slab. -/
def slotIndex (n : ℕ) : Fin slotsPerSlab :=
  ⟨n % slotsPerSlab, Nat.mod_lt _ (by decide)⟩

namespace FdPool

/-- The slot with a number. -/
def slot (pool : FdPool) (n : ℕ) : Slot :=
  match pool.slabs[n / slotsPerSlab]? with
  | some slab => slab (slotIndex n)
  | none => ⟨0, 0, 0⟩

/-- Assign to a slot. -/
def setSlot (pool : FdPool) (n : ℕ) (s : Slot) : FdPool :=
  { pool with slabs := pool.slabs.modify (n / slotsPerSlab) fun slab =>
      Function.update slab (slotIndex n) s }

/-- The pointer to a slot. -/
def pointer (n : ℕ) : UInt64 :=
  UInt64.ofNat (n + 1)

/-- The slot that a pointer points to. -/
def target (p : UInt64) : ℕ :=
  p.toNat - 1

end FdPool

/-- A new slab whose slots are numbered from `first` on, each pointing to the next.  The
bytes of `flags` are those of fresh memory, which no function reads. -/
def newSlab (first : ℕ) : Slab := fun i =>
  { fd := first + i
    inumber := if (i : ℕ) = slotsPerSlab - 1 then 0 else FdPool.pointer (first + i + 1)
    flags := 0 }

/-! ## `filedescriptor.c` -/

/-- `sfs_filedescriptor_pool_init`, when both calls of `malloc` return memory. -/
def sfsFiledescriptorPoolInit : FdPool where
  slabs := [newSlab 0]
  freelist := FdPool.pointer 0

/-- Take the first slot off the free list. -/
def FdPool.pop (pool : FdPool) : FdPool :=
  { pool with freelist := (pool.slot (FdPool.target pool.freelist)).inumber }

/-- Put a slot in front of the free list. -/
def FdPool.push (pool : FdPool) (n : ℕ) : FdPool where
  slabs := (pool.setSlot n { pool.slot n with inumber := pool.freelist }).slabs
  freelist := FdPool.pointer n

/-- `sfs_filedescriptor_allocate`: the number of the slot, `none` for `NULL`. -/
def sfsFiledescriptorAllocate : Sfs F (Option ℕ) := do
  let s ← get
  if s.fdPool.freelist ≠ 0 then
    set { s with fdPool := s.fdPool.pop }
    return some (FdPool.target s.fdPool.freelist)
  let numFdsAlready := slotsPerSlab * s.fdPool.slabs.length
  if ¬ (← onFs malloc) then return none
  let s ← get
  let pool : FdPool :=
    { slabs := s.fdPool.slabs ++ [newSlab numFdsAlready]
      freelist := FdPool.pointer numFdsAlready }
  -- the recursive call finds the free list not empty
  set { s with fdPool := pool.pop }
  return some (FdPool.target pool.freelist)

/-- `sfs_filedescriptor_get_from_fd`: the number of the slot, `none` for `NULL`. -/
def sfsFiledescriptorGetFromFd (fd : ℤ) : Sfs F (Option ℕ) := do
  Run.assert (0 ≤ fd)
  let s ← get
  if fd.toNat / slotsPerSlab < s.fdPool.slabs.length then return some fd.toNat
  return none

/-- `sfs_filedescriptor_free` of the slot with a number. -/
def sfsFiledescriptorFree (n : ℕ) : Sfs F Unit :=
  modify fun s => { s with fdPool := s.fdPool.push n }

/-- `fd->inumber = inumber` -/
def setFdInumber (n : ℕ) (inumber : UInt64) : Sfs F Unit :=
  modify fun s => { s with
    fdPool := s.fdPool.setSlot n { s.fdPool.slot n with inumber := inumber } }

/-- `fd->flags = flags` -/
def setFdFlags (n : ℕ) (flags : UInt64) : Sfs F Unit :=
  modify fun s => { s with fdPool := s.fdPool.setSlot n { s.fdPool.slot n with flags := flags } }

end SimpleFileSystem
