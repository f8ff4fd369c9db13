import SimpleFileSystem.Handlers

/-!
# `sfs.c`: `sfs_read` and `sfs_write`

Both go over the file blocks that the range `offset .. offset + size` touches.  A whole
block goes between the file and the caller's buffer, a partial one through the buffer
`tmp_block` on the stack, which holds arbitrary bytes at the start.

The caller's buffer is memory, and the two functions compute addresses in it: they move
`buf` back by the offset within the first block and then add the number of the block in
the file.  `Memory` is the memory around the buffer, every byte by its index relative to
the `buf` that the caller passed, so a byte that is not in the buffer is one whose index
is negative or not below `size`.
-/

open ByteCodec

namespace SimpleFileSystem

variable {F : Type}

/-! ## The caller's memory -/

/-- The bytes around the caller's buffer, by their index in it. -/
abbrev Memory := ℤ → UInt8

namespace Memory

/-- The 512 bytes at an address. -/
def block (memory : Memory) (p : ℤ) : Block :=
  fun i => memory (p + i)

/-- `memcpy` of the first `len` bytes of `m` to an address. -/
def copy (memory : Memory) (p : ℤ) (len : ℕ) (m : ℕ → UInt8) : Memory :=
  fun i => if p ≤ i ∧ i < p + len then m (i - p).toNat else memory i

/-- A block stored at an address. -/
def setBlock (memory : Memory) (p : ℤ) (block : Block) : Memory :=
  memory.copy p blockSize (view block 0)

end Memory

/-! ## The blocks of a range -/

/-- What both functions compute from `offset`, an `off_t`, and `size`. -/
structure BlockRange where
  firstBlock : UInt64
  firstBlockOffset : UInt64
  lastBlockLen : UInt64
  lastBlock : UInt64

/-- The blocks of the range `offset .. offset + size`. -/
def blockRange (offset : ℤ) (size : UInt64) : BlockRange :=
  let stop := UInt64.ofInt offset + size
  let lastBlockLen := if stop % 512 = 0 then 512 else stop % 512
  { firstBlock := UInt64.ofInt (offset.tdiv 512)
    firstBlockOffset := UInt64.ofInt (offset.tmod 512)
    lastBlockLen := lastBlockLen
    lastBlock := stop / 512 - if lastBlockLen = 512 then 1 else 0 }

namespace BlockRange

/-- `slice_a` -/
def sliceA (r : BlockRange) (iblock : UInt64) : UInt64 :=
  if iblock = r.firstBlock ∧ r.firstBlockOffset ≠ 0 then r.firstBlockOffset else 0

/-- `slice_b` -/
def sliceB (r : BlockRange) (iblock : UInt64) : UInt64 :=
  if iblock = r.lastBlock ∧ r.lastBlockLen ≠ 512 then r.lastBlockLen else 512

/-- `slice_a == 0 && slice_b == BLOCK_SIZE` -/
def Whole (r : BlockRange) (iblock : UInt64) : Prop :=
  r.sliceA iblock = 0 ∧ r.sliceB iblock = 512

/-- `slice_a == 0 && slice_b != BLOCK_SIZE` -/
def Copied (r : BlockRange) (iblock : UInt64) : Prop :=
  r.sliceA iblock = 0 ∧ r.sliceB iblock ≠ 512

instance (r : BlockRange) (iblock : UInt64) : Decidable (r.Whole iblock) :=
  inferInstanceAs (Decidable (_ ∧ _))

instance (r : BlockRange) (iblock : UInt64) : Decidable (r.Copied iblock) :=
  inferInstanceAs (Decidable (_ ∧ _))

/-- `buf`, after it has been adjusted to be `BLOCK_SIZE` aligned. -/
def buf (r : BlockRange) : ℤ :=
  -r.firstBlockOffset.toNat

/-- `buf + iblock * BLOCK_SIZE` -/
def wholeAt (r : BlockRange) (iblock : UInt64) : ℤ :=
  r.buf + (iblock * 512).toNat

/-- `buf + slice_a` -/
def sliceAt (r : BlockRange) (iblock : UInt64) : ℤ :=
  r.buf + (r.sliceA iblock).toNat

/-- `slice_b - slice_a` -/
def sliceLen (r : BlockRange) (iblock : UInt64) : ℕ :=
  (r.sliceB iblock - r.sliceA iblock).toNat

end BlockRange

/-! ## `sfs_read` -/

/-- One iteration of the loop of `sfs_read`; it ends with whether all blocks were read. -/
def readStep (L : InodeLayer F) (inode : Inode) (r : BlockRange) :
    UInt64 × Memory × Block → Fs F ((UInt64 × Memory × Block) ⊕ (Bool × Memory))
  | (iblock, memory, tmpBlock) => do
    if ¬ iblock ≤ r.lastBlock then return .inr (true, memory)
    if r.Whole iblock then
      let (ret, block) ← L.blockRead inode iblock (memory.block (r.wholeAt iblock))
      let memory := memory.setBlock (r.wholeAt iblock) block
      if ret ≠ 0 then return .inr (false, memory)
      return .inl (iblock + 1, memory, tmpBlock)
    else
      let (ret, tmpBlock) ← L.blockRead inode iblock tmpBlock
      if ret ≠ 0 then return .inr (false, memory)
      if r.Copied iblock then
        let memory := memory.copy (r.sliceAt iblock) (r.sliceLen iblock)
          (view tmpBlock (r.sliceA iblock).toNat)
        return .inl (iblock + 1, memory, tmpBlock)
      return .inl (iblock + 1, memory, tmpBlock)

/-- `sfs_read` from the handle number `fi->fh`: the return value and the memory. -/
def sfsRead (L : InodeLayer F) (memory : Memory) (tmpBlock : Block) (size : UInt64) (offset : ℤ)
    (fh : UInt64) : Sfs F (ℤ × Memory) := do
  lock
  if size = 0 then
    unlock
    return (0, memory)
  let some fd ← sfsFiledescriptorGetFromFd (toCInt fh) |
    unlock
    return (-1, memory)
  let s ← get
  let some inode ← onFs (sfsFsReadInode (s.fdPool.slot fd).inumber) |
    unlock
    return (-1, memory)
  let inode := { inode with accessTime := ← onFs time }
  if (← onFs (sfsFsWriteInode inode)) ≠ 0 then
    unlock
    return (-1, memory)
  let r := blockRange offset size
  let (ok, memory) ← onFs
    (Run.loop (readStep L inode r) loopBound (r.firstBlock, memory, tmpBlock))
  unlock
  return (if ok then toCInt size else -1, memory)

/-! ## `sfs_write` -/

/-- The part of a block that is read from the file and overlaid: `tmp_block`, or `none`
if it could not be read. -/
def overlayTmp (L : InodeLayer F) (memory : Memory) (inode : Inode) (r : BlockRange)
    (iblock : UInt64) (tmpBlock : Block) : Fs F (Option Block) := do
  if r.Copied iblock then
    let (ret, tmpBlock) ← L.blockRead inode iblock tmpBlock
    if ret ≠ 0 then return none
    return some (splice tmpBlock (r.sliceA iblock).toNat (r.sliceLen iblock)
      fun i => memory (r.sliceAt iblock + i))
  return some tmpBlock

/-- One iteration of the loop of `sfs_write`; it ends with whether all blocks were
written. -/
def writeStep (L : InodeLayer F) (memory : Memory) (r : BlockRange) :
    UInt64 × Inode × Block → Fs F ((UInt64 × Inode × Block) ⊕ Bool)
  | (iblock, inode, tmpBlock) => do
    if ¬ iblock ≤ r.lastBlock then return .inr true
    let some tmpBlock ← overlayTmp L memory inode r iblock tmpBlock | return .inr false
    let source := if r.Whole iblock then memory.block (r.wholeAt iblock) else tmpBlock
    let (ret, inode) ← L.blockWrite inode iblock source
    if ret ≠ 0 then return .inr false
    return .inl (iblock + 1, inode, tmpBlock)

/-- The inode that `sfs_write` writes before the loop. -/
def touchForWrite (inode : Inode) (stop : UInt64) : Fs F Inode := do
  let inode := { inode with accessTime := ← time }
  if inode.size < stop then return { inode with changeTime := ← time, size := stop }
  return inode

/-- `sfs_write` to the handle number `fi->fh`. -/
def sfsWrite (L : InodeLayer F) (memory : Memory) (tmpBlock : Block) (size : UInt64) (offset : ℤ)
    (fh : UInt64) : Sfs F ℤ := do
  lock
  if size = 0 then
    unlock
    return 0
  let some fd ← sfsFiledescriptorGetFromFd (toCInt fh) |
    unlock
    return -1
  let s ← get
  let some inode ← onFs (sfsFsReadInode (s.fdPool.slot fd).inumber) |
    unlock
    return -1
  let inode ← onFs (touchForWrite inode (UInt64.ofInt offset + size))
  if (← onFs (sfsFsWriteInode inode)) ≠ 0 then
    unlock
    return -1
  let r := blockRange offset size
  let ok ← onFs (Run.loop (writeStep L memory r) loopBound (r.firstBlock, inode, tmpBlock))
  unlock
  return if ok then toCInt size else -1

end SimpleFileSystem
