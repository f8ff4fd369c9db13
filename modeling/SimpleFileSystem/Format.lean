import SimpleFileSystem.Fs
import Mathlib.Data.Fin.VecNotation
import Mathlib.Data.Fintype.Pi

/-!
# `format_fs` and the opening and closing of a disk

`format_fs` cuts the disk file into a superblock, a table of inodes --- a sixteenth of
the blocks after the superblock, and at least one --- and the rest, the spare blocks.
It chains the inodes into a free list, and the spare blocks into index nodes followed
by the blocks that their slots name.  Two loops do this, over one scratch block.

The superblock that the code fills in through a pointer is `fs->superblock`, and it is
that field here.  `sfs_fs_open_disk` leaves the flag and the data of the inode cache as
`malloc` made them.
-/

open ByteCodec

namespace SimpleFileSystem

variable {F : Type}

/-- `SFS_FILE_TYPE_SIGNATURE`: `"SFS_IS_THE_BEST"` and its final zero byte. -/
def sfsFileTypeSignature : Fin 16 → UInt8 :=
  ![83, 70, 83, 95, 73, 83, 95, 84, 72, 69, 95, 66, 69, 83, 84, 0]

/-- `S_IFDIR | S_IRWXU | S_IRGRP | S_IXGRP | S_IROTH | S_IXOTH` -/
def rootMode : UInt32 := sIfdir ||| 0o755

/-- `6.25% of space for inodes or 1 block` -/
def inodeTableBlocksFor (blocks : UInt64) : UInt64 :=
  if (blocks - 1) / 16 = 0 then 1 else (blocks - 1) / 16

/-- The superblock of a disk of so many blocks. -/
def superblockFor (blocks createTime : UInt64) : Superblock where
  signature := sfsFileTypeSignature
  createTime := createTime
  blockSize := 512
  inodeTableBlocks := inodeTableBlocksFor blocks
  inodes := inodeTableBlocksFor blocks * inodesPerBlock
  blocks := blocks
  freeBlocksHead := 2 + inodeTableBlocksFor blocks
  freeInodeHead := 2

/-! ## The inode table -/

/-- Slot `j` of block `i` of the inode table; the state is the scratch block and
`next_free`. -/
def formatInode (i : UInt64) (w : Block × UInt64) (j : ℕ) : Fs F (Block × UInt64) := do
  let (tmpBlock, nextFree) := w
  if i = 1 ∧ j = 0 then
    let fs ← get
    let now ← time
    let root := { Block.inode tmpBlock 0 with
      inumber := 1, mode := rootMode, uid := fs.host.uid, gid := fs.host.gid, links := 1
      accessTime := now, modifiedTime := now, changeTime := now, size := 0 }
    return (Block.setInode tmpBlock 0 root, nextFree)
  let free := { Inode.zero with inumber := nextFree - 1, size := nextFree }
  return (Block.setInode tmpBlock j free, nextFree + 1)

/-- One iteration of the loop over the blocks of the inode table. -/
def formatTableStep (inodeTableBlocks : UInt64) :
    UInt64 × Block × UInt64 → Fs F ((UInt64 × Block × UInt64) ⊕ Option Block)
  | (i, tmpBlock, nextFree) => do
    if ¬ i < inodeTableBlocks + 1 then return .inr (some tmpBlock)
    let (tmpBlock, nextFree) ← [0, 1, 2].foldlM (formatInode i) (tmpBlock, nextFree)
    if (← blockWrite i tmpBlock) ≠ 512 then return .inr none
    return .inl (i + 1, tmpBlock, nextFree)

/-! ## The free space index -/

/-- `slots_per_block` -/
def slotsPerBlock : UInt64 := 63

/-- `first_free_block` -/
def firstFreeBlock (superblock : Superblock) : UInt64 :=
  let freeBlocks := superblock.blocks - superblock.freeBlocksHead
  superblock.freeBlocksHead + freeBlocks - freeBlocks * slotsPerBlock / (slotsPerBlock + 1)

/-- The variables of the loop over the free blocks. -/
structure IndexCursor where
  i : UInt64
  curIndexBlock : UInt64
  curIndexBlockPos : UInt64
  freeIndex : Block

/-- `if (cur_index_block_pos == BLOCK_SIZE / sizeof(uint64_t))`: the next index block. -/
def IndexCursor.advance (c : IndexCursor) : IndexCursor :=
  if c.curIndexBlockPos = 64 then
    { c with curIndexBlock := c.curIndexBlock + 1, curIndexBlockPos := 0 }
  else c

/-- `if (cur_index_block_pos == 0)`: the pointer to the next index block. -/
def IndexCursor.link (c : IndexCursor) (firstFreeBlock : UInt64) : IndexCursor :=
  if c.curIndexBlockPos = 0 then
    let next := if c.curIndexBlock < firstFreeBlock - 1 then c.curIndexBlock + 1 else 0
    { c with freeIndex := Block.setWord c.freeIndex 0 next, curIndexBlockPos := 1 }
  else c

/-- `free_index[cur_index_block_pos++] = i` -/
def IndexCursor.put (c : IndexCursor) : IndexCursor :=
  { c with
    freeIndex := Block.setWord c.freeIndex c.curIndexBlockPos.toNat c.i
    curIndexBlockPos := c.curIndexBlockPos + 1 }

/-- One iteration of the loop over the free blocks.  It ends with `cur_index_block`. -/
def freeIndexStep (blocks firstFreeBlock : UInt64) (c : IndexCursor) :
    Fs F (IndexCursor ⊕ Option UInt64) := do
  if ¬ c.i < blocks then return .inr (some c.curIndexBlock)
  let c := c.advance
  Run.assert (c.curIndexBlock < firstFreeBlock)
  let c := (c.link firstFreeBlock).put
  if c.curIndexBlockPos = 64 then
    -- flush here and advance at the next loop
    if (← blockWrite c.curIndexBlock c.freeIndex) ≠ 512 then return .inr none
    return .inl { c with i := c.i + 1 }
  return .inl { c with i := c.i + 1 }

/-- `fstat(disk, &st)`: `st_size / BLOCK_SIZE`, or `none` for -1. -/
def diskBlocks : Fs F (Option UInt64) := do
  let fault ← nextFault
  let fs ← get
  return if fault = .error then none else some (UInt64.ofNat (fs.disk.size / 512))

/-- `format_fs` -/
def formatFs : Fs F ℤ := do
  let some blocks ← diskBlocks | return -1
  if blocks < 3 then return -1
  let superblock := superblockFor blocks (← time)
  modify fun fs => { fs with superblock := superblock }
  let some tmpBlock ← Run.loop (formatTableStep superblock.inodeTableBlocks) loopBound
    (1, Block.zero, 3) | return -1
  let some curIndexBlock ← Run.loop
    (freeIndexStep superblock.blocks (firstFreeBlock superblock)) loopBound
    { i := firstFreeBlock superblock
      curIndexBlock := superblock.freeBlocksHead
      curIndexBlockPos := 0
      freeIndex := tmpBlock } | return -1
  -- this assertion makes sure we don't somehow leak blocks
  Run.assert (curIndexBlock = firstFreeBlock superblock - 1)
  if (← syncSuperblock) ≠ 0 then return -1
  return 0

/-! ## Opening and closing -/

/-- `sfs_fs_open_disk`: whether it returns a filesystem.  What `maybe_format` decides is
a log message; an unformatted disk is formatted in any case.  The last log message is left
out: it has `asctime(localtime(&create_time))` of the block that was read, and that crashes
if `create_time` is no time that `localtime` can convert. -/
def sfsFsOpenDisk (_maybeFormat : Bool) : Fs F Bool := do
  if ¬ (← malloc) then return false
  modify fun fs => { fs with inodeCache := { fs.inodeCache with blockNumber := 0 } }
  let (ret, superblockData) ← blockRead 0 Block.zero
  if ret ≠ 512 then return false
  if superblockData.superblock.signature = sfsFileTypeSignature then
    modify fun fs => { fs with superblock := superblockData.superblock }
    return true
  return (← formatFs) = 0

/-- `sfs_fs_close` -/
def sfsFsClose : Fs F ℤ := do
  if (← writeBack) ≠ 0 then return -1
  let _ ← syncSuperblock
  return 0

end SimpleFileSystem
