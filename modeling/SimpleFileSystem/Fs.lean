import SimpleFileSystem.Machine

/-!
# `fs.c`: superblock, inode cache, free lists, logical blocks

The functions of `fs.c` that work on an open filesystem, in dependency order.  A
function that returns 0 or -1 returns that `int`; one that returns 0 and fills an
output argument returns an `Option`, `none` for -1.  `inode` arguments that the code
changes through a pointer are returned along with the result, on every path, because
the caller's copy keeps the change when the call fails.

Local buffers that the code leaves uninitialised and fills before it reads them start
out as zeros here.
-/

open ByteCodec

namespace SimpleFileSystem

variable {F : Type}

/-! ## The superblock -/

/-- `write_superblock` -/
def writeSuperblock (superblock : Superblock) : Fs F ℤ := do
  if (← blockWrite 0 (Block.zero.setSuperblock superblock)) ≠ 512 then return -1
  return 0

/-- `fs->superblock.free_blocks_head = n` -/
def setFreeBlocksHead (n : UInt64) : Fs F Unit :=
  modify fun fs => { fs with superblock := { fs.superblock with freeBlocksHead := n } }

/-- `fs->superblock.free_inode_head = k` -/
def setFreeInodeHead (k : UInt64) : Fs F Unit :=
  modify fun fs => { fs with superblock := { fs.superblock with freeInodeHead := k } }

/-- `write_superblock(fs->disk, &fs->superblock)` -/
def syncSuperblock : Fs F ℤ := do
  let fs ← get
  writeSuperblock fs.superblock

/-! ## The inode cache -/

/-- `superblock is the first block, inodes start at block index 1` -/
def inodeBlock (inumber : UInt64) : UInt64 :=
  (inumber - 1) / inodesPerBlock + 1

/-- `position_in_block` -/
def inodeSlot (inumber : UInt64) : ℕ :=
  ((inumber - 1) % inodesPerBlock).toNat

/-- Write the cached block back if it is dirty. -/
def writeBack : Fs F ℤ := do
  let fs ← get
  if fs.inodeCache.dirty then
    let ret ← blockWrite (ofCInt fs.inodeCache.blockNumber) fs.inodeCache.data
    return if ret ≠ 512 then -1 else 0
  else return 0

/-- What `sfs_fs_read_inode` and `sfs_fs_write_inode` do before they touch the cached
block.  Only the former clears the dirty flag on a miss. -/
def cacheInodeBlock (clearDirty : Bool) (blockNumber : UInt64) : Fs F ℤ := do
  let fs ← get
  if ofCInt fs.inodeCache.blockNumber = blockNumber then return 0
  if (← writeBack) ≠ 0 then return -1
  modify fun fs => { fs with inodeCache := { fs.inodeCache with
    blockNumber := toCInt blockNumber
    dirty := if clearDirty then false else fs.inodeCache.dirty } }
  let fs ← get
  let (ret, data) ← blockRead blockNumber fs.inodeCache.data
  modify fun fs => { fs with inodeCache := { fs.inodeCache with data := data } }
  return if ret ≠ 512 then -1 else 0

/-- `sfs_fs_read_inode` -/
def sfsFsReadInode (inumber : UInt64) : Fs F (Option Inode) := do
  Run.assert (0 < inumber)
  if (← cacheInodeBlock true (inodeBlock inumber)) ≠ 0 then return none
  let fs ← get
  return some (Block.inode fs.inodeCache.data (inodeSlot inumber))

/-- `sfs_fs_write_inode` -/
def sfsFsWriteInode (inode : Inode) : Fs F ℤ := do
  Run.assert (0 < inode.inumber)
  if (← cacheInodeBlock false (inodeBlock inode.inumber)) ≠ 0 then return -1
  modify fun fs => { fs with inodeCache := { fs.inodeCache with
    dirty := true
    data := Block.setInode fs.inodeCache.data (inodeSlot inode.inumber) inode } }
  return 0

/-! ## The free block list -/

/-- The first of the slots `1 .. 63` of an index node that satisfies `p`. -/
def findSlot (p : UInt64 → Bool) (index : Block) : Option ℕ :=
  (List.range' 1 63).find? fun i => p (Block.word index i)

/-- `sfs_fs_allocate_block` -/
def sfsFsAllocateBlock : Fs F (Option UInt64) := do
  let fs ← get
  let node := fs.superblock.freeBlocksHead
  if node = 0 then return none
  let (ret, index) ← blockRead node Block.zero
  if ret ≠ 512 then return none
  match findSlot (· ≠ 0) index with
  | some i =>
    -- write the zeroed slot to the index
    if (← blockWrite node (Block.setWord index i 0)) ≠ 512 then return none
    return some (Block.word index i)
  | none =>
    -- no free block in this node, so the node itself is handed out
    setFreeBlocksHead (Block.word index 0)
    if (← syncSuperblock) ≠ 0 then return none
    return some node

/-- One iteration of the search of `sfs_fs_free_block`, at `node`, which `prevNode`
points to and whose predecessor's contents are `index`; what follows the search is the
iteration that finds no node. -/
def freeBlockStep (blockNumber : UInt64) :
    UInt64 × UInt64 × Block → Fs F ((UInt64 × UInt64 × Block) ⊕ ℤ)
  | (node, prevNode, index) => do
    if node = 0 then
      -- add `blockNumber` as a node at the end of the list
      if (← blockWrite prevNode (Block.setWord index 0 blockNumber)) ≠ 512 then
        return .inr (-1)
      if (← blockWrite blockNumber Block.zero) ≠ 512 then return .inr (-1)
      return .inr 0
    let (ret, index) ← blockRead node index
    if ret ≠ 512 then return .inr (-1)
    match findSlot (· = 0) index with
    | some i =>
      if (← blockWrite node (Block.setWord index i blockNumber)) ≠ 512 then
        return .inr (-1)
      return .inr 0
    | none => return .inl (Block.word index 0, node, index)

/-- `sfs_fs_free_block` -/
def sfsFsFreeBlock (blockNumber : UInt64) : Fs F ℤ := do
  let fs ← get
  if fs.superblock.freeBlocksHead = 0 then
    -- case where there are no other nodes
    if (← blockWrite blockNumber Block.zero) ≠ 512 then return -1
    setFreeBlocksHead blockNumber
    if (← syncSuperblock) ≠ 0 then return -1
    return 0
  Run.loop (freeBlockStep blockNumber) loopBound (fs.superblock.freeBlocksHead, 0, Block.zero)

/-! ## The free inode list -/

/-- `sfs_fs_inode_allocate` -/
def sfsFsInodeAllocate : Fs F (Option Inode) := do
  let fs ← get
  let inumber := fs.superblock.freeInodeHead
  if inumber = 0 then return none
  let some inode ← sfsFsReadInode inumber | return none
  -- the next pointer is hidden in the `size` member
  setFreeInodeHead inode.size
  if (← syncSuperblock) ≠ 0 then return none
  return some inode

/-- The loop of `sfs_fs_inode_deallocate` over the direct pointers. -/
def freePointers : List UInt64 → Fs F ℤ
  | [] => return 0
  | p :: ps => do
    if p = 0 then freePointers ps
    else
      if (← sfsFsFreeBlock p) ≠ 0 then return -1
      freePointers ps

/-- The twelve direct pointers of an inode. -/
def Inode.direct (v : Inode) : List UInt64 :=
  (List.range sfsNdirBlocks.toNat).map v.pointer

/-- `sfs_fs_inode_deallocate` -/
def sfsFsInodeDeallocate (inode : Inode) : Fs F ℤ := do
  let fs ← get
  let inode := { inode with size := fs.superblock.freeInodeHead }
  if (← sfsFsWriteInode inode) ≠ 0 then return -1
  setFreeInodeHead inode.inumber
  if (← syncSuperblock) ≠ 0 then return -1
  freePointers inode.direct

/-! ## Logical blocks -/

/-- `read_from_indirect` -/
def readFromIndirect (indirectBlockNumber index : UInt64) (createIfEmpty : Bool) :
    Fs F (Option UInt64) := do
  if indirectBlockNumber = 0 then return some 0
  let (ret, arr) ← blockRead indirectBlockNumber Block.zero
  if ret ≠ 512 then return none
  if createIfEmpty ∧ Block.word arr index.toNat = 0 then
    let some n ← sfsFsAllocateBlock | return none
    let arr := Block.setWord arr index.toNat n
    if (← blockWrite indirectBlockNumber arr) ≠ 512 then return none
    return some (Block.word arr index.toNat)
  return some (Block.word arr index.toNat)

/-- Whether a block number is one of a data block; `sfs_fs_inode_block_read` and
`sfs_fs_inode_block_write` refuse the others. -/
def Superblock.inRange (s : Superblock) (n : UInt64) : Bool :=
  s.inodeTableBlocks + 1 ≤ n && n < s.blocks

/-- The block number that `sfs_fs_inode_block_read` finds for a logical block. -/
def blockNumberForRead (inode : Inode) (iblock : UInt64) : Fs F (Option UInt64) :=
  if iblock < sfsNdirBlocks then return some (inode.pointer iblock.toNat)
  else if iblock < sfsNdirBlocks + sfsNindBlocks then
    readFromIndirect (inode.pointer sfsNdirBlocks.toNat) (iblock - sfsNdirBlocks) false
  else return none

/-- `sfs_fs_inode_block_read`: the return value and the bytes of `block`. -/
def sfsFsInodeBlockRead (inode : Inode) (iblock : UInt64) (block : Block) :
    Fs F (ℤ × Block) := do
  let some blockNumber ← blockNumberForRead inode iblock | return (-1, block)
  if blockNumber = 0 then return (0, Block.zero)
  let fs ← get
  if ¬ fs.superblock.inRange blockNumber then return (-1, block)
  let (ret, block) ← blockRead blockNumber block
  return (if ret ≠ 512 then -1 else 0, block)

/-- The direct branch of `sfs_fs_inode_block_write`: the inode and the block number. -/
def directForWrite (inode : Inode) (i : ℕ) : Fs F (Inode × Option UInt64) := do
  if inode.pointer i ≠ 0 then return (inode, some (inode.pointer i))
  let some n ← sfsFsAllocateBlock | return (inode, none)
  let inode := inode.setPointer i n
  if (← sfsFsWriteInode inode) ≠ 0 then return (inode, none)
  return (inode, some n)

/-- Give an inode an index block if it has none: the inode and 0 or -1. -/
def ensureIndirect (inode : Inode) : Fs F (Inode × ℤ) := do
  if inode.pointer sfsNdirBlocks.toNat ≠ 0 then return (inode, 0)
  let some n ← sfsFsAllocateBlock | return (inode, -1)
  let inode := { inode.setPointer sfsNdirBlocks.toNat n with changeTime := ← time }
  if (← sfsFsWriteInode inode) ≠ 0 then return (inode, -1)
  return (inode, 0)

/-- The block number that `sfs_fs_inode_block_write` finds or allocates. -/
def blockNumberForWrite (inode : Inode) (iblock : UInt64) :
    Fs F (Inode × Option UInt64) := do
  if iblock < sfsNdirBlocks then directForWrite inode iblock.toNat
  else if iblock < sfsNdirBlocks + sfsNindBlocks then
    let (inode, ret) ← ensureIndirect inode
    if ret ≠ 0 then return (inode, none)
    let n ← readFromIndirect (inode.pointer sfsNdirBlocks.toNat) (iblock - sfsNdirBlocks) true
    return (inode, n)
  else return (inode, none)

/-- `sfs_fs_inode_block_write`: the return value and the caller's inode. -/
def sfsFsInodeBlockWrite (inode : Inode) (iblock : UInt64) (block : Block) :
    Fs F (ℤ × Inode) := do
  let (inode, found) ← blockNumberForWrite inode iblock
  let some blockNumber := found | return (-1, inode)
  let fs ← get
  if ¬ fs.superblock.inRange blockNumber then return (-1, inode)
  let ret ← blockWrite blockNumber block
  return (if ret ≠ 512 then -1 else 0, inode)

/-- `sfs_fs_inode_block_remove` -/
def sfsFsInodeBlockRemove (inode : Inode) (iblock : UInt64) : Fs F ℤ := do
  if sfsNdirBlocks ≤ iblock then return -1
  if inode.pointer iblock.toNat = 0 then return 0
  if (← sfsFsFreeBlock (inode.pointer iblock.toNat)) ≠ 0 then return -1
  return 0

end SimpleFileSystem
