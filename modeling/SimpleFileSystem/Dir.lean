import SimpleFileSystem.Fs

/-!
# `dir.c`: the root directory

A directory is a file whose blocks are arrays of `struct sfs_dir_entry`, of which one
fits into a block.  Its functions work on any layer of logical blocks: `InodeLayer` is
the part of `fs.c` that they and the handlers reach the blocks of files through, and
`fsLayer` is `fs.c` itself.  Inodes are read and written by `fs.c` in either case.

An iterator holds a pointer to the caller's inode of the directory and changes it; here
it holds the inode, and what ends an iteration hands it back.  Names are C strings: the
bytes before the first zero.
-/

namespace SimpleFileSystem

variable {F : Type}

/-! ## The layer below -/

/-- How the logical blocks of files are reached. -/
structure InodeLayer (F : Type) where
  /-- `sfs_fs_inode_allocate` -/
  allocate : Fs F (Option Inode)
  /-- `sfs_fs_inode_deallocate` -/
  deallocate : Inode → Fs F ℤ
  /-- `sfs_fs_inode_block_read` -/
  blockRead : Inode → UInt64 → Block → Fs F (ℤ × Block)
  /-- `sfs_fs_inode_block_write` -/
  blockWrite : Inode → UInt64 → Block → Fs F (ℤ × Inode)

/-- `fs.c`. -/
def fsLayer : InodeLayer F where
  allocate := sfsFsInodeAllocate
  deallocate := sfsFsInodeDeallocate
  blockRead := sfsFsInodeBlockRead
  blockWrite := sfsFsInodeBlockWrite

/-! ## Names -/

/-- A C string without its terminating zero. -/
abbrev CString := List UInt8

/-- The C string at the front of an array. -/
def cString (name : Fin 256 → UInt8) : CString :=
  (List.ofFn name).takeWhile (· ≠ 0)

/-- What `strncpy(dst, name, 256)` leaves in `dst`. -/
def strncpy256 (name : CString) : Fin 256 → UInt8 :=
  fun i => name.getD i 0

/-- `strncmp(entry, name, 256) == 0`. -/
def strncmp256 (entry : Fin 256 → UInt8) (name : CString) : Bool :=
  cString entry == name.take 256

/-! ## Iteration -/

/-- `struct dir_iterator` -/
structure DirIterator where
  inode : Inode
  iblock : UInt64
  entry : UInt64
  cachedBlock : Block

/-- `sfs_dir_root`: `none` for -1. -/
def sfsDirRoot : Fs F (Option Inode) :=
  sfsFsReadInode 1

/-- `sfs_dir_iterate`: `none` for `NULL`.  The block of a new iterator is read before it
is used. -/
def sfsDirIterate (inode : Inode) : Fs F (Option DirIterator) := do
  Run.assert (inode.mode &&& sIfdir ≠ 0)
  if ¬ (← malloc) then return none
  return some { inode := inode, iblock := 0, entry := 0, cachedBlock := Block.zero }

/-- What `sfs_dir_iternext` returns. -/
inductive IterNext where
  /-- `NULL`: the iterator has been freed, and the directory has this inode. -/
  | stop (directory : Inode)
  /-- The iterator, the place of `direntry` in its block, and the inode that the entry
  names, or zeros if it was not asked for. -/
  | entry (it : DirIterator) (j : ℕ) (inode : Inode)

/-- The first entry of a block from `from` on that is in use. -/
def findEntry (block : Block) (start : ℕ) : Option ℕ :=
  (List.range' start (entriesPerBlock.toNat - start)).find? fun j =>
    (Block.dirEntry block j).inumber ≠ 0

/-- `end:` of `sfs_dir_iternext`. -/
def iterEnd (it : DirIterator) : Fs F (DirIterator ⊕ IterNext) := do
  let _ ← free it.cachedBlock
  return .inr (.stop it.inode)

/-- One iteration of the outer loop of `sfs_dir_iternext`. -/
def iternextStep (L : InodeLayer F) (wantInode : Bool) (it : DirIterator) :
    Fs F (DirIterator ⊕ IterNext) := do
  if it.iblock * 512 ≥ it.inode.size then return ← iterEnd it
  let mut it := it
  if it.entry = 0 then
    let (ret, block) ← L.blockRead it.inode it.iblock it.cachedBlock
    it := { it with cachedBlock := block }
    if ret ≠ 0 then return ← iterEnd it
    it := { it with inode := { it.inode with accessTime := ← time } }
    if (← sfsFsWriteInode it.inode) ≠ 0 then return ← iterEnd it
  match findEntry it.cachedBlock it.entry.toNat with
  | some j =>
    if wantInode then
      match ← sfsFsReadInode (Block.dirEntry it.cachedBlock j).inumber with
      | none => return ← iterEnd it
      | some inode =>
        return .inr (.entry { it with entry := UInt64.ofNat (j + 1) } j inode)
    return .inr (.entry { it with entry := UInt64.ofNat (j + 1) } j Inode.zero)
  | none => return .inl { it with iblock := it.iblock + 1, entry := 0 }

/-- `sfs_dir_iternext`; `wantInode` says whether its last argument is not `NULL`. -/
def sfsDirIternext (L : InodeLayer F) (wantInode : Bool) (it : DirIterator) : Fs F IterNext :=
  Run.loop (iternextStep L wantInode) loopBound it

/-- `sfs_dir_iterclose`: what the iterator's block holds once its memory is freed. -/
def sfsDirIterclose (it : DirIterator) : Fs F Block :=
  free it.cachedBlock

/-- `sfs_dir_iter_unlink` of the entry `j` of the iterator's block. -/
def sfsDirIterUnlink (L : InodeLayer F) (it : DirIterator) (j : ℕ) : Fs F (ℤ × DirIterator) := do
  let some inode ← sfsFsReadInode (Block.dirEntry it.cachedBlock j).inumber | return (-1, it)
  let inode := { inode with links := inode.links - 1, changeTime := ← time }
  if inode.links = 0 then
    if (← L.deallocate inode) ≠ 0 then return (-1, it)
  else
    if (← sfsFsWriteInode inode) ≠ 0 then return (-1, it)
  let it := { it with
    cachedBlock := Block.setDirInumber it.cachedBlock j 0
    inode := { it.inode with modifiedTime := ← time } }
  if (← sfsFsWriteInode it.inode) ≠ 0 then return (-1, it)
  let (ret, directory) ← L.blockWrite it.inode it.iblock it.cachedBlock
  return (if ret ≠ 0 then -1 else 0, { it with inode := directory })

/-! ## Linking -/

/-- The first unused entry of a block. -/
def findUnused (block : Block) : Option ℕ :=
  (List.range entriesPerBlock.toNat).find? fun j => (Block.dirEntry block j).inumber = 0

/-- One iteration of the search of `sfs_dir_link` for an unused entry, at block `i`; what
follows the search is the iteration after the last block. -/
def dirLinkStep (L : InodeLayer F) (name : CString) (inode : Inode) (directory : Inode)
    (i : UInt64) : Fs F (UInt64 ⊕ (ℤ × Inode × Inode)) := do
  if i < directory.size / 512 then
    let (ret, block) ← L.blockRead directory i Block.zero
    if ret ≠ 0 then return .inr (-1, directory, inode)
    match findUnused block with
    | some j =>
      let block := Block.setDirEntry block j ⟨inode.inumber, strncpy256 name⟩
      let (ret, directory) ← L.blockWrite directory i block
      if ret ≠ 0 then return .inr (-1, directory, inode)
      let now ← time
      let inode := { inode with links := inode.links + 1, changeTime := now }
      let directory := { directory with modifiedTime := now }
      if (← sfsFsWriteInode directory) ≠ 0 then return .inr (-1, directory, inode)
      if (← sfsFsWriteInode inode) ≠ 0 then return .inr (-1, directory, inode)
      return .inr (0, directory, inode)
    | none => return .inl (i + 1)
  else
    let block := Block.setDirEntry Block.zero 0 ⟨inode.inumber, strncpy256 name⟩
    let (ret, directory) ← L.blockWrite directory (directory.size / 512) block
    if ret ≠ 0 then return .inr (-1, directory, inode)
    let directory := { directory with size := directory.size + 512, modifiedTime := ← time }
    if (← sfsFsWriteInode directory) ≠ 0 then return .inr (-1, directory, inode)
    let inode := { inode with links := inode.links + 1, changeTime := ← time }
    if (← sfsFsWriteInode inode) ≠ 0 then return .inr (-1, directory, inode)
    return .inr (0, directory, inode)

/-- `sfs_dir_link`: the return value, the inode of the directory, the inode. -/
def sfsDirLink (L : InodeLayer F) (directory : Inode) (name : CString) (inode : Inode) :
    Fs F (ℤ × Inode × Inode) := do
  if 255 < name.length then return (-1, directory, inode)
  Run.loop (dirLinkStep L name inode directory) loopBound 0

end SimpleFileSystem
