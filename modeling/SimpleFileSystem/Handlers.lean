import SimpleFileSystem.Dir
import SimpleFileSystem.FileDescriptor
import Mathlib.Data.List.DropRight

/-!
# `sfs.c`: the requests on names and handles

A request takes the mutex, does its work and gives the mutex back before each of its
`return`s, by hand.  The definitions here keep every one of them: where the code returns
without an `unlock`, so do they.

The requests on names begin alike: the path must be a name of the root directory, and
then the entries of the root are gone through until one has that name.  `splitPath` and
`search` are these.  A directory entry is a pointer into the block of the iterator, and
`sfs_getattr` follows it after the iterator has been freed.

`fi` gives a request the flags and the handle number, and takes the handle number of an
open file; a `struct stat` is what `sfs_fs_inode_to_stat` puts there.  A path is a C
string.
-/

namespace SimpleFileSystem

variable {F : Type}

/-! ## `errno` -/

def enoent : ℤ := 2
def enomem : ℤ := 12
def eacces : ℤ := 13
def eexist : ℤ := 17
def enotdir : ℤ := 20
def enametoolong : ℤ := 36
def edquot : ℤ := 122

/-! ## Paths -/

/-- `'/'` -/
def slash : UInt8 := 47

/-- `"."` -/
def dot : CString := [46]

/-- `dirname`.  A path of exactly two slashes is kept, as is one that leads there. -/
def dirname (path : CString) : CString :=
  let p := path.rdropWhile (· = slash)
  let dir := if p = [] then path else p.rdropWhile (· ≠ slash)
  let d := dir.rdropWhile (· = slash)
  if dir = [] then dot
  else if d ≠ [] then d
  else if dir.length = 2 then [slash, slash] else [slash]

/-- `basename` of `libgen.h`. -/
def basename (path : CString) : CString :=
  let p := path.rdropWhile (· = slash)
  if path = [] then dot
  else if p = [] then [slash]
  else p.rtakeWhile (· ≠ slash)

/-- `strsep(&rest, "/")`: the token, and `rest` afterwards. -/
def strsep : Option CString → Option CString × Option CString
  | none => (none, none)
  | some s =>
    (some (s.takeWhile (· ≠ slash)),
      if slash ∈ s then some ((s.dropWhile (· ≠ slash)).drop 1) else none)

/-- `PATH_MAX` -/
def pathMax : ℕ := 4096

/-- What the requests on names do first: the name, or what they return. -/
def splitPath (path : CString) : Fs F (ℤ ⊕ CString) := do
  -- `strdup`; `dirname(NULL)` is not the root either
  if ¬ (← malloc) then return .inl (-enoent)
  if dirname path ≠ [slash] then return .inl (-enoent)
  let name := basename (path.take pathMax)
  if 255 < name.length then return .inl (-enametoolong)
  return .inr name

/-! ## Entries by name -/

/-- How a search ends. -/
inductive Search where
  /-- The iterator is `NULL`; the directory has this inode. -/
  | stop (directory : Inode)
  /-- The entry `j` of the iterator's block has the name. -/
  | found (it : DirIterator) (j : ℕ)

/-- One iteration of the search for a name. -/
def searchStep (L : InodeLayer F) (name : CString) (it : DirIterator) :
    Fs F (DirIterator ⊕ Search) := do
  match ← sfsDirIternext L false it with
  | .stop directory => return .inr (.stop directory)
  | .entry it j _ =>
    if strncmp256 (Block.dirEntry it.cachedBlock j).name name then return .inr (.found it j)
    return .inl it

/-- `while ((iter = sfs_dir_iternext(iter, &direntry, NULL)) != NULL)`, up to the entry
with the name. -/
def search (L : InodeLayer F) (name : CString) (it : DirIterator) : Fs F Search :=
  Run.loop (searchStep L name) loopBound it

/-- `up the link count`: the inode afterwards, `none` if it could not be read or
written. -/
def addLink (inumber : UInt64) : Fs F (Option Inode) := do
  let some file ← sfsFsReadInode inumber | return none
  let file := { file with links := file.links + 1, changeTime := ← time }
  if (← sfsFsWriteInode file) ≠ 0 then return none
  return some file

/-! ## `sfs_getattr` -/

/-- `struct stat`. -/
structure Stat where
  ino : UInt64
  mode : UInt32
  nlink : UInt32
  uid : UInt32
  gid : UInt32
  atime : UInt64
  mtime : UInt64
  ctime : UInt64
  size : UInt64

/-- `sfs_fs_inode_to_stat` -/
def sfsFsInodeToStat (inode : Inode) : Stat where
  ino := inode.inumber
  mode := inode.mode
  nlink := inode.links
  uid := inode.uid
  gid := inode.gid
  atime := inode.accessTime
  mtime := inode.modifiedTime
  ctime := inode.changeTime
  size := inode.size

/-- `sfs_getattr`: the return value and `statbuf`. -/
def sfsGetattr (L : InodeLayer F) (path : CString) : Sfs F (ℤ × Option Stat) := do
  lock
  match ← onFs (splitPath path) with
  | .inl ret =>
    unlock
    return (ret, none)
  | .inr name =>
    let some directory ← onFs sfsDirRoot |
      unlock
      return (-enoent, none)
    if path = [slash] then
      unlock
      return (0, some (sfsFsInodeToStat directory))
    let some it ← onFs (sfsDirIterate directory) |
      unlock
      return (-1, none)
    match ← onFs (search L name it) with
    | .found it j =>
      -- `direntry` points into memory that `sfs_dir_iterclose` frees
      let block ← onFs (sfsDirIterclose it)
      let some file ← onFs (sfsFsReadInode (Block.dirEntry block j).inumber) |
        unlock
        return (-1, none)
      unlock
      return (0, some (sfsFsInodeToStat file))
    | .stop _ =>
      unlock
      return (-enoent, none)

/-! ## `sfs_create`, `sfs_unlink`, `sfs_open`, `sfs_release` -/

/-- `fuse_get_context()`. -/
structure FuseContext where
  uid : UInt32
  gid : UInt32
  umask : UInt32

/-- `O_EXCL` -/
def oExcl : UInt64 := 0o200

/-- `S_IFREG` -/
def sIfreg : UInt32 := 0o100000

/-- `S_ISGID` -/
def sIsgid : UInt32 := 0o2000

/-- Open a handle: the return value of the request and `fi->fh`. -/
def openHandle (inumber flags : UInt64) : Sfs F (ℤ × Option UInt64) := do
  let some fd ← sfsFiledescriptorAllocate |
    unlock
    return (-enomem, none)
  setFdInumber fd inumber
  setFdFlags fd flags
  let s ← get
  unlock
  return (0, some (ofCInt (s.fdPool.slot fd).fd))

/-- The fields that `sfs_create` assigns to an inode that it has allocated. -/
def newFile (context : FuseContext) (mode : UInt32) (directory file : Inode) : Fs F Inode := do
  return { file with
    mode := 0o7777 &&& mode &&& ~~~ context.umask ||| sIfreg
    uid := context.uid
    gid := if directory.mode &&& sIsgid ≠ 0 then file.gid else context.gid
    links := 1
    accessTime := ← time
    modifiedTime := ← time
    changeTime := ← time
    size := 0
    blockPointers := fun _ => 0 }

/-- `sfs_create`: the return value and `fi->fh`. -/
def sfsCreate (L : InodeLayer F) (context : FuseContext) (path : CString) (mode : UInt32)
    (flags : UInt64) : Sfs F (ℤ × Option UInt64) := do
  lock
  match ← onFs (splitPath path) with
  | .inl ret =>
    unlock
    return (ret, none)
  | .inr name =>
    let some directory ← onFs sfsDirRoot |
      unlock
      return (-enoent, none)
    let some it ← onFs (sfsDirIterate directory) |
      unlock
      return (-1, none)
    match ← onFs (search L name it) with
    | .found it j =>
      let foundInumber := (Block.dirEntry it.cachedBlock j).inumber
      let _ ← onFs (sfsDirIterclose it)
      if flags &&& oExcl ≠ 0 then
        unlock
        return (-eexist, none)
      let some _ ← onFs (addLink foundInumber) |
        unlock
        return (-1, none)
      openHandle foundInumber flags
    | .stop directory =>
      let some file ← onFs L.allocate |
        unlock
        return (-edquot, none)
      let file ← onFs (newFile context mode directory file)
      if (← onFs (sfsFsWriteInode file)) ≠ 0 then
        unlock
        return (-1, none)
      let (ret, _, _) ← onFs (sfsDirLink L directory name file)
      if ret ≠ 0 then
        unlock
        return (-1, none)
      openHandle file.inumber flags

/-- `sfs_unlink` -/
def sfsUnlink (L : InodeLayer F) (path : CString) : Sfs F ℤ := do
  lock
  match ← onFs (splitPath path) with
  | .inl ret =>
    unlock
    return ret
  | .inr name =>
    let some directory ← onFs sfsDirRoot |
      unlock
      return -enoent
    if path = [slash] then
      unlock
      return -eacces
    let some it ← onFs (sfsDirIterate directory) |
      unlock
      return -1
    match ← onFs (search L name it) with
    | .found it j =>
      let (ret, it) ← onFs (sfsDirIterUnlink L it j)
      if ret ≠ 0 then
        unlock
        return -1
      let _ ← onFs (sfsDirIterclose it)
      unlock
      return 0
    | .stop _ =>
      unlock
      return -enoent

/-- `sfs_open`: the return value and `fi->fh`. -/
def sfsOpen (L : InodeLayer F) (path : CString) (flags : UInt64) :
    Sfs F (ℤ × Option UInt64) := do
  lock
  match ← onFs (splitPath path) with
  | .inl ret =>
    unlock
    return (ret, none)
  | .inr name =>
    let some directory ← onFs sfsDirRoot |
      unlock
      return (-enoent, none)
    let some it ← onFs (sfsDirIterate directory) |
      unlock
      return (-1, none)
    match ← onFs (search L name it) with
    | .found it j =>
      let foundInumber := (Block.dirEntry it.cachedBlock j).inumber
      let _ ← onFs (sfsDirIterclose it)
      let some file ← onFs (addLink foundInumber) |
        unlock
        return (-1, none)
      openHandle file.inumber flags
    | .stop _ =>
      unlock
      return (-enoent, none)

/-- `sfs_release` of the handle number `fi->fh`. -/
def sfsRelease (L : InodeLayer F) (fh : UInt64) : Sfs F ℤ := do
  lock
  let some fd ← sfsFiledescriptorGetFromFd (toCInt fh) |
    unlock
    return -1
  let s ← get
  let some inode ← onFs (sfsFsReadInode (s.fdPool.slot fd).inumber) |
    unlock
    return -1
  Run.assert (0 < inode.links)
  let inode := { inode with links := inode.links - 1, changeTime := ← onFs time }
  if inode.links = 0 then
    if (← onFs (L.deallocate inode)) ≠ 0 then
      unlock
      return -1
  else
    if (← onFs (sfsFsWriteInode inode)) ≠ 0 then
      unlock
      return -1
  sfsFiledescriptorFree fd
  unlock
  return 0

/-! ## `sfs_opendir`, `sfs_readdir`, `sfs_releasedir` -/

/-- `S_ISDIR` -/
def sIsdir (mode : UInt32) : Bool :=
  mode &&& 0o170000 = sIfdir

/-- How the walk of `sfs_opendir` ends. -/
inductive Walk where
  | opened (directory : Inode)
  | failed
  | notDirectory

/-- One iteration of the loop of `sfs_opendir`: `tok`, `path_tok` and the iterator. -/
def opendirStep (L : InodeLayer F) :
    CString × Option CString × DirIterator →
      Fs F ((CString × Option CString × DirIterator) ⊕ Walk)
  | (tok, pathTok, it) => do
    match ← sfsDirIternext L true it with
    | .stop directory => return .inr (.opened directory)
    | .entry it j entry =>
      let direntry := Block.dirEntry it.cachedBlock j
      if cString direntry.name ≠ tok then return .inl (tok, pathTok, it)
      let _ ← sfsDirIterclose it
      match strsep pathTok with
      | (none, _) =>
        if ¬ sIsdir entry.mode then return .inr .notDirectory
        let some directory ← addLink direntry.inumber | return .inr .failed
        return .inr (.opened directory)
      | (some tok, pathTok) =>
        -- `sfs_dir_iternext` asserts that its iterator is not `NULL`
        let some it ← sfsDirIterate entry | Run.halt .assertion
        return .inl (tok, pathTok, it)

/-- The loop of `sfs_opendir`, from the root directory. -/
def opendirWalk (L : InodeLayer F) (directory : Inode) (tok : CString)
    (pathTok : Option CString) : Fs F Walk := do
  let some it ← sfsDirIterate directory | Run.halt .assertion
  Run.loop (opendirStep L) loopBound (tok, pathTok, it)

/-- `sfs_opendir`: the return value and `fi->fh`. -/
def sfsOpendir (L : InodeLayer F) (path : CString) (flags : UInt64) :
    Sfs F (ℤ × Option UInt64) := do
  lock
  if path ≠ [slash] then return (-enoent, none)
  let some directory ← onFs sfsDirRoot |
    unlock
    return (-enoent, none)
  let (tok, pathTok) := strsep (some path)
  -- check that the path starts with "/"
  if tok ≠ some [] then return (-1, none)
  match ← onFs (opendirWalk L directory [] pathTok) with
  | .opened directory => openHandle directory.inumber flags
  | .failed =>
    unlock
    return (-1, none)
  | .notDirectory => return (-enotdir, none)

/-- A call of the filler of `sfs_readdir`: the name, and the `struct stat` unless it is
`NULL`. -/
abbrev FillerCall := CString × Option Stat

/-- One iteration of the loop of `sfs_readdir`; `filler` says whether the last of the
calls so far reported that the buffer is full. -/
def readdirStep (L : InodeLayer F) (filler : List FillerCall → Bool) :
    DirIterator × List FillerCall → Fs F ((DirIterator × List FillerCall) ⊕ List FillerCall)
  | (it, calls) => do
    match ← sfsDirIternext L true it with
    | .stop _ => return .inr calls
    | .entry it j inode =>
      let calls := calls ++
        [(cString (Block.dirEntry it.cachedBlock j).name, some (sfsFsInodeToStat inode))]
      if filler calls then return .inr calls
      return .inl (it, calls)

/-- `sfs_readdir`: the return value and the calls of the filler. -/
def sfsReaddir (L : InodeLayer F) (filler : List FillerCall → Bool) (path : CString) :
    Sfs F (ℤ × List FillerCall) := do
  lock
  if path ≠ [slash] then
    unlock
    return (-1, [])
  let some inode ← onFs sfsDirRoot |
    unlock
    return (-1, [])
  let calls := [(dot, none)]
  if filler calls then
    unlock
    return (0, calls)
  let calls := calls ++ [(dot ++ dot, none)]
  if filler calls then
    unlock
    return (0, calls)
  -- `sfs_dir_iternext` asserts that its iterator is not `NULL`
  let some it ← onFs (sfsDirIterate inode) | Run.halt .assertion
  let calls ← onFs (Run.loop (readdirStep L filler) loopBound (it, calls))
  unlock
  return (0, calls)

/-- `sfs_releasedir` of the handle number `fi->fh`. -/
def sfsReleasedir (fh : UInt64) : Sfs F ℤ := do
  lock
  let some fd ← sfsFiledescriptorGetFromFd (toCInt fh) |
    unlock
    return -1
  let s ← get
  let some inode ← onFs (sfsFsReadInode (s.fdPool.slot fd).inumber) |
    unlock
    return -1
  let inode := { inode with links := inode.links - 1, changeTime := ← onFs time }
  if (← onFs (sfsFsWriteInode inode)) ≠ 0 then
    unlock
    return -1
  sfsFiledescriptorFree fd
  unlock
  return 0

end SimpleFileSystem
