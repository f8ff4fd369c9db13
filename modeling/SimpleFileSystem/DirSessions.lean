import SimpleFileSystem.DirEntries

/-!
# Calls on a directory

A caller of the functions on directories has an inode of the directory, and at times an
iterator, which then has that inode (`DirCursor`).  `DirCall` lists the calls that it may
make, in any order: links also while it iterates, and a removal of each entry that an
iterator has returned.
-/

namespace SimpleFileSystem

/-- What a caller has in hand. -/
inductive DirCursor where
  /-- The inode of the directory, and no iterator. -/
  | closed (directory : Inode)
  | ready (it : DirIterator)
  /-- An iterator, and the entry `j` of its block, which it has returned. -/
  | returned (it : DirIterator) (j : ℕ)

namespace DirCursor

def iterator : DirCursor → Option DirIterator
  | closed _ => none
  | ready it => some it
  | returned it _ => some it

/-- The inode of the directory. -/
def directory : DirCursor → Inode
  | closed directory => directory
  | ready it => it.inode
  | returned it _ => it.inode

/-- With the inode of the directory changed: the iterator points to it. -/
def withDirectory (directory : Inode) : DirCursor → DirCursor
  | closed _ => closed directory
  | ready it => ready { it with inode := directory }
  | returned it j => returned { it with inode := directory } j

@[simp] theorem directory_withDirectory (directory : Inode) (c : DirCursor) :
    (c.withDirectory directory).directory = directory := by
  cases c <;> rfl

end DirCursor

/-- A call, with its answer. -/
inductive DirEvent where
  /-- `sfs_dir_iterate` or `sfs_dir_iterclose` -/
  | looked
  /-- `sfs_dir_iternext` returned an entry, and an inode if it was asked for one. -/
  | found (e : DirEntry) (wantInode : Bool) (inode : Inode)
  /-- `sfs_dir_iternext` returned `NULL`. -/
  | ended
  /-- `sfs_dir_iter_unlink` of the entry in block `i`. -/
  | unlinked (i : ℕ) (e : DirEntry) (ret : ℤ)
  | linked (e : DirEntry) (ret : ℤ)

/-- **The calls on the directory `d`.** -/
inductive DirCall (L : InodeLayer DirFiles) (d : UInt64) :
    Filesystem DirFiles × DirCursor → DirEvent → Filesystem DirFiles × DirCursor → Prop where
  | iterate {fs fs' : Filesystem DirFiles} {directory : Inode} {answer : Option DirIterator}
      (run : (sfsDirIterate directory).run fs = .done answer fs') :
      DirCall L d (fs, .closed directory) .looked
        (fs', (answer.map DirCursor.ready).getD (.closed directory))
  | close {fs fs' : Filesystem DirFiles} {c : DirCursor} {it : DirIterator} {block : Block}
      (iterator : c.iterator = some it) (run : (sfsDirIterclose it).run fs = .done block fs') :
      DirCall L d (fs, c) .looked (fs', .closed it.inode)
  | next {fs fs' : Filesystem DirFiles} {c : DirCursor} {it it' : DirIterator} {j : ℕ}
      {inode : Inode} (wantInode : Bool) (iterator : c.iterator = some it)
      (run : (sfsDirIternext L wantInode it).run fs = .done (.entry it' j inode) fs') :
      DirCall L d (fs, c) (.found (Block.dirEntry it'.cachedBlock j) wantInode inode)
        (fs', .returned it' j)
  | stop {fs fs' : Filesystem DirFiles} {c : DirCursor} {it : DirIterator} {directory : Inode}
      (wantInode : Bool) (iterator : c.iterator = some it)
      (run : (sfsDirIternext L wantInode it).run fs = .done (.stop directory) fs') :
      DirCall L d (fs, c) .ended (fs', .closed directory)
  | unlink {fs fs' : Filesystem DirFiles} {it it' : DirIterator} {j : ℕ} {ret : ℤ}
      (run : (sfsDirIterUnlink L it j).run fs = .done (ret, it') fs') :
      DirCall L d (fs, .returned it j)
        (.unlinked it.iblock.toNat (Block.dirEntry it.cachedBlock j) ret) (fs', .ready it')
  | link {fs fs' : Filesystem DirFiles} {c : DirCursor} {name : CString} {v v' directory : Inode}
      {ret : ℤ} (short : name.length ≤ 255) (valid : fs.superblock.ValidInumber v.inumber)
      (other : v.inumber ≠ d)
      (run : (sfsDirLink L c.directory name v).run fs = .done (ret, directory, v') fs') :
      DirCall L d (fs, c) (.linked (newEntry v.inumber name) ret) (fs', c.withDirectory directory)

/-! ## Where an iterator stands -/

/-- An iterator that has passed `n` slots. -/
def DirIterator.Placed (it : DirIterator) (n : ℕ) : Prop :=
  it.entry = 0 ∧ it.iblock.toNat = n ∨ it.entry = 1 ∧ it.iblock.toNat + 1 = n

/-- The caller's iterator is at a place of a directory with these slots. -/
def DirCursor.Placed (slots : List DirEntry) : DirCursor → Prop
  | .closed _ => True
  | .ready it => ∃ n ≤ slots.length, it.Placed n
  | .returned it j => j = 0 ∧ it.entry = 1 ∧
      slots[it.iblock.toNat]? = some (Block.dirEntry it.cachedBlock 0) ∧
      (Block.dirEntry it.cachedBlock 0).inumber ≠ 0

/-- **The caller has the directory with these slots in hand.** -/
structure DirCursor.Holds (c : DirCursor) (d : UInt64) (w : View)
    (slots : List DirEntry) : Prop where
  dir : Directory d w slots
  directory : c.directory = w.table d
  placed : c.Placed slots

namespace DirCursor.Holds

variable {c : DirCursor} {d : UInt64} {w : View} {slots : List DirEntry} {it : DirIterator}

/-- An iterator has a part of the slots ahead. -/
theorem ahead (h : c.Holds d w slots) (hit : c.iterator = some it) :
    ∃ passed ahead, slots = passed ++ ahead ∧ Ahead d w it passed ahead := by
  have hinode : it.inode = w.table d := by
    rw [← h.directory]
    cases c <;> cases hit <;> rfl
  have hplaced : ∃ n ≤ slots.length, it.Placed n := by
    have hplaced := h.placed
    cases c with
    | closed directory => cases hit
    | ready it' =>
      cases hit
      exact hplaced
    | returned it' j =>
      cases hit
      obtain ⟨-, hentry, hslot, -⟩ := hplaced
      exact ⟨it.iblock.toNat + 1, (List.getElem?_eq_some_iff.mp hslot).1, Or.inr ⟨hentry, rfl⟩⟩
  obtain ⟨n, hn, hplace⟩ := hplaced
  refine ⟨slots.take n, slots.drop n, (List.take_append_drop n slots).symm, ?_, hinode, ?_⟩
  · rw [List.take_append_drop]
    exact h.dir
  · rw [List.length_take, Nat.min_eq_left hn]
    exact hplace

end DirCursor.Holds

end SimpleFileSystem
