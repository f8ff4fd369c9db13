import SimpleFileSystem.FileDescriptor
import SimpleFileSystem.FreeChain
import SimpleFileSystem.Library.Execution
import Mathlib.Data.List.Range

/-!
# The pool of file descriptors

A slot is on the free list or it is handed out.  `FdPool.Handles` says so: the free list
visits some slots and ends, and they and the open handles are all slots there are, each
once.  The word by which a free slot points to the next is the word in which an open
handle keeps its inode number, so a client may write it exactly because its slot is not
on the list, which is `Linked.congr`.

What the pool is for is a table of open handles (`HandleStep`): an allocation opens one
that was not open, with any contents, and what is found at an open number is what was
last written there.  `handles_are_unique_and_stable` is that every sequence of calls on
the pool is one on such a table.
-/

namespace SimpleFileSystem

variable {F : Type}

/-! ## Slots by number -/

namespace FdPool

variable {pool : FdPool} {n m : ℕ} {s : Slot}

/-- The number of slots. -/
def capacity (pool : FdPool) : ℕ :=
  slotsPerSlab * pool.slabs.length

/-- The next pointer of the slot that a pointer points to. -/
def next (pool : FdPool) (p : UInt64) : UInt64 :=
  (pool.slot (target p)).inumber

theorem toNat_pointer (h : n < 2 ^ 31) : (pointer n).toNat = n + 1 :=
  UInt64.toNat_ofNat_of_lt' (by show n + 1 < 2 ^ 64; omega)

theorem pointer_ne_zero (h : n < 2 ^ 31) : pointer n ≠ 0 := by
  intro e
  have hnat := congrArg UInt64.toNat e
  rw [toNat_pointer h] at hnat
  exact absurd hnat (Nat.succ_ne_zero n)

theorem target_pointer (h : n < 2 ^ 31) : target (pointer n) = n := by
  rw [target, toNat_pointer h, Nat.add_sub_cancel]

theorem slabs_div_lt (h : n < pool.capacity) : n / slotsPerSlab < pool.slabs.length :=
  Nat.div_lt_of_lt_mul h

/-- **The slot for a number** is in the slab that the division finds. -/
theorem slot_eq (h : n < pool.capacity) :
    ∃ slab, pool.slabs[n / slotsPerSlab]? = some slab ∧ pool.slot n = slab (slotIndex n) := by
  refine ⟨_, List.getElem?_eq_getElem (slabs_div_lt h), ?_⟩
  rw [slot, List.getElem?_eq_getElem (slabs_div_lt h)]

@[simp] theorem capacity_setSlot : (pool.setSlot n s).capacity = pool.capacity := by
  rw [capacity, setSlot, List.length_modify, capacity]

@[simp] theorem freelist_setSlot : (pool.setSlot n s).freelist = pool.freelist := rfl

theorem slot_setSlot (h : n < pool.capacity) : (pool.setSlot n s).slot n = s := by
  obtain ⟨slab, hslab, -⟩ := slot_eq h
  rw [slot, setSlot, List.getElem?_modify, hslab]
  simp

theorem slot_setSlot_of_ne (h : m ≠ n) : (pool.setSlot n s).slot m = pool.slot m := by
  rw [slot, setSlot, List.getElem?_modify, slot]
  cases hslab : pool.slabs[m / slotsPerSlab]? with
  | none => rfl
  | some slab =>
    by_cases hdiv : n / slotsPerSlab = m / slotsPerSlab
    · have hindex : slotIndex m ≠ slotIndex n := by
        intro e
        have hmod : m % slotsPerSlab = n % slotsPerSlab := congrArg Fin.val e
        refine h ?_
        rw [← Nat.div_add_mod m slotsPerSlab, ← Nat.div_add_mod n slotsPerSlab, hdiv, hmod]
      simp [hdiv, Function.update_of_ne hindex]
    · simp [hdiv]

/-- The pool with one more slab, which is its free list. -/
def grown (pool : FdPool) : FdPool where
  slabs := pool.slabs ++ [newSlab pool.capacity]
  freelist := pointer pool.capacity

theorem capacity_grown : pool.grown.capacity = pool.capacity + slotsPerSlab := by
  rw [capacity, grown, List.length_append, List.length_singleton, Nat.mul_add, Nat.mul_one,
    capacity]

theorem slot_grown_of_lt (h : n < pool.capacity) : pool.grown.slot n = pool.slot n := by
  rw [slot, grown, List.getElem?_append_left (slabs_div_lt h), slot]

theorem slot_grown {i : ℕ} (hi : i < slotsPerSlab) :
    pool.grown.slot (pool.capacity + i) = newSlab pool.capacity ⟨i, hi⟩ := by
  have hdiv : (pool.capacity + i) / slotsPerSlab = pool.slabs.length := by
    rw [capacity, Nat.mul_add_div (by decide), Nat.div_eq_of_lt hi, Nat.add_zero]
  have hindex : slotIndex (pool.capacity + i) = ⟨i, hi⟩ := by
    refine Fin.ext ?_
    show (pool.capacity + i) % slotsPerSlab = i
    rw [capacity, Nat.mul_add_mod, Nat.mod_eq_of_lt hi]
  rw [slot, hdiv, grown, List.getElem?_append_right (Nat.le_refl _), Nat.sub_self]
  exact congrArg (newSlab pool.capacity) hindex

/-! ## The invariant -/

/-- **The slots are the free list and the open handles**, each slot has its number, and
the numbers are those of an `int`. -/
structure Handles (pool : FdPool) (opened free : List ℕ) : Prop where
  chain : Linked 0 pool.next pool.freelist (free.map pointer)
  perm : (free ++ opened).Perm (List.range pool.capacity)
  fd : ∀ n < pool.capacity, (pool.slot n).fd = n
  small : pool.capacity < 2 ^ 31

namespace Handles

variable {opened free : List ℕ}

theorem mem_lt (h : pool.Handles opened free) (hn : n ∈ free ++ opened) : n < pool.capacity :=
  List.mem_range.mp (h.perm.mem_iff.mp hn)

theorem lt_of_free (h : pool.Handles opened free) (hn : n ∈ free) : n < pool.capacity :=
  h.mem_lt (List.mem_append_left _ hn)

theorem lt_of_opened (h : pool.Handles opened free) (hn : n ∈ opened) : n < pool.capacity :=
  h.mem_lt (List.mem_append_right _ hn)

theorem nodup (h : pool.Handles opened free) : (free ++ opened).Nodup :=
  h.perm.nodup_iff.mpr List.nodup_range

theorem notMem_free (h : pool.Handles opened free) (hn : n ∈ opened) : n ∉ free := fun hf =>
  (List.nodup_append.mp h.nodup).2.2 n hf n hn rfl

theorem target_of_free (h : pool.Handles opened free) (hn : n ∈ free) :
    target (pointer n) = n :=
  target_pointer (Nat.lt_trans (h.lt_of_free hn) h.small)

/-- The order of the open handles does not matter. -/
theorem of_perm {opened' : List ℕ} (h : pool.Handles opened free)
    (hperm : opened'.Perm opened) : pool.Handles opened' free where
  chain := h.chain
  perm := (hperm.append_left free).trans h.perm
  fd := h.fd
  small := h.small

/-- **An assignment to an open handle** is not seen by the free list. -/
theorem setSlot (h : pool.Handles opened free) (hn : n ∈ opened) (hfd : s.fd = n) :
    (pool.setSlot n s).Handles opened free where
  chain := by
    refine h.chain.congr fun p hp => ?_
    obtain ⟨m, hm, rfl⟩ := List.mem_map.mp hp
    have hne : m ≠ n := by
      rintro rfl
      exact h.notMem_free hn hm
    rw [next, next, h.target_of_free hm, slot_setSlot_of_ne hne]
  perm := by
    rw [capacity_setSlot]
    exact h.perm
  fd m hm := by
    rw [capacity_setSlot] at hm
    by_cases hmn : m = n
    · rw [hmn, slot_setSlot (hmn ▸ hm), hfd]
    · rw [slot_setSlot_of_ne hmn]
      exact h.fd m hm
  small := by
    rw [capacity_setSlot]
    exact h.small

/-- **The first free slot** becomes an open handle, with what the word holds. -/
theorem pop (h : pool.Handles opened free) (hfree : pool.freelist ≠ 0) :
    ∃ n free', free = n :: free' ∧ target pool.freelist = n ∧
      pool.pop.Handles (n :: opened) free' := by
  cases free with
  | nil => exact absurd h.chain hfree
  | cons n free' =>
    have hhead : pool.freelist = pointer n := h.chain.1
    have htarget : target pool.freelist = n := by
      rw [hhead, h.target_of_free List.mem_cons_self]
    refine ⟨n, free', rfl, htarget, ?_, List.perm_middle.trans h.perm, h.fd, h.small⟩
    rw [FdPool.pop, htarget]
    have htail := h.chain.2.2
    rw [next, h.target_of_free List.mem_cons_self] at htail
    exact htail

/-- **A handle that is closed** becomes the first free slot. -/
theorem push (h : pool.Handles opened free) (hn : n ∈ opened) :
    (pool.push n).Handles (opened.erase n) (n :: free) := by
  have hset := h.setSlot (s := { pool.slot n with inumber := pool.freelist }) hn
    (h.fd n (h.lt_of_opened hn))
  have hlt := h.lt_of_opened hn
  have hsmall := Nat.lt_trans hlt h.small
  refine ⟨?_, ?_, hset.fd, hset.small⟩
  · refine hset.chain.cons (pointer_ne_zero hsmall) ?_
    show ((pool.setSlot n _).slot (target (pointer n))).inumber = _
    rw [target_pointer hsmall, slot_setSlot hlt, freelist_setSlot]
  · refine List.Perm.trans ?_ hset.perm
    have herase := List.perm_cons_erase hn
    rw [List.cons_append]
    exact List.perm_middle.symm.trans (herase.symm.append_left free)

/-- **A new slab**, when every slot is handed out, is the new free list. -/
theorem grown (h : pool.Handles opened []) (hbound : opened.length + slotsPerSlab < 2 ^ 31) :
    pool.grown.Handles opened (List.range' pool.capacity slotsPerSlab) := by
  have hopened : opened.Perm (List.range pool.capacity) := h.perm
  have hlength : opened.length = pool.capacity := by
    rw [hopened.length_eq, List.length_range]
  have hsmall : pool.grown.capacity < 2 ^ 31 := by
    rw [capacity_grown, ← hlength]
    exact hbound
  have hnew : ∀ j, pool.capacity ≤ j → j < pool.capacity + slotsPerSlab → ∃ i : Fin slotsPerSlab,
      j = pool.capacity + i ∧ pool.grown.slot j = newSlab pool.capacity i := by
    intro j hj hj'
    have hi : j - pool.capacity < slotsPerSlab := by omega
    have hadd : pool.capacity + (j - pool.capacity) = j := by omega
    refine ⟨⟨j - pool.capacity, hi⟩, hadd.symm, ?_⟩
    rw [← slot_grown hi, hadd]
  refine ⟨?_, ?_, fun n hn => ?_, hsmall⟩
  · have hhead : pool.grown.freelist = pointer pool.capacity := rfl
    rw [hhead]
    refine Linked.range' (by decide) rfl (fun j _ hj => ?_) fun j hj hj' => ?_
    · rw [capacity_grown] at hsmall
      exact pointer_ne_zero (Nat.lt_trans hj hsmall)
    · obtain ⟨i, rfl, hslot⟩ := hnew j hj hj'
      rw [capacity_grown] at hsmall
      rw [next, target_pointer (by omega), hslot]
      have hlast : (pool.capacity + ↑i + 1 = pool.capacity + slotsPerSlab) =
          ((i : ℕ) = slotsPerSlab - 1) := propext (by
        have hpos : 0 < slotsPerSlab := by decide
        omega)
      rw [if_congr (Iff.of_eq hlast) rfl rfl]
      rfl
  · rw [capacity_grown, List.range_eq_range', ← List.range'_append_1, Nat.zero_add]
    refine List.perm_append_comm.trans (List.Perm.append_right _ ?_)
    rw [← List.range_eq_range']
    exact hopened
  · rw [capacity_grown] at hn
    by_cases hold : n < pool.capacity
    · rw [slot_grown_of_lt hold]
      exact h.fd n hold
    · obtain ⟨i, rfl, hslot⟩ := hnew n (by omega) hn
      rw [hslot]
      exact (Nat.cast_add pool.capacity (i : ℕ)).symm

end Handles

end FdPool

/-! ## The functions of the pool -/

/-- What an allocation does: it opens a slot that was free, and adds a slab only if every
slot is handed out; or it finds neither a free slot nor memory. -/
def AllocateFdPost (s : SfsState F) (opened : List ℕ) (answer : Option ℕ)
    (s' : SfsState F) : Prop :=
  (∃ n free', answer = some n ∧ n ∉ opened ∧ s'.fdPool.Handles (n :: opened) free' ∧
    (∀ m ∈ opened, s'.fdPool.slot m = s.fdPool.slot m) ∧
    (s'.fdPool.capacity ≠ s.fdPool.capacity → ∀ m < s.fdPool.capacity, m ∈ opened)) ∨
  answer = none ∧ s.fs.host.mallocs 0 = false ∧ s'.fdPool = s.fdPool

section Functions

variable {s : SfsState F} {opened free : List ℕ}

/-- A free slot is taken off the list. -/
theorem sfsFiledescriptorAllocate_free (hfree : s.fdPool.freelist ≠ 0) :
    sfsFiledescriptorAllocate.run s =
      .done (some (FdPool.target s.fdPool.freelist)) { s with fdPool := s.fdPool.pop } := by
  rw [sfsFiledescriptorAllocate, Run.run_bind, Run.run_get, Run.andThen_done, if_pos hfree]
  rfl

/-- With no free slot and no memory there is no handle. -/
theorem sfsFiledescriptorAllocate_refuse (hfree : s.fdPool.freelist = 0)
    (hmalloc : s.fs.host.mallocs 0 = false) :
    sfsFiledescriptorAllocate.run s = .done none { s with fs := s.fs.malloced } := by
  rw [sfsFiledescriptorAllocate, Run.run_bind, Run.run_get, Run.andThen_done,
    if_neg (not_not.mpr hfree)]
  dsimp only
  rw [Run.run_bind, onFs, Run.run_zoom, malloc_run, hmalloc, Outcome.onState_done,
    Run.andThen_done, if_pos (by simp), Run.run_pure]

/-- With no free slot the first one of a new slab is taken. -/
theorem sfsFiledescriptorAllocate_grow (hfree : s.fdPool.freelist = 0)
    (hmalloc : s.fs.host.mallocs 0 = true) :
    sfsFiledescriptorAllocate.run s =
      .done (some (FdPool.target s.fdPool.grown.freelist))
        { s with fs := s.fs.malloced, fdPool := s.fdPool.grown.pop } := by
  rw [sfsFiledescriptorAllocate, Run.run_bind, Run.run_get, Run.andThen_done,
    if_neg (not_not.mpr hfree)]
  dsimp only
  rw [Run.run_bind, onFs, Run.run_zoom, malloc_run, hmalloc, Outcome.onState_done,
    Run.andThen_done, if_neg (by simp)]
  rfl

theorem sfsFiledescriptorAllocate_ensures (h : s.fdPool.Handles opened free)
    (hbound : opened.length + slotsPerSlab < 2 ^ 31) :
    Run.Ensures sfsFiledescriptorAllocate s (AllocateFdPost s opened) := by
  by_cases hfree : s.fdPool.freelist = 0
  · have hnil : free = [] := List.map_eq_nil_iff.mp (h.chain.eq_nil_iff.mpr hfree)
    subst hnil
    cases hmalloc : s.fs.host.mallocs 0 with
    | false =>
      exact Run.Ensures.of_eq (sfsFiledescriptorAllocate_refuse hfree hmalloc)
        (Or.inr ⟨rfl, hmalloc, rfl⟩)
    | true =>
      have hgrown := h.grown hbound
      have hpos : FdPool.pointer s.fdPool.capacity ≠ 0 := FdPool.pointer_ne_zero h.small
      obtain ⟨n, free', hcons, htarget, hpop⟩ := hgrown.pop hpos
      have hn : s.fdPool.capacity ≤ n := by
        have hmem : n ∈ List.range' s.fdPool.capacity slotsPerSlab := by
          rw [hcons]
          exact List.mem_cons_self
        exact (List.mem_range'_1.mp hmem).1
      refine Run.Ensures.of_eq (sfsFiledescriptorAllocate_grow hfree hmalloc)
        (Or.inl ⟨n, free', congrArg some htarget, fun hm => ?_, hpop, fun m hm => ?_,
          fun _ m hm => ?_⟩)
      · exact absurd (h.lt_of_opened hm) (Nat.not_lt_of_le hn)
      · exact FdPool.slot_grown_of_lt (h.lt_of_opened hm)
      · exact h.perm.mem_iff.mpr (List.mem_range.mpr hm)
  · obtain ⟨n, free', rfl, htarget, hpop⟩ := h.pop hfree
    refine Run.Ensures.of_eq (sfsFiledescriptorAllocate_free hfree)
      (Or.inl ⟨n, free', congrArg some htarget, fun hm => ?_, hpop, fun m _ => rfl,
        fun hne => absurd rfl hne⟩)
    exact h.notMem_free hm List.mem_cons_self

/-- **A handle that is open is found**, in its slot. -/
theorem sfsFiledescriptorGetFromFd_run {n : ℕ} (hn : n < s.fdPool.capacity) :
    (sfsFiledescriptorGetFromFd (n : ℤ)).run s = .done (some n) s := by
  rw [sfsFiledescriptorGetFromFd, decide_eq_true (Int.natCast_nonneg n), Run.assert_true,
    Run.pure_bind', Run.run_bind, Run.run_get, Run.andThen_done, Int.toNat_natCast,
    if_pos (FdPool.slabs_div_lt hn), Run.run_pure]

/-- Past the last slab there is nothing. -/
theorem sfsFiledescriptorGetFromFd_past {n : ℕ} (hn : s.fdPool.capacity ≤ n) :
    (sfsFiledescriptorGetFromFd (n : ℤ)).run s = .done none s := by
  have hslab : ¬ n / slotsPerSlab < s.fdPool.slabs.length := by
    rw [Nat.div_lt_iff_lt_mul (by decide), Nat.mul_comm]
    exact Nat.not_lt.mpr hn
  rw [sfsFiledescriptorGetFromFd, decide_eq_true (Int.natCast_nonneg n), Run.assert_true,
    Run.pure_bind', Run.run_bind, Run.run_get, Run.andThen_done, Int.toNat_natCast,
    if_neg hslab, Run.run_pure]

end Functions

/-! ## What the pool is for -/

/-- A call on the pool, or an assignment of a client to an open handle. -/
inductive HandleEvent where
  | allocate (answer : Option ℕ)
  | free (n : ℕ)
  | setInumber (n : ℕ) (inumber : UInt64)
  | setFlags (n : ℕ) (flags : UInt64)
  /-- `sfs_filedescriptor_get_from_fd`, and what is in the slot that it finds. -/
  | get (n : ℕ) (found : Slot)

/-- **A table of open handles.**  What a client finds in one is what it last put there. -/
inductive HandleStep : (ℕ → Option Slot) → HandleEvent → (ℕ → Option Slot) → Prop where
  | refuse (T : ℕ → Option Slot) : HandleStep T (.allocate none) T
  | allocate {T : ℕ → Option Slot} {n : ℕ} (c : Slot) (hT : T n = none) (hfd : c.fd = n) :
      HandleStep T (.allocate (some n)) (Function.update T n (some c))
  | free {T : ℕ → Option Slot} {n : ℕ} {c : Slot} (hT : T n = some c) :
      HandleStep T (.free n) (Function.update T n none)
  | setInumber {T : ℕ → Option Slot} {n : ℕ} {c : Slot} (inumber : UInt64) (hT : T n = some c) :
      HandleStep T (.setInumber n inumber)
        (Function.update T n (some { c with inumber := inumber }))
  | setFlags {T : ℕ → Option Slot} {n : ℕ} {c : Slot} (flags : UInt64) (hT : T n = some c) :
      HandleStep T (.setFlags n flags) (Function.update T n (some { c with flags := flags }))
  | get {T : ℕ → Option Slot} {n : ℕ} {c : Slot} (hT : T n = some c) : HandleStep T (.get n c) T

/-- The same on the state, with the handles that are open.  A client frees what is open
and writes to what is open, and there are never `2 ^ 31 - 4088` open handles. -/
inductive HandleCall :
    SfsState F × List ℕ → HandleEvent → SfsState F × List ℕ → Prop where
  | refuse {s s' : SfsState F} {opened : List ℕ}
      (few : opened.length < 2 ^ 31 - 4088)
      (run : sfsFiledescriptorAllocate.run s = .done none s') :
      HandleCall (s, opened) (.allocate none) (s', opened)
  | allocate {s s' : SfsState F} {opened : List ℕ} {n : ℕ}
      (few : opened.length < 2 ^ 31 - 4088)
      (run : sfsFiledescriptorAllocate.run s = .done (some n) s') :
      HandleCall (s, opened) (.allocate (some n)) (s', n :: opened)
  | free {s s' : SfsState F} {opened : List ℕ} {n : ℕ} (isOpen : n ∈ opened)
      (run : (sfsFiledescriptorFree n).run s = .done () s') :
      HandleCall (s, opened) (.free n) (s', opened.erase n)
  | setInumber {s s' : SfsState F} {opened : List ℕ} {n : ℕ} {inumber : UInt64}
      (isOpen : n ∈ opened) (run : (setFdInumber n inumber).run s = .done () s') :
      HandleCall (s, opened) (.setInumber n inumber) (s', opened)
  | setFlags {s s' : SfsState F} {opened : List ℕ} {n : ℕ} {flags : UInt64}
      (isOpen : n ∈ opened) (run : (setFdFlags n flags).run s = .done () s') :
      HandleCall (s, opened) (.setFlags n flags) (s', opened)
  | get {s s' : SfsState F} {opened : List ℕ} {n m : ℕ} (isOpen : n ∈ opened)
      (run : (sfsFiledescriptorGetFromFd (n : ℤ)).run s = .done (some m) s') :
      HandleCall (s, opened) (.get n (s.fdPool.slot m)) (s', opened)

/-- The table of the handles that are open. -/
def FdPool.table (pool : FdPool) (opened : List ℕ) (n : ℕ) : Option Slot :=
  if n ∈ opened then some (pool.slot n) else none

section Table

variable {pool pool' : FdPool} {opened : List ℕ} {n : ℕ}

theorem table_of_mem (hn : n ∈ opened) : pool.table opened n = some (pool.slot n) :=
  if_pos hn

theorem table_of_notMem (hn : n ∉ opened) : pool.table opened n = none :=
  if_neg hn

/-- A table in which one open handle changed. -/
theorem table_update (hn : n ∈ opened) (hsame : ∀ m ∈ opened, m ≠ n → pool'.slot m = pool.slot m) :
    pool'.table opened = Function.update (pool.table opened) n (some (pool'.slot n)) := by
  funext m
  by_cases hmn : m = n
  · rw [hmn, Function.update_self, table_of_mem hn]
  · rw [Function.update_of_ne hmn]
    by_cases hm : m ∈ opened
    · rw [table_of_mem hm, table_of_mem hm, hsame m hm hmn]
    · rw [table_of_notMem hm, table_of_notMem hm]

theorem table_cons (hsame : ∀ m ∈ opened, pool'.slot m = pool.slot m) :
    pool'.table (n :: opened) = Function.update (pool.table opened) n (some (pool'.slot n)) := by
  funext m
  by_cases hmn : m = n
  · rw [hmn, Function.update_self, table_of_mem List.mem_cons_self]
  · rw [Function.update_of_ne hmn]
    by_cases hm : m ∈ opened
    · rw [table_of_mem (List.mem_cons_of_mem _ hm), table_of_mem hm, hsame m hm]
    · rw [table_of_notMem hm, table_of_notMem (List.not_mem_cons_of_ne_of_not_mem hmn hm)]

theorem table_erase (hnodup : opened.Nodup)
    (hsame : ∀ m ∈ opened, m ≠ n → pool'.slot m = pool.slot m) :
    pool'.table (opened.erase n) = Function.update (pool.table opened) n none := by
  funext m
  by_cases hmn : m = n
  · rw [hmn, Function.update_self, table_of_notMem fun hm => (hnodup.mem_erase_iff.mp hm).1 rfl]
  · rw [Function.update_of_ne hmn]
    by_cases hm : m ∈ opened
    · rw [table_of_mem (hnodup.mem_erase_iff.mpr ⟨hmn, hm⟩), table_of_mem hm, hsame m hm hmn]
    · rw [table_of_notMem hm, table_of_notMem fun h => hm (List.mem_of_mem_erase h)]

end Table

/-! ## Runs -/

/-- **One call is one step of a table of open handles.** -/
theorem handleCall_refines {s s' : SfsState F} {opened opened' free : List ℕ} {e : HandleEvent}
    (h : s.fdPool.Handles opened free) (hcall : HandleCall (s, opened) e (s', opened')) :
    HandleStep (s.fdPool.table opened) e (s'.fdPool.table opened') ∧
      ∃ free', s'.fdPool.Handles opened' free' := by
  cases hcall with
  | refuse few run =>
    obtain ⟨n, _, hanswer, -⟩ | ⟨-, -, hsame⟩ :=
      (sfsFiledescriptorAllocate_ensures h (Nat.add_lt_of_lt_sub few)).post run
    · exact absurd hanswer.symm (Option.some_ne_none n)
    · rw [hsame]
      exact ⟨HandleStep.refuse _, free, h⟩
  | @allocate _ _ _ n few run =>
    obtain ⟨_, free', hanswer, hn, hhandles, hkeeps, -⟩ | ⟨hnone, -⟩ :=
      (sfsFiledescriptorAllocate_ensures h (Nat.add_lt_of_lt_sub few)).post run
    · cases hanswer
      refine ⟨?_, free', hhandles⟩
      rw [table_cons hkeeps]
      exact HandleStep.allocate _ (table_of_notMem hn)
        (hhandles.fd n (hhandles.lt_of_opened List.mem_cons_self))
    · exact absurd hnone (Option.some_ne_none n)
  | @free _ _ _ n isOpen run =>
    cases run
    refine ⟨?_, n :: free, h.push isOpen⟩
    have htable : (s.fdPool.push n).table (opened.erase n) =
        Function.update (s.fdPool.table opened) n none :=
      table_erase (List.nodup_append.mp h.nodup).2.1 fun m _ hmn => FdPool.slot_setSlot_of_ne hmn
    show HandleStep _ _ ((s.fdPool.push n).table (opened.erase n))
    rw [htable]
    exact HandleStep.free (table_of_mem isOpen)
  | @setInumber _ _ _ n inumber isOpen run =>
    cases run
    have hlt := h.lt_of_opened isOpen
    refine ⟨?_, free, h.setSlot isOpen (h.fd n hlt)⟩
    rw [table_update isOpen fun m _ hmn => FdPool.slot_setSlot_of_ne hmn,
      FdPool.slot_setSlot hlt]
    exact HandleStep.setInumber inumber (table_of_mem isOpen)
  | @setFlags _ _ _ n flags isOpen run =>
    cases run
    have hlt := h.lt_of_opened isOpen
    refine ⟨?_, free, h.setSlot isOpen (h.fd n hlt)⟩
    rw [table_update isOpen fun m _ hmn => FdPool.slot_setSlot_of_ne hmn,
      FdPool.slot_setSlot hlt]
    exact HandleStep.setFlags flags (table_of_mem isOpen)
  | @get _ _ _ n m isOpen run =>
    rw [sfsFiledescriptorGetFromFd_run (h.lt_of_opened isOpen)] at run
    cases run
    exact ⟨HandleStep.get (table_of_mem isOpen), free, h⟩

/-- The pool that `sfs_filedescriptor_pool_init` makes. -/
theorem handles_init : sfsFiledescriptorPoolInit.Handles [] (List.range' 0 slotsPerSlab) := by
  have hnone : (FdPool.mk [] 0).Handles [] [] :=
    ⟨rfl, List.Perm.refl _, fun n hn => absurd hn (Nat.not_lt_zero n), by decide⟩
  exact hnone.grown (by decide)

/-- Any calls on a new pool are steps of a table of open handles, and keep the pool. -/
theorem handles_of_exec {s s' : SfsState F} {opened : List ℕ} {tr : List HandleEvent}
    (hinit : s.fdPool = sfsFiledescriptorPoolInit)
    (hexec : Exec HandleCall (s, []) tr (s', opened)) :
    Exec HandleStep (fun _ => none) tr (s'.fdPool.table opened) ∧
      ∃ free, s'.fdPool.Handles opened free := by
  obtain ⟨T, hsteps, ⟨free, hhandles⟩, rfl⟩ := hexec.simulate (a := fun _ => none)
    (R := fun t T => (∃ free, t.1.fdPool.Handles t.2 free) ∧ T = t.1.fdPool.table t.2)
    (by
      rintro t e u T ⟨⟨free, ht⟩, rfl⟩ hcall
      obtain ⟨hstep, hu⟩ := handleCall_refines ht hcall
      exact ⟨_, hstep, hu, rfl⟩)
    ⟨⟨_, by rw [hinit]; exact handles_init⟩, rfl⟩
  exact ⟨hsteps, free, hhandles⟩

/-- **Handles are unique and stable.**  Any calls on a new pool are steps of a table of
open handles.  Afterwards the free list ends, and it and the open handles are all slots,
each with its number; the open handles have distinct nonnegative numbers, and each is
found by its number, in the slot `n % 4088` of the slab `n / 4088`; and an allocation for
which there is memory opens another, adding a slab only if every slot is handed out. -/
theorem handles_are_unique_and_stable {s s' : SfsState F} {opened : List ℕ}
    {tr : List HandleEvent} (hinit : s.fdPool = sfsFiledescriptorPoolInit)
    (hexec : Exec HandleCall (s, []) tr (s', opened)) :
    Exec HandleStep (fun _ => none) tr (s'.fdPool.table opened) ∧
    (∃ free, s'.fdPool.Handles opened free) ∧
    (opened.map fun n => (s'.fdPool.slot n).fd).Nodup ∧
    (∀ n ∈ opened, 0 ≤ (s'.fdPool.slot n).fd ∧
      (sfsFiledescriptorGetFromFd (s'.fdPool.slot n).fd).run s' = .done (some n) s' ∧
      ∃ slab, s'.fdPool.slabs[n / 4088]? = some slab ∧ s'.fdPool.slot n = slab (slotIndex n)) ∧
    (opened.length < 2 ^ 31 - 4088 → s'.fs.host.mallocs 0 = true →
      Run.Ensures sfsFiledescriptorAllocate s' fun answer s'' =>
        ∃ n, answer = some n ∧ n ∉ opened ∧ (s''.fdPool.slot n).fd = n ∧
          (s''.fdPool.slabs.length ≠ s'.fdPool.slabs.length →
            ∀ m < 4088 * s'.fdPool.slabs.length, m ∈ opened)) := by
  obtain ⟨hsteps, free, hhandles⟩ := handles_of_exec hinit hexec
  have hfd : ∀ n ∈ opened, (s'.fdPool.slot n).fd = n := fun n hn =>
    hhandles.fd n (hhandles.lt_of_opened hn)
  refine ⟨hsteps, ⟨free, hhandles⟩, ?_, fun n hn => ⟨?_, ?_, ?_⟩, fun few hmalloc => ?_⟩
  · rw [List.map_congr_left hfd]
    exact (List.nodup_append.mp hhandles.nodup).2.1.map Nat.cast_injective
  · rw [hfd n hn]
    exact Int.natCast_nonneg n
  · rw [hfd n hn]
    exact sfsFiledescriptorGetFromFd_run (hhandles.lt_of_opened hn)
  · exact FdPool.slot_eq (hhandles.lt_of_opened hn)
  · refine (sfsFiledescriptorAllocate_ensures hhandles (Nat.add_lt_of_lt_sub few)).mono
      fun answer s'' hpost => ?_
    obtain ⟨n, free', hanswer, hn, hhandles', -, hgrows⟩ | ⟨-, hfail, -⟩ := hpost
    · refine ⟨n, hanswer, hn, hhandles'.fd n (hhandles'.lt_of_opened List.mem_cons_self),
        fun hne m hm => hgrows (fun e => hne ?_) m hm⟩
      exact Nat.eq_of_mul_eq_mul_left (by decide) e
    · exact absurd (hmalloc.symm.trans hfail) (by decide)

/-- A new pool. -/
def newPool : SfsState Unit where
  mu := []
  fdPool := sfsFiledescriptorPoolInit
  fs := Filesystem.blank oneFreeBlock ()

/-- Two handles are opened, an inode number is written into the first, which is looked up, and
the second is closed. -/
def openTwo : Sfs Unit (Option ℕ × Option ℕ × Option ℕ) := do
  let first ← sfsFiledescriptorAllocate
  let second ← sfsFiledescriptorAllocate
  setFdInumber 0 7
  let found ← sfsFiledescriptorGetFromFd ((0 : ℕ) : ℤ)
  sfsFiledescriptorFree 1
  return (first, second, found)

/-- These calls on a new pool. -/
theorem exec_newPool : ∃ (s' : SfsState Unit) (found : Slot),
    Exec HandleCall (newPool, []) [.allocate (some 0), .allocate (some 1), .setInumber 0 7,
      .get 0 found, .free 1] (s', [0]) := by
  have hvalue : (openTwo.run newPool).value = some (some 0, some 1, some 0) := by
    decide +kernel
  obtain ⟨last, hrun⟩ := Outcome.exists_of_value hvalue
  obtain ⟨first, s₁, hfirst, hrun⟩ := Run.bind_eq_done.mp hrun
  obtain ⟨second, s₂, hsecond, hrun⟩ := Run.bind_eq_done.mp hrun
  obtain ⟨⟨⟩, s₃, hset, hrun⟩ := Run.bind_eq_done.mp hrun
  obtain ⟨found, s₄, hget, hrun⟩ := Run.bind_eq_done.mp hrun
  obtain ⟨⟨⟩, s₅, hfree, hrun⟩ := Run.bind_eq_done.mp hrun
  cases hrun
  exact ⟨_, _, .cons (.allocate (by decide) hfirst) (.cons (.allocate (by decide) hsecond)
    (.cons (.setInumber (by decide) hset) (.cons (.get (by decide) hget)
      (.cons (.free (by decide) hfree) (.nil _)))))⟩

/-- What the lookup finds in that run is what was written. -/
theorem handles_are_unique_and_stable_newPool :
    ∃ (s' : SfsState Unit) (found : Slot),
      Exec HandleCall (newPool, []) [.allocate (some 0), .allocate (some 1), .setInumber 0 7,
        .get 0 found, .free 1] (s', [0]) ∧ found.inumber = 7 := by
  obtain ⟨s', found, hexec⟩ := exec_newPool
  refine ⟨s', found, hexec, ?_⟩
  have hsteps := (handles_are_unique_and_stable rfl hexec).1
  cases hsteps with
  | cons _ hsteps =>
    cases hsteps with
    | cons _ hsteps =>
      cases hsteps with
      | cons hset hsteps =>
        cases hsteps with
        | cons hget _ =>
          cases hset with
          | setInumber inumber hT =>
            cases hget with
            | get hfound =>
              rw [Function.update_self] at hfound
              rw [← Option.some.inj hfound]

/-! ## Numbers that are no handle -/

/-- **A lookup is exact** if the number is an open handle or lies past the last slab, and
only then: of a slab that is there every number is found. -/
theorem lookup_is_exact_iff {s s' : SfsState F} {opened : List ℕ} {tr : List HandleEvent}
    (hinit : s.fdPool = sfsFiledescriptorPoolInit)
    (hexec : Exec HandleCall (s, []) tr (s', opened)) (n : ℕ) :
    (sfsFiledescriptorGetFromFd (n : ℤ)).run s' =
        .done (if n ∈ opened then some n else none) s' ↔
      n ∈ opened ∨ 4088 * s'.fdPool.slabs.length ≤ n := by
  obtain ⟨-, free, hhandles⟩ := handles_of_exec hinit hexec
  by_cases hn : n ∈ opened
  · rw [if_pos hn]
    exact iff_of_true (sfsFiledescriptorGetFromFd_run (hhandles.lt_of_opened hn)) (Or.inl hn)
  rw [if_neg hn]
  by_cases hlt : n < s'.fdPool.capacity
  · rw [sfsFiledescriptorGetFromFd_run hlt]
    refine iff_of_false (fun h => ?_) fun h => ?_
    · cases h
    · exact h.elim hn fun hpast => absurd hlt (Nat.not_lt.mpr hpast)
  · have hpast := Nat.not_lt.mp hlt
    exact iff_of_true (sfsFiledescriptorGetFromFd_past hpast) (Or.inr hpast)

/-- After the calls of that run the handle 0 is found, and the number 5000, past the only slab, is
not. -/
theorem lookup_is_exact_iff_newPool : ∃ (s' : SfsState Unit) (found : Slot),
    Exec HandleCall (newPool, []) [.allocate (some 0), .allocate (some 1), .setInumber 0 7,
      .get 0 found, .free 1] (s', [0]) ∧
    (sfsFiledescriptorGetFromFd (0 : ℕ)).run s' =
      .done (if 0 ∈ ([0] : List ℕ) then some 0 else none) s' := by
  obtain ⟨s', found, hexec⟩ := exec_newPool
  exact ⟨s', found, hexec, (lookup_is_exact_iff rfl hexec 0).mpr (Or.inl List.mem_cons_self)⟩

/-- **In a new pool the number 0 is found**, though no handle has been opened. -/
theorem lookup_finds_unopened :
    Exec HandleCall (newPool, []) [] (newPool, []) ∧
      (sfsFiledescriptorGetFromFd (0 : ℕ)).run newPool = .done (some 0) newPool :=
  ⟨Exec.nil _, sfsFiledescriptorGetFromFd_run (by decide)⟩

end SimpleFileSystem
