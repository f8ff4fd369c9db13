import SimpleFileSystem.FdPool

/-!
# Descriptors in order

A client that closes only what it opened last uses the pool as a stack, and then the
numbers are those of a stack: with `m` open handles they are `0, …, m - 1`.  The reason is
the order of the free list (`FdPool.InOrder`): it visits the other slots of the slabs
upwards from `m`.  A new slab is threaded that way, an allocation takes the first and a
free of `m - 1` puts it back in front.
-/

namespace SimpleFileSystem

variable {F : Type} {s s' : SfsState F} {m n : ℕ}

/-- A call of a client that frees only the last handle it opened, of those that are open. -/
def LastOutCall (t : SfsState F × List ℕ) (e : HandleEvent) (u : SfsState F × List ℕ) : Prop :=
  HandleCall t e u ∧ ∀ n, e = .free n → t.2.head? = some n

/-- `n` calls of `sfs_filedescriptor_allocate`, one after the other. -/
def allocateInARow : ℕ → Sfs F (List (Option ℕ))
  | 0 => return []
  | n + 1 => do
    let fd ← sfsFiledescriptorAllocate
    let fds ← allocateInARow n
    return fd :: fds

namespace FdPool

/-- **The first `m` numbers are handed out**, the last of them last, and the others are on
the free list, upwards. -/
def InOrder (pool : FdPool) (m : ℕ) : Prop :=
  pool.Handles (List.range m).reverse (List.range' m (pool.capacity - m))

namespace InOrder

variable {pool : FdPool}

theorem le_capacity (h : pool.InOrder m) : m ≤ pool.capacity := by
  have hlength := h.perm.length_eq
  rw [List.length_append, List.length_range', List.length_reverse, List.length_range,
    List.length_range] at hlength
  omega

/-- One more number is handed out. -/
theorem opened_succ (m : ℕ) : (List.range (m + 1)).reverse = m :: (List.range m).reverse := by
  rw [List.range_succ, List.reverse_append, List.reverse_singleton, List.singleton_append]

/-- One number less is free. -/
theorem free_succ (hm : m < pool.capacity) : List.range' m (pool.capacity - m) =
    m :: List.range' (m + 1) (pool.capacity - (m + 1)) := by
  have hsucc : pool.capacity - m = pool.capacity - (m + 1) + 1 := by omega
  rw [hsucc, List.range'_succ]

/-- The free list ends when all slots are handed out. -/
theorem freelist_eq_zero_iff (h : pool.InOrder m) : pool.freelist = 0 ↔ m = pool.capacity := by
  have hle := h.le_capacity
  rw [← h.chain.eq_nil_iff, List.map_eq_nil_iff, List.range'_eq_nil_iff]
  omega

theorem fd_of_lt (h : pool.InOrder m) (hn : n < m) : (pool.slot n).fd = n :=
  h.fd n (Nat.lt_of_lt_of_le hn h.le_capacity)

/-- **The first free slot** is the one with the next number. -/
theorem pop (h : pool.InOrder m) (hfree : pool.freelist ≠ 0) :
    target pool.freelist = m ∧ pool.pop.InOrder (m + 1) := by
  have hlt : m < pool.capacity :=
    Nat.lt_of_le_of_ne h.le_capacity fun e => hfree (h.freelist_eq_zero_iff.mpr e)
  obtain ⟨k, free', hcons, htarget, hpop⟩ := Handles.pop h hfree
  obtain ⟨rfl, rfl⟩ := List.cons.inj ((free_succ hlt).symm.trans hcons)
  refine ⟨htarget, ?_⟩
  rw [InOrder, opened_succ]
  exact hpop

/-- **The last number that is put back** is the next one again. -/
theorem push (h : pool.InOrder (m + 1)) : (pool.push m).InOrder m := by
  have hcapacity : (pool.push m).capacity = pool.capacity := capacity_setSlot
  have hlt : m < pool.capacity := h.le_capacity
  have hopened : m ∈ (List.range (m + 1)).reverse := by simp
  have hpush := Handles.push h hopened
  rw [opened_succ, List.erase_cons_head] at hpush
  rw [InOrder, hcapacity, free_succ hlt]
  exact hpush

/-- **A new slab** goes on where the last one ends. -/
theorem grown (h : pool.InOrder m) (hfree : pool.freelist = 0)
    (hbound : m + slotsPerSlab < 2 ^ 31) : pool.grown.InOrder m := by
  obtain rfl := h.freelist_eq_zero_iff.mp hfree
  have hnil : pool.Handles (List.range pool.capacity).reverse [] := by
    have := h
    rwa [InOrder, Nat.sub_self] at this
  rw [InOrder, capacity_grown, Nat.add_sub_cancel_left]
  refine hnil.grown ?_
  rwa [List.length_reverse, List.length_range]

/-- An assignment to an open handle. -/
theorem setSlot {c : Slot} (h : pool.InOrder m) (hn : n < m) (hfd : c.fd = n) :
    (pool.setSlot n c).InOrder m := by
  rw [InOrder, capacity_setSlot]
  exact Handles.setSlot h (by simpa using hn) hfd

/-- The pool that `sfs_filedescriptor_pool_init` makes. -/
theorem init : sfsFiledescriptorPoolInit.InOrder 0 :=
  handles_init

end InOrder

end FdPool

/-! ## Calls -/

/-- The handles are in order, and there is memory. -/
structure SfsState.InOrder (s : SfsState F) (m : ℕ) : Prop where
  pool : s.fdPool.InOrder m
  memory : ∀ i, s.fs.host.mallocs i = true

/-- **An allocation** returns the next number. -/
theorem SfsState.InOrder.allocate (h : s.InOrder m) (hbound : m < 2 ^ 31 - 4088) :
    Run.Ensures sfsFiledescriptorAllocate s fun answer s' => answer = some m ∧
      s'.InOrder (m + 1) := by
  by_cases hfree : s.fdPool.freelist = 0
  · have hgrown := h.pool.grown hfree (Nat.add_lt_of_lt_sub hbound)
    have hne : s.fdPool.grown.freelist ≠ 0 := by
      rw [Ne, hgrown.freelist_eq_zero_iff, FdPool.capacity_grown]
      have hle := h.pool.le_capacity
      have hpos : 0 < slotsPerSlab := by decide
      omega
    obtain ⟨htarget, hpop⟩ := hgrown.pop hne
    exact Run.Ensures.of_eq (sfsFiledescriptorAllocate_grow hfree (h.memory 0))
      ⟨congrArg some htarget, hpop, fun i => h.memory (i + 1)⟩
  · obtain ⟨htarget, hpop⟩ := h.pool.pop hfree
    exact Run.Ensures.of_eq (sfsFiledescriptorAllocate_free hfree)
      ⟨congrArg some htarget, hpop, h.memory⟩

/-- **Allocations in a row** return the next numbers, across any number of slabs. -/
theorem SfsState.InOrder.allocateInARow (h : s.InOrder m) (hbound : m + n < 2 ^ 31 - 4088) :
    Run.Ensures (allocateInARow n) s fun answers s' =>
      answers = (List.range' m n).map some ∧ s'.InOrder (m + n) := by
  induction n generalizing s m with
  | zero => exact Run.Ensures.of_eq rfl ⟨rfl, h⟩
  | succ n ih =>
    refine Run.Ensures.bind (h.allocate (by omega)) fun fd s₁ hfd => ?_
    obtain ⟨rfl, hs₁⟩ := hfd
    refine Run.Ensures.bind (ih hs₁ (by omega)) fun fds s₂ hfds => ?_
    obtain ⟨rfl, hs₂⟩ := hfds
    refine Run.Ensures.of_eq (Run.run_pure _ _) ⟨rfl, ?_⟩
    rwa [Nat.add_assoc, Nat.add_comm 1 n] at hs₂

/-- **One call of such a client** keeps the handles in order. -/
theorem lastOutCall_inOrder {opened opened' : List ℕ} {e : HandleEvent}
    (horder : opened = (List.range opened.length).reverse) (h : s.InOrder opened.length)
    (hcall : LastOutCall (s, opened) e (s', opened')) :
    opened' = (List.range opened'.length).reverse ∧ s'.InOrder opened'.length := by
  obtain ⟨hcall, hlast⟩ := hcall
  have hlt : ∀ n ∈ opened, n < opened.length := by
    intro n hn
    rw [horder] at hn
    simpa using hn
  cases hcall with
  | refuse few run =>
    have hanswer := ((h.allocate few).post run).1
    exact absurd hanswer.symm (Option.some_ne_none _)
  | @allocate _ _ _ n few run =>
    obtain ⟨hanswer, hs'⟩ := (h.allocate few).post run
    obtain rfl := Option.some_inj.mp hanswer
    refine ⟨?_, hs'⟩
    rw [List.length_cons, FdPool.InOrder.opened_succ, ← horder]
  | @free _ _ _ n isOpen run =>
    cases run
    cases opened with
    | nil => exact absurd isOpen List.not_mem_nil
    | cons k rest =>
      obtain rfl := Option.some_inj.mp (hlast n rfl)
      rw [List.length_cons, FdPool.InOrder.opened_succ] at horder
      obtain ⟨rfl, hrest⟩ := List.cons.inj horder
      rw [List.erase_cons_head]
      exact ⟨hrest, h.pool.push, h.memory⟩
  | @setInumber _ _ _ n inumber isOpen run =>
    cases run
    exact ⟨horder, h.pool.setSlot (hlt n isOpen) (h.pool.fd_of_lt (hlt n isOpen)), h.memory⟩
  | @setFlags _ _ _ n flags isOpen run =>
    cases run
    exact ⟨horder, h.pool.setSlot (hlt n isOpen) (h.pool.fd_of_lt (hlt n isOpen)), h.memory⟩
  | @get _ _ _ n m isOpen run =>
    rw [sfsFiledescriptorGetFromFd_run (Nat.lt_of_lt_of_le
      (hlt n isOpen) h.pool.le_capacity)] at run
    cases run
    exact ⟨horder, h⟩

/-! ## Runs -/

/-- **Descriptors come out in order.**  After any calls on a new pool of a client that frees
only the last handle it opened, with memory for every slab: the open handles are the numbers
`0, …, m - 1`, the last one opened last, and any number of allocations in a row return
`m, m + 1, …` in this order. -/
theorem descriptors_come_in_order {opened : List ℕ} {tr : List HandleEvent}
    (hinit : s.fdPool = sfsFiledescriptorPoolInit) (hmemory : ∀ i, s.fs.host.mallocs i = true)
    (hexec : Exec LastOutCall (s, []) tr (s', opened)) :
    opened = (List.range opened.length).reverse ∧
    (∀ k ∈ opened, (s'.fdPool.slot k).fd = k) ∧
    ∀ n, opened.length + n < 2 ^ 31 - 4088 →
      Run.Ensures (allocateInARow n) s' fun answers s'' =>
        answers = (List.range' opened.length n).map some ∧
        ∀ k < opened.length + n, (s''.fdPool.slot k).fd = k := by
  have hstart : s.InOrder 0 := ⟨by rw [hinit]; exact FdPool.InOrder.init, hmemory⟩
  obtain ⟨horder, hs'⟩ := hexec.invariant
    (I := fun t => t.2 = (List.range t.2.length).reverse ∧ t.1.InOrder t.2.length)
    (fun t e u ht hcall => lastOutCall_inOrder ht.1 ht.2 hcall) ⟨rfl, hstart⟩
  have hopened : opened = (List.range opened.length).reverse := horder
  refine ⟨hopened, fun k hk => ?_, fun n hn => ?_⟩
  · rw [hopened, List.mem_reverse, List.mem_range] at hk
    exact hs'.pool.fd_of_lt hk
  · refine (hs'.allocateInARow hn).mono fun answers s'' hpost => ⟨hpost.1, fun k hk => ?_⟩
    exact hpost.2.pool.fd_of_lt hk

/-- A new pool from which one handle was taken and put back starts again at 0. -/
theorem descriptors_come_in_order_newPool :
    ∃ s' : SfsState Unit,
      Exec LastOutCall (newPool, []) [.allocate (some 0), .free 0] (s', []) ∧
      ∀ n < 2 ^ 31 - 4088, Run.Ensures (allocateInARow n) s' fun answers _ =>
        answers = (List.range' 0 n).map some := by
  have hnew : newPool.InOrder 0 := ⟨FdPool.InOrder.init, fun _ => by rfl⟩
  obtain ⟨answer, s₁, run, rfl, -⟩ := hnew.allocate (by decide)
  have hexec : Exec LastOutCall (newPool, []) [.allocate (some 0), .free 0]
      ({ s₁ with fdPool := s₁.fdPool.push 0 }, []) :=
    Exec.cons ⟨HandleCall.allocate (by decide) run, fun n hn => by cases hn⟩
      (Exec.cons ⟨HandleCall.free List.mem_cons_self rfl, fun n hn => by cases hn; rfl⟩
        (Exec.nil _))
  obtain ⟨-, -, hnext⟩ := descriptors_come_in_order rfl (fun _ => by rfl) hexec
  refine ⟨_, hexec, fun n hn => (hnext n ?_).mono fun _ _ h => h.1⟩
  rw [List.length_nil, Nat.zero_add]
  exact hn

end SimpleFileSystem
