import SimpleFileSystem.HandleRequests
import SimpleFileSystem.SlotReuse

/-!
# Sessions

A client makes one request after the other, and remembers the handles that it was given
until it releases them (`Session`).  `Serve` is one request with its answer.  The client
keeps its side of the bargain: its paths are C strings, and the handles that it passes are
its own, the ones of files where a file is meant and the ones of directories elsewhere
(`Session.Admits`).

`Session.Describes` is the tie to the ledger: it is balanced, and the open handles in it are
those that the client remembers.  `Serve.ledger` says what one request does to it, in a
state that meets the conditions of the specifications (`Ledger.Meets`), and
`Exec.described` says that it describes every session that is reached.
-/

namespace SimpleFileSystem

/-! ## Requests and replies -/

/-- What a request returns. -/
inductive Reply where
  | code (ret : ℤ)
  | stat (answer : ℤ × Option Stat)
  | handle (answer : ℤ × Option UInt64)
  | bytes (answer : ℤ × Memory)
  | listing (answer : ℤ × List FillerCall)

namespace Reply

/-- The handles in a reply. -/
def handles : Reply → List ℕ
  | handle (_, some fh) => [(toCInt fh).toNat]
  | _ => []

/-- The request returned 0. -/
def Succeeds : Reply → Prop
  | code ret => ret = 0
  | _ => False

instance : (r : Reply) → Decidable r.Succeeds
  | code ret => inferInstanceAs (Decidable (ret = 0))
  | stat _ => inferInstanceAs (Decidable False)
  | handle _ => inferInstanceAs (Decidable False)
  | bytes _ => inferInstanceAs (Decidable False)
  | listing _ => inferInstanceAs (Decidable False)

end Reply

/-- The request is served and answered. -/
def Request.reply {F : Type} (L : InodeLayer F) : Request → Sfs F Reply
  | getattr path => sfsGetattr L path >>= fun a => pure (.stat a)
  | create context path mode flags =>
    sfsCreate L context path mode flags >>= fun a => pure (.handle a)
  | unlink path => sfsUnlink L path >>= fun a => pure (.code a)
  | .open path flags => sfsOpen L path flags >>= fun a => pure (.handle a)
  | release fh => sfsRelease L fh >>= fun a => pure (.code a)
  | read memory tmpBlock size offset fh =>
    sfsRead L memory tmpBlock size offset fh >>= fun a => pure (.bytes a)
  | write memory tmpBlock size offset fh =>
    sfsWrite L memory tmpBlock size offset fh >>= fun a => pure (.code a)
  | opendir path flags => sfsOpendir L path flags >>= fun a => pure (.handle a)
  | readdir filler path => sfsReaddir L filler path >>= fun a => pure (.listing a)
  | releasedir fh => sfsReleasedir fh >>= fun a => pure (.code a)

/-! ## Sessions -/

/-- The state, and the handles that a client was given and has not released. -/
structure Session where
  state : SfsState DirFiles
  files : List ℕ
  dirs : List ℕ

namespace Session

/-- What a client may ask for. -/
def Admits (x : Session) : Request → Prop
  | .getattr path => 0 ∉ path
  | .create _ path _ _ => 0 ∉ path
  | .unlink path => 0 ∉ path
  | .open path _ => 0 ∉ path
  | .release fh => ∃ n ∈ x.files, fh = ofCInt n
  | .read _ _ _ _ fh => ∃ n ∈ x.files, fh = ofCInt n
  | .write _ _ _ _ fh => ∃ n ∈ x.files, fh = ofCInt n
  | .opendir path _ => path = [slash]
  | .readdir _ path => path = [slash]
  | .releasedir fh => ∃ n ∈ x.dirs, fh = ofCInt n

/-- What the client remembers after a request. -/
def after (x : Session) (s : SfsState DirFiles) (reply : Reply) : Request → Session
  | .create .. => ⟨s, reply.handles ++ x.files, x.dirs⟩
  | .open .. => ⟨s, reply.handles ++ x.files, x.dirs⟩
  | .opendir .. => ⟨s, x.files, reply.handles ++ x.dirs⟩
  | .release fh => ⟨s, if reply.Succeeds then x.files.erase (toCInt fh).toNat else x.files, x.dirs⟩
  | .releasedir fh =>
    ⟨s, x.files, if reply.Succeeds then x.dirs.erase (toCInt fh).toNat else x.dirs⟩
  | _ => ⟨s, x.files, x.dirs⟩

@[simp] theorem after_state (x : Session) (s : SfsState DirFiles) (reply : Reply) (r : Request) :
    (x.after s reply r).state = s := by
  cases r <;> rfl

end Session

/-- **A request of the client**, with its answer. -/
inductive Serve (L : InodeLayer DirFiles) : Session → Request × Reply → Session → Prop where
  | serve {x : Session} {r : Request} {reply : Reply} {s : SfsState DirFiles}
      (admits : x.Admits r) (run : (r.reply L).run x.state = .done reply s) :
      Serve L x (r, reply) (x.after s reply r)

/-! ## What one request does -/

/-- What a request is asked to meet. -/
def Ledger.Meets (allocate : Fs DirFiles (Option Inode))
    (handsOut : View → UInt64 → UInt64 → Prop) (b : Ledger) : Request → Prop
  | .getattr path => path ≠ [slash] → ∀ name, pathName path = .inr name → b.FreedKeeps name
  | .create .. => b.opened.length + slotsPerSlab < 2 ^ 31 ∧ b.Allocates allocate handsOut
  | .open .. => b.opened.length + slotsPerSlab < 2 ^ 31
  | .opendir .. => b.opened.length + slotsPerSlab < 2 ^ 31
  | _ => True

/-- What a request answers, and which change it makes. -/
def Ledger.Answered (b : Ledger) : Request → Reply → LedgerEvent → Prop
  | .getattr path, .stat a, ev =>
    NameAnswer path (fun ret => (ret, none)) (GetattrAnswer b path) a ev
  | .create _ path _ flags, .handle a, ev =>
    NameAnswer path (fun ret => (ret, none)) (fun name => CreateAnswer b name flags) a ev
  | .unlink path, .code a, ev => NameAnswer path id (UnlinkAnswer b path) a ev
  | .open path _, .handle a, ev =>
    NameAnswer path (fun ret => (ret, none)) (OpenAnswer b) a ev
  | .release fh, .code a, ev => a = 0 ∧ ∃ n k, fh = ofCInt (n : ℕ) ∧ ev = .releases k n
  | .read .., .bytes _, ev => ev = .look ∨ ∃ k, ev = .touches k
  | .write .., .code _, ev => ev = .look ∨ ∃ k, ev = .touches k
  | .opendir .., .handle a, ev => ∃ n : ℕ, a = (0, some (ofCInt n)) ∧ ev = .opensDir n
  | .readdir filler _, .listing a, ev => a.1 = 0 ∧ Lists filler [] b.listing a.2 ∧ ev = .look
  | .releasedir fh, .code a, ev => a = 0 ∧ ∃ n : ℕ, fh = ofCInt n ∧ ev = .closesDir n
  | _, _, _ => False

/-- Which changes a request may make. -/
def Request.may : Request → LedgerEvent → Bool
  | .getattr _, .look => true
  | .create .., .look => true
  | .create .., .opens .. => true
  | .create .., .creates .. => true
  | .create .., .leaks _ => true
  | .unlink _, .look => true
  | .unlink _, .unlinks _ => true
  | .open .., .look => true
  | .open .., .opens .. => true
  | .release _, .releases .. => true
  | .read .., .look => true
  | .read .., .touches _ => true
  | .write .., .look => true
  | .write .., .touches _ => true
  | .opendir .., .opensDir _ => true
  | .readdir .., .look => true
  | .releasedir _, .closesDir _ => true
  | _, _ => false

/-- **The ledger of a session**: the open handles are those that the client remembers. -/
structure Session.Describes (x : Session) (b : Ledger) : Prop where
  books : b.Books x.state
  opened : b.opened.Perm (x.files ++ x.dirs)
  files : ∀ n ∈ x.files, (b.pool.slot n).inumber ≠ 1
  dirs : ∀ n ∈ x.dirs, (b.pool.slot n).inumber = 1

section Step

variable {s s' : SfsState DirFiles} {b b' : Ledger} {x y : Session} {r : Request} {reply : Reply}
  {allocate : Fs DirFiles (Option Inode)} {handsOut : View → UInt64 → UInt64 → Prop}
  {ev : LedgerEvent} {α : Type}

theorem Answers.mono {A : α → LedgerEvent → Prop} {A' : Reply → LedgerEvent → Prop} {a : α}
    {f : α → Reply} (h : Answers handsOut b A a s) (hA : ∀ a ev, A a ev → A' (f a) ev) :
    Answers handsOut b A' (f a) s := by
  obtain ⟨ev, b', hstep, hshows, hpool, hans⟩ := h
  exact ⟨ev, b', hstep, hshows, hpool, hA a ev hans⟩

/-- The answer of a request is its reply. -/
theorem answered_ensures {x : Sfs DirFiles α} {A : α → LedgerEvent → Prop}
    {A' : Reply → LedgerEvent → Prop} {f : α → Reply}
    (h : Run.Ensures x s (Answers handsOut b A)) (hA : ∀ a ev, A a ev → A' (f a) ev) :
    Run.Ensures (x >>= fun a => pure (f a)) s (Answers handsOut b A') :=
  h.bind fun _ _ hans => Run.ensures_pure (hans.mono hA)

theorem answered_permits {x : Sfs DirFiles α} {A : α → LedgerEvent → Prop}
    {A' : Reply → LedgerEvent → Prop} {f : α → Reply}
    (h : Run.Permits x s (Answers handsOut b A)) (hA : ∀ a ev, A a ev → A' (f a) ev) :
    Run.Permits (x >>= fun a => pure (f a)) s (Answers handsOut b A') :=
  h.bind fun _ _ hans => Run.permits_pure (hans.mono hA)

theorem Session.Describes.mem_opened (h : x.Describes b) {n : ℕ} (hn : n ∈ x.files ++ x.dirs) :
    n ∈ b.opened :=
  h.opened.mem_iff.mpr hn

/-- A request other than these may not end. -/
def Request.Transfers : Request → Prop
  | .read .. => True
  | .write .. => True
  | _ => False

/-- **What a request answers**, if it transfers no data. -/
theorem Session.Describes.reply_ensures (h : x.Describes b) (hadmits : x.Admits r)
    (hmeets : b.Meets allocate handsOut r) (hr : ¬ r.Transfers) :
    Run.Ensures (r.reply (loggedLayer allocate)) x.state (Answers handsOut b (b.Answered r)) := by
  have hb := h.books
  cases r with
  | getattr path => exact answered_ensures (sfsGetattr_ensures hb hmeets) fun _ _ => id
  | create context path mode flags =>
    exact answered_ensures
      (sfsCreate_ensures hb hadmits hmeets.1 hmeets.2 context mode) fun _ _ => id
  | unlink path => exact answered_ensures (sfsUnlink_ensures hb) fun _ _ => id
  | «open» path flags =>
    exact answered_ensures (sfsOpen_ensures hb hmeets) fun _ _ => id
  | release fh =>
    obtain ⟨n, hn, rfl⟩ := hadmits
    refine answered_ensures (sfsRelease_ensures hb
      (h.mem_opened (List.mem_append_left _ hn)) rfl (h.files n hn)) ?_
    rintro a ev ⟨rfl, rfl⟩
    exact ⟨rfl, n, _, rfl, rfl⟩
  | read => exact absurd trivial hr
  | write => exact absurd trivial hr
  | opendir path flags =>
    cases (show path = [slash] from hadmits)
    exact answered_ensures (sfsOpendir_ensures hb hmeets) fun _ _ => id
  | readdir filler path =>
    cases (show path = [slash] from hadmits)
    exact answered_ensures (sfsReaddir_ensures hb filler) fun _ _ => id
  | releasedir fh =>
    obtain ⟨n, hn, rfl⟩ := hadmits
    refine answered_ensures (sfsReleasedir_ensures hb
      (h.mem_opened (List.mem_append_right _ hn)) (h.dirs n hn)) ?_
    rintro a ev ⟨rfl, rfl⟩
    exact ⟨rfl, n, rfl, rfl⟩

/-- What any request answers, if it does. -/
theorem Session.Describes.reply_permits (h : x.Describes b) (hadmits : x.Admits r)
    (hmeets : b.Meets allocate handsOut r) :
    Run.Permits (r.reply (loggedLayer allocate)) x.state (Answers handsOut b (b.Answered r)) := by
  have hb := h.books
  by_cases hr : r.Transfers
  · cases r with
    | read memory tmpBlock size offset fh =>
      obtain ⟨n, hn, rfl⟩ := hadmits
      refine answered_permits (sfsRead_permits hb
        (h.mem_opened (List.mem_append_left _ hn)) rfl (h.files n hn)) ?_
      rintro a ev (rfl | rfl)
      · exact Or.inl rfl
      · exact Or.inr ⟨_, rfl⟩
    | write memory tmpBlock size offset fh =>
      obtain ⟨n, hn, rfl⟩ := hadmits
      refine answered_permits (sfsWrite_permits hb
        (h.mem_opened (List.mem_append_left _ hn)) rfl (h.files n hn)) ?_
      rintro a ev (rfl | rfl)
      · exact Or.inl rfl
      · exact Or.inr ⟨_, rfl⟩
    | _ => exact hr.elim
  · exact (h.reply_ensures hadmits hmeets hr).permits

/-- A request of the client gives the mutex back. -/
theorem mu_of_reply (hadmits : x.Admits r) (hmeets : b.Meets allocate handsOut r)
    (h : x.Describes b) (hrun : (r.reply (loggedLayer allocate)).run x.state = .done reply s) :
    s.mu = .unlock :: .lock :: x.state.mu := by
  have hback : ∀ {α : Type} {z : Sfs DirFiles α} {f : α → Reply}, GivesBack z x.state →
      (z >>= fun a => pure (f a)).run x.state = .done reply s →
        s.mu = .unlock :: .lock :: x.state.mu := by
    intro α z f hz hrun
    obtain ⟨a, t, hza, hpure⟩ := Run.bind_eq_done.mp hrun
    cases hpure
    exact hz a _ hza
  cases r with
  | getattr path => exact hback (givesBack_getattr _ _ _) hrun
  | create context path mode flags => exact hback (givesBack_create _ _ _ _ _ _) hrun
  | unlink path => exact hback (givesBack_unlink _ _ _) hrun
  | «open» path flags => exact hback (givesBack_open _ _ _ _) hrun
  | release fh => exact hback (givesBack_release _ _ _) hrun
  | read memory tmpBlock size offset fh => exact hback (givesBack_read _ _ _ _ _ _ _) hrun
  | write memory tmpBlock size offset fh => exact hback (givesBack_write _ _ _ _ _ _ _) hrun
  | opendir path flags =>
    cases (show path = [slash] from hadmits)
    refine hback (fun a t ht => ?_) hrun
    have hopens : Run.Ensures (sfsOpendir (loggedLayer allocate) [slash] flags) x.state
        (Answers handsOut b fun r ev => ∃ n : ℕ, r = (0, some (ofCInt n)) ∧ ev = .opensDir n) :=
      sfsOpendir_ensures h.books hmeets
    obtain ⟨ev, b', -, -, -, n, rfl, -⟩ := hopens.post ht
    exact (mu_of_opendir ht).resolve_right fun hfile => nomatch hfile.1
  | readdir filler path => exact hback (givesBack_readdir _ _ _ _) hrun
  | releasedir fh => exact hback (givesBack_releasedir _ _) hrun

end Step

/-! ## The handles of a session -/

/-- What became of the handles. -/
def HandlesAfter (b b' : Ledger) : LedgerEvent → Prop
  | .opens k n => HandleOpened b.pool b'.pool b.opened n k ∧ b'.opened = n :: b.opened ∧ k ≠ 1
  | .creates _ k n =>
    HandleOpened b.pool b'.pool b.opened n k ∧ b'.opened = n :: b.opened ∧ k ≠ 1
  | .opensDir n => HandleOpened b.pool b'.pool b.opened n 1 ∧ b'.opened.Perm (n :: b.opened)
  | .releases k n => HandleClosed b.pool b'.pool b.opened n ∧ b'.opened = b.opened.erase n ∧
      (b.pool.slot n).inumber = k ∧ k ≠ 1
  | .closesDir n => HandleClosed b.pool b'.pool b.opened n ∧ b'.opened = b.opened.erase n ∧
      (b.pool.slot n).inumber = 1
  | _ => b'.pool = b.pool ∧ b'.opened = b.opened

theorem LedgerStep.handles {b b' : Ledger} {ev : LedgerEvent}
    {handsOut : View → UInt64 → UInt64 → Prop} (hb : b.Balanced)
    (h : LedgerStep handsOut b ev b') : HandlesAfter b b' ev := by
  cases h with
  | look => exact ⟨rfl, rfl⟩
  | opens root named added handle =>
    obtain ⟨e, he, rfl⟩ := List.mem_map.mp named
    exact ⟨handle, rfl, (hb.files e he).1⟩
  | creates root fills fresh nonempty stored unused sets handed deallocated handle =>
    exact ⟨handle, rfl, unused.notRoot⟩
  | leaks => exact ⟨rfl, rfl⟩
  | unlinks => exact ⟨rfl, rfl⟩
  | releases root inumber notRoot dropped handle => exact ⟨handle, rfl, inumber, notRoot⟩
  | touches => exact ⟨rfl, rfl⟩
  | opensDir root touched handle perm => exact ⟨handle, perm⟩
  | closesDir root inumber unlinked handle => exact ⟨handle, rfl, inumber⟩

namespace Session.Describes

variable {x : Session} {b b' : Ledger} {s : SfsState DirFiles} {n : ℕ} {k : UInt64}

/-- The handles are left alone. -/
theorem same (h : x.Describes b) (hbooks : b'.Books s) (hpool : b'.pool = b.pool)
    (hopened : b'.opened = b.opened) : Describes ⟨s, x.files, x.dirs⟩ b' where
  books := hbooks
  opened := by rw [hopened]; exact h.opened
  files m hm := by rw [hpool]; exact h.files m hm
  dirs m hm := by rw [hpool]; exact h.dirs m hm

/-- The handles of the client are as they were, after another was opened. -/
theorem slot_of_opened (h : x.Describes b) (hhandle : HandleOpened b.pool b'.pool b.opened n k)
    {m : ℕ} (hm : m ∈ x.files ++ x.dirs) : b'.pool.slot m = b.pool.slot m :=
  hhandle.others m (h.mem_opened hm)

theorem openFile (h : x.Describes b) (hbooks : b'.Books s)
    (hhandle : HandleOpened b.pool b'.pool b.opened n k) (hopened : b'.opened = n :: b.opened)
    (hk1 : k ≠ 1) : Describes ⟨s, n :: x.files, x.dirs⟩ b' where
  books := hbooks
  opened := by rw [hopened]; exact h.opened.cons n
  files m hm := by
    rcases List.mem_cons.mp hm with rfl | hm
    · rw [hhandle.inumber]
      exact hk1
    · rw [h.slot_of_opened hhandle (List.mem_append_left _ hm)]
      exact h.files m hm
  dirs m hm := by
    rw [h.slot_of_opened hhandle (List.mem_append_right _ hm)]
    exact h.dirs m hm

theorem openDir (h : x.Describes b) (hbooks : b'.Books s)
    (hhandle : HandleOpened b.pool b'.pool b.opened n 1)
    (hopened : b'.opened.Perm (n :: b.opened)) :
    Describes ⟨s, x.files, n :: x.dirs⟩ b' where
  books := hbooks
  opened := hopened.trans ((h.opened.cons n).trans List.perm_middle.symm)
  files m hm := by
    rw [h.slot_of_opened hhandle (List.mem_append_left _ hm)]
    exact h.files m hm
  dirs m hm := by
    rcases List.mem_cons.mp hm with rfl | hm
    · exact hhandle.inumber
    · rw [h.slot_of_opened hhandle (List.mem_append_right _ hm)]
      exact h.dirs m hm

theorem nodup (h : x.Describes b) : (x.files ++ x.dirs).Nodup :=
  h.opened.nodup_iff.mp h.books.balanced.nodup

theorem closeFile (h : x.Describes b) (hbooks : b'.Books s)
    (hhandle : HandleClosed b.pool b'.pool b.opened n) (hopened : b'.opened = b.opened.erase n)
    (hn1 : (b.pool.slot n).inumber ≠ 1) : Describes ⟨s, x.files.erase n, x.dirs⟩ b' := by
  have hdirs : n ∉ x.dirs := fun hn => hn1 (h.dirs n hn)
  have hfiles : n ∈ x.files :=
    (List.mem_append.mp (h.opened.mem_iff.mp hhandle.mem)).resolve_right hdirs
  have hnodup := (List.nodup_append.mp h.nodup).1
  refine ⟨hbooks, ?_, fun m hm => ?_, fun m hm => ?_⟩
  · rw [hopened, ← List.erase_append_left _ hfiles]
    exact h.opened.erase n
  · obtain ⟨hmn, hm⟩ := hnodup.mem_erase_iff.mp hm
    rw [hhandle.others m (h.mem_opened (List.mem_append_left _ hm)) hmn]
    exact h.files m hm
  · have hmn : m ≠ n := fun e => hdirs (e ▸ hm)
    rw [hhandle.others m (h.mem_opened (List.mem_append_right _ hm)) hmn]
    exact h.dirs m hm

theorem closeDir (h : x.Describes b) (hbooks : b'.Books s)
    (hhandle : HandleClosed b.pool b'.pool b.opened n) (hopened : b'.opened = b.opened.erase n)
    (hn1 : (b.pool.slot n).inumber = 1) : Describes ⟨s, x.files, x.dirs.erase n⟩ b' := by
  have hfiles : n ∉ x.files := fun hn => h.files n hn hn1
  have hnodup := (List.nodup_append.mp h.nodup).2.1
  refine ⟨hbooks, ?_, fun m hm => ?_, fun m hm => ?_⟩
  · rw [hopened, ← List.erase_append_right _ hfiles]
    exact h.opened.erase n
  · have hmn : m ≠ n := fun e => hfiles (e ▸ hm)
    rw [hhandle.others m (h.mem_opened (List.mem_append_left _ hm)) hmn]
    exact h.files m hm
  · obtain ⟨hmn, hm⟩ := hnodup.mem_erase_iff.mp hm
    rw [hhandle.others m (h.mem_opened (List.mem_append_right _ hm)) hmn]
    exact h.dirs m hm

end Session.Describes

section After

variable {x y : Session} {b b' : Ledger} {s : SfsState DirFiles} {r : Request} {reply : Reply}
  {ev : LedgerEvent} {handsOut : View → UInt64 → UInt64 → Prop} {n : ℕ} {k : UInt64}

theorem Ledger.Balanced.fd_of_opened (h : b.Balanced) (hn : n ∈ b.opened) :
    (toCInt (ofCInt n)).toNat = n := by
  obtain ⟨free, hhandles⟩ := h.pool
  rw [toCInt_ofCInt (Nat.lt_trans (hhandles.lt_of_opened hn) hhandles.small), Int.toNat_natCast]

/-- What a client knows of the handle that it is given. -/
theorem handles_of_opened (h : b'.Balanced) (hopened : b'.opened.Perm (n :: b.opened)) :
    Reply.handles (.handle (0, some (ofCInt n))) = [n] := by
  have hn : n ∈ b'.opened := hopened.mem_iff.mpr List.mem_cons_self
  rw [Reply.handles, h.fd_of_opened hn]

/-- What a name answers is what the path does, or the name. -/
theorem NameAnswer.elim {α : Type} {path : CString} {fails : ℤ → α}
    {A : CString → α → LedgerEvent → Prop} {a : α} (h : NameAnswer path fails A a ev) :
    (∃ ret, a = fails ret ∧ ev = .look) ∨ ∃ name, pathName path = .inr name ∧ A name a ev := by
  unfold NameAnswer at h
  cases hpath : pathName path with
  | inl ret =>
    rw [hpath] at h
    exact Or.inl ⟨ret, h⟩
  | inr name =>
    rw [hpath] at h
    exact Or.inr ⟨name, rfl, h⟩

theorem Ledger.Answered.may (h : b.Answered r reply ev) : r.may ev = true := by
  cases r with
  | getattr path =>
    cases reply with
    | stat a =>
      obtain ⟨ret, -, rfl⟩ | ⟨name, -, ⟨-, -, rfl⟩ | ⟨-, -, -, rfl⟩ | ⟨-, e, -, -, -, rfl⟩⟩ :=
        NameAnswer.elim h
      all_goals rfl
    | _ => exact h.elim
  | create context path mode flags =>
    cases reply with
    | handle a =>
      obtain ⟨ret, -, rfl⟩ | ⟨name, -, ⟨e, -, -, -, -, rfl⟩ | ⟨e, n, -, -, -, -, rfl⟩ |
        ⟨-, -, rfl⟩ | ⟨-, -, k, rfl⟩ | ⟨-, k, n, -, rfl⟩⟩ := NameAnswer.elim h
      all_goals rfl
    | _ => exact h.elim
  | unlink path =>
    cases reply with
    | code a =>
      obtain ⟨ret, -, rfl⟩ | ⟨name, -, ⟨-, -, rfl⟩ | ⟨-, -, -, rfl⟩ | ⟨-, e, -, -, -, rfl⟩⟩ :=
        NameAnswer.elim h
      all_goals rfl
    | _ => exact h.elim
  | «open» path flags =>
    cases reply with
    | handle a =>
      obtain ⟨ret, -, rfl⟩ | ⟨name, -, ⟨-, -, rfl⟩ | ⟨e, n, -, -, -, rfl⟩⟩ := NameAnswer.elim h
      all_goals rfl
    | _ => exact h.elim
  | release fh =>
    cases reply with
    | code a =>
      obtain ⟨-, n, k, -, rfl⟩ := h
      rfl
    | _ => exact h.elim
  | read memory tmpBlock size offset fh =>
    cases reply with
    | bytes a =>
      obtain rfl | ⟨k, rfl⟩ := h
      all_goals rfl
    | _ => exact h.elim
  | write memory tmpBlock size offset fh =>
    cases reply with
    | code a =>
      obtain rfl | ⟨k, rfl⟩ := h
      all_goals rfl
    | _ => exact h.elim
  | opendir path flags =>
    cases reply with
    | handle a =>
      obtain ⟨n, -, rfl⟩ := h
      rfl
    | _ => exact h.elim
  | readdir filler path =>
    cases reply with
    | listing a =>
      obtain ⟨-, -, rfl⟩ := h
      rfl
    | _ => exact h.elim
  | releasedir fh =>
    cases reply with
    | code a =>
      obtain ⟨-, n, -, rfl⟩ := h
      rfl
    | _ => exact h.elim

/-- A request of another kind leaves the handles alone. -/
theorem HandlesAfter.same (h : HandlesAfter b b' ev) (hmay : r.may ev = true)
    (hr : match r with
      | .getattr _ | .unlink _ | .read .. | .write .. | .readdir .. => True
      | _ => False) : b'.pool = b.pool ∧ b'.opened = b.opened := by
  cases r <;> cases ev <;> first | exact h | exact hr.elim | exact nomatch hmay

/-- A request for a handle of a file gave one, or changed none. -/
theorem Session.Describes.afterOpen (h : x.Describes b) (hbooks : b'.Books s)
    (hafter : HandlesAfter b b' ev) {a : ℤ × Option UInt64}
    (hans : (∃ k n, a = (0, some (ofCInt (n : ℕ))) ∧
      (ev = .opens k n ∨ ∃ name, ev = .creates name k n)) ∨
      ∃ ret, a = (ret, none) ∧ (ev = .look ∨ ∃ k, ev = .leaks k)) :
    Session.Describes ⟨s, Reply.handles (.handle a) ++ x.files, x.dirs⟩ b' := by
  obtain ⟨k, n, rfl, hev⟩ | ⟨ret, rfl, hev⟩ := hans
  · obtain ⟨hhandle, hopened, hk1⟩ :
        HandleOpened b.pool b'.pool b.opened n k ∧ b'.opened = n :: b.opened ∧ k ≠ 1 := by
      obtain rfl | ⟨name, rfl⟩ := hev <;> exact hafter
    rw [handles_of_opened hbooks.balanced (List.Perm.of_eq hopened)]
    exact h.openFile hbooks hhandle hopened hk1
  · obtain ⟨hpool, hopened⟩ : b'.pool = b.pool ∧ b'.opened = b.opened := by
      obtain rfl | ⟨k, rfl⟩ := hev <;> exact hafter
    exact h.same hbooks hpool hopened

/-- **The session after a request** has the handles of the ledger after it. -/
theorem Session.Describes.after (h : x.Describes b) (hbooks : b'.Books s)
    (hstep : LedgerStep handsOut b ev b') (hans : b.Answered r reply ev) :
    (x.after s reply r).Describes b' := by
  have hafter := hstep.handles h.books.balanced
  have hsame := hafter.same (Ledger.Answered.may hans)
  cases r with
  | getattr path => exact h.same hbooks (hsame trivial).1 (hsame trivial).2
  | unlink path => exact h.same hbooks (hsame trivial).1 (hsame trivial).2
  | read memory tmpBlock size offset fh => exact h.same hbooks (hsame trivial).1 (hsame trivial).2
  | write memory tmpBlock size offset fh => exact h.same hbooks (hsame trivial).1 (hsame trivial).2
  | readdir filler path => exact h.same hbooks (hsame trivial).1 (hsame trivial).2
  | create context path mode flags =>
    cases reply with
    | handle a =>
      refine h.afterOpen hbooks hafter ?_
      obtain ⟨ret, rfl, rfl⟩ | ⟨name, -, ⟨e, -, -, -, rfl, rfl⟩ | ⟨e, n, -, -, -, rfl, rfl⟩ |
        ⟨-, rfl, rfl⟩ | ⟨-, rfl, k, rfl⟩ | ⟨-, k, n, rfl, rfl⟩⟩ := NameAnswer.elim hans
      · exact Or.inr ⟨_, rfl, Or.inl rfl⟩
      · exact Or.inr ⟨_, rfl, Or.inl rfl⟩
      · exact Or.inl ⟨_, n, rfl, Or.inl rfl⟩
      · exact Or.inr ⟨_, rfl, Or.inl rfl⟩
      · exact Or.inr ⟨_, rfl, Or.inr ⟨k, rfl⟩⟩
      · exact Or.inl ⟨k, n, rfl, Or.inr ⟨name, rfl⟩⟩
    | _ => exact hans.elim
  | «open» path flags =>
    cases reply with
    | handle a =>
      refine h.afterOpen hbooks hafter ?_
      obtain ⟨ret, rfl, rfl⟩ | ⟨name, -, ⟨-, rfl, rfl⟩ | ⟨e, n, -, -, rfl, rfl⟩⟩ :=
        NameAnswer.elim hans
      · exact Or.inr ⟨_, rfl, Or.inl rfl⟩
      · exact Or.inr ⟨_, rfl, Or.inl rfl⟩
      · exact Or.inl ⟨_, n, rfl, Or.inl rfl⟩
    | _ => exact hans.elim
  | release fh =>
    cases reply with
    | code a =>
      obtain ⟨rfl, n, k, rfl, rfl⟩ := hans
      obtain ⟨hhandle, hopened, rfl, hk1⟩ := hafter
      have hfd := h.books.balanced.fd_of_opened hhandle.mem
      have hclosed := h.closeFile hbooks hhandle hopened hk1
      rw [← hfd] at hclosed
      exact hclosed
    | _ => exact hans.elim
  | opendir path flags =>
    cases reply with
    | handle a =>
      obtain ⟨n, rfl, rfl⟩ := hans
      obtain ⟨hhandle, hopened⟩ := hafter
      have hopen := h.openDir hbooks hhandle hopened
      rw [← List.singleton_append, ← handles_of_opened hbooks.balanced hopened] at hopen
      exact hopen
    | _ => exact hans.elim
  | releasedir fh =>
    cases reply with
    | code a =>
      obtain ⟨rfl, n, rfl, rfl⟩ := hans
      obtain ⟨hhandle, hopened, hn1⟩ := hafter
      have hfd := h.books.balanced.fd_of_opened hhandle.mem
      have hclosed := h.closeDir hbooks hhandle hopened hn1
      rw [← hfd] at hclosed
      exact hclosed
    | _ => exact hans.elim

/-- **A request of the client** is a change of the ledger. -/
theorem Serve.ledger {allocate : Fs DirFiles (Option Inode)} (h : x.Describes b)
    (hmeets : b.Meets allocate handsOut r) (hserve : Serve (loggedLayer allocate) x (r, reply) y) :
    ∃ ev b', LedgerStep handsOut b ev b' ∧ y.Describes b' ∧ b.Answered r reply ev := by
  cases hserve with
  | @serve _ _ s admits run =>
    have hanswers : Answers handsOut b (b.Answered r) reply s :=
      h.reply_permits admits hmeets reply s run
    obtain ⟨ev, b', hstep, hshows, hpool, hans⟩ := hanswers
    have hidle : ¬ s.Locked := by
      rw [SfsState.Locked, mu_of_reply admits hmeets h run]
      exact fun e => absurd (Option.some.inj e) (by decide)
    have hbooks : b'.Books s := ⟨hidle, hshows, hpool, hstep.balanced h.books.balanced⟩
    exact ⟨ev, b', hstep, h.after hbooks hstep hans, hans⟩

end After

/-! ## What a session looks like -/

/-- The slots of the root directory. -/
def Filesystem.rootSlots (fs : Filesystem DirFiles) : List DirEntry :=
  (List.range ((fs.logicalInode 1).size.toNat / 512)).map (fs.view.slot 1)

/-- The memory of a closed iterator still holds the inode number of the entry with the
name. -/
def Filesystem.FreedKeeps (fs : Filesystem DirFiles) (name : CString) : Prop :=
  ∀ i e, fs.rootSlots[i]? = some e → e.inumber ≠ 0 → cString e.name = name →
    (Block.dirEntry (fs.host.freed 0 (fs.files.blocks 1 (UInt64.ofNat i))) 0).inumber = e.inumber

theorem rootSlots_eq {fs : Filesystem DirFiles} {w : View} {slots : List DirEntry}
    (h : Shows fs w) (hroot : RootDir w slots) : fs.rootSlots = slots := by
  have hsize : (fs.logicalInode 1).size.toNat / 512 = slots.length := by
    rw [h.table 1 hroot.valid, hroot.size, Nat.mul_div_cancel_left _ (by decide)]
  rw [Filesystem.rootSlots, hsize]
  refine List.ext_getElem (by simp) fun i _ hi => ?_
  have hslot : fs.view.slot 1 i = w.slot 1 i := by
    rw [View.slot, View.slot, ← h.files]
    rfl
  rw [List.getElem_map, List.getElem_range, hslot, hroot.slot i hi]

/-- **The condition on a request**: `sfs_getattr` finds the memory that it freed as it was, and
the numbers of the handles are those of an `int`. -/
def Session.Careful (x : Session) : Request → Prop
  | .getattr path =>
    path ≠ [slash] → ∀ name, pathName path = .inr name → x.state.fs.FreedKeeps name
  | .create .. => x.files.length + x.dirs.length + slotsPerSlab < 2 ^ 31
  | .open .. => x.files.length + x.dirs.length + slotsPerSlab < 2 ^ 31
  | .opendir .. => x.files.length + x.dirs.length + slotsPerSlab < 2 ^ 31
  | _ => True

/-- What a `sfs_create` is asked to find. -/
def Ledger.MayCreate (allocate : Fs DirFiles (Option Inode))
    (handsOut : View → UInt64 → UInt64 → Prop) (b : Ledger) : Request → Prop
  | .create .. => b.Allocates allocate handsOut
  | _ => True

section Conditions

variable {x y : Session} {b : Ledger} {r : Request} {reply : Reply}
  {allocate : Fs DirFiles (Option Inode)} {handsOut : View → UInt64 → UInt64 → Prop}

theorem Session.Describes.slots (h : x.Describes b) : x.state.fs.rootSlots = b.slots :=
  rootSlots_eq h.books.shows h.books.balanced.root

theorem Session.Describes.freedKeeps (h : x.Describes b) {name : CString}
    (hfreed : x.state.fs.FreedKeeps name) : b.FreedKeeps name := by
  intro A e B i hslots hi hused hname
  have hroot := h.books.balanced.root
  have hofNat : UInt64.ofNat A.length = i := by rw [← hi, UInt64.ofNat_toNat]
  have hkeeps := hfreed A.length e (by rw [h.slots, hslots]; simp) hused hname
  rw [hofNat, h.books.shows.freed, h.books.shows.files] at hkeeps
  exact hkeeps

/-- The conditions are what the specifications ask for. -/
theorem Session.Describes.meets (h : x.Describes b) (hcareful : x.Careful r)
    (hcreate : b.MayCreate allocate handsOut r) : b.Meets allocate handsOut r := by
  have hlength := h.opened.length_eq
  rw [List.length_append] at hlength
  cases r with
  | getattr path => exact fun hpath name hname => h.freedKeeps (hcareful hpath name hname)
  | create context path mode flags =>
    rw [Session.Careful, ← hlength] at hcareful
    exact ⟨hcareful, hcreate⟩
  | «open» path flags =>
    rw [Session.Careful, ← hlength] at hcareful
    exact hcareful
  | opendir path flags =>
    rw [Session.Careful, ← hlength] at hcareful
    exact hcareful
  | _ => trivial

end Conditions

/-- **Where a session starts**: nothing is open, and the root directory is empty. -/
structure Session.Fresh (x : Session) : Prop where
  idle : ¬ x.state.Locked
  inodes : InodeState x.state.fs
  memory : ∀ i, x.state.fs.host.mallocs i = true
  valid : x.state.fs.superblock.ValidInumber 1
  inumber : (x.state.fs.logicalInode 1).inumber = 1
  directory : (x.state.fs.logicalInode 1).mode &&& sIfdir ≠ 0
  size : (x.state.fs.logicalInode 1).size.toNat = 512 * x.state.fs.rootSlots.length
  mapped : x.state.fs.rootSlots.length ≤ mappedBlocks
  empty : live x.state.fs.rootSlots = []
  pool : ∃ free, x.state.fdPool.Handles [] free
  files : x.files = []
  dirs : x.dirs = []

/-- The ledger that it starts with. -/
def Session.ledger (x : Session) : Ledger :=
  ⟨x.state.fs.view, x.state.fs.rootSlots, x.state.fdPool, []⟩

namespace Session.Fresh

variable {x : Session}

theorem refs (h : x.Fresh) (k : UInt64) : x.ledger.refs k = 0 := by
  rw [Ledger.refs, Ledger.named, Ledger.held, Session.ledger]
  dsimp only
  rw [h.empty]
  rfl

theorem root (h : x.Fresh) : RootDir x.state.fs.view x.state.fs.rootSlots where
  valid := ⟨h.valid.1, h.valid.2, by decide⟩
  inumber := h.inumber
  directory := h.directory
  size := h.size
  mapped := h.mapped
  slot i hi := by simp [Filesystem.rootSlots]

/-- **The ledger describes it.** -/
theorem describes (h : x.Fresh) : x.Describes x.ledger where
  books := by
    refine ⟨h.idle, ⟨looks_view h.inodes, h.memory⟩, rfl, h.root, ?_, fun e he => ?_, h.pool,
      fun k hk => ?_, fun k _ hk => ?_⟩
    · show ((live x.state.fs.rootSlots).map _).Nodup
      rw [h.empty]
      exact List.nodup_nil
    · rw [Session.ledger, h.empty] at he
      exact absurd he List.not_mem_nil
    · exact absurd (h.refs k) (Nat.pos_iff_ne_zero.mp hk)
    · exact absurd (h.refs k) (Nat.pos_iff_ne_zero.mp hk)
  opened := by
    rw [h.files, h.dirs]
    exact List.Perm.refl _
  files n hn := by
    rw [h.files] at hn
    exact absurd hn List.not_mem_nil
  dirs n hn := by
    rw [h.dirs] at hn
    exact absurd hn List.not_mem_nil

end Session.Fresh

/-! ## A session to start from -/

section Sample

variable {F : Type} {fs : Filesystem F} {l : List Inode}

/-- Inodes put into their places on the disk. -/
def Filesystem.putInodes (fs : Filesystem F) (l : List Inode) : Filesystem F :=
  l.foldr (fun v fs => fs.putInode v) fs

theorem inodeState_putInodes (h : InodeState fs) (hcached : fs.cachedBlock = 0)
    (hl : ∀ v ∈ l, fs.superblock.ValidInumber v.inumber) :
    InodeState (fs.putInodes l) ∧ (fs.putInodes l).cachedBlock = 0 ∧
      (fs.putInodes l).superblock = fs.superblock := by
  induction l with
  | nil => exact ⟨h, hcached, rfl⟩
  | cons v l ih =>
    obtain ⟨hstate, hcached', hsuperblock⟩ := ih fun u hu => hl u (List.mem_cons_of_mem v hu)
    have hvalid : (fs.putInodes l).superblock.ValidInumber v.inumber := by
      rw [hsuperblock]
      exact hl v List.mem_cons_self
    exact ⟨inodeState_putInode hstate hcached' hvalid, hcached', hsuperblock⟩

/-- **The inodes that were put there** are what there is. -/
theorem logicalInode_putInodes (h : InodeState fs) (hcached : fs.cachedBlock = 0)
    (hl : ∀ v ∈ l, fs.superblock.ValidInumber v.inumber) (hnodup : (l.map Inode.inumber).Nodup)
    {v : Inode} (hv : v ∈ l) : (fs.putInodes l).logicalInode v.inumber = v := by
  induction l with
  | nil => exact absurd hv List.not_mem_nil
  | cons u l ih =>
    obtain ⟨hu, hnodup⟩ := List.nodup_cons.mp hnodup
    have hl' : ∀ v ∈ l, fs.superblock.ValidInumber v.inumber := fun v hv =>
      hl v (List.mem_cons_of_mem u hv)
    obtain ⟨hstate, hcached', hsuperblock⟩ := inodeState_putInodes h hcached hl'
    have huvalid : (fs.putInodes l).superblock.ValidInumber u.inumber := by
      rw [hsuperblock]
      exact hl u List.mem_cons_self
    rcases List.mem_cons.mp hv with rfl | hv
    · exact logicalInode_putInode hcached' huvalid
    · have hne : v.inumber ≠ u.inumber := fun e => hu (e ▸ List.mem_map_of_mem hv)
      exact (logicalInode_putInode_of_ne hstate hcached' huvalid (hl' v hv).1 hne).trans
        (ih hl' hnodup hv)

end Sample

/-- The superblock of a disk of eight blocks, two of them for inodes, with four inodes. -/
def fourInodes : Superblock :=
  { oneFreeBlock with inodeTableBlocks := 2, inodes := 4, freeBlocksHead := 0 }

/-- A free inode, and the next one. -/
def freeInode (k next : UInt64) : Inode :=
  { Inode.zero with inumber := k, size := next }

/-- The inodes: an empty root directory, and the others free. -/
def freshInodes : List Inode :=
  [{ emptyDirectory 1 with links := 1 }, freeInode 2 3, freeInode 3 4, freeInode 4 0]

/-- A disk with these. -/
def freshDisk : Filesystem DirFiles :=
  (Filesystem.blank fourInodes ⟨fun _ _ => Block.zero, []⟩).putInodes freshInodes

/-- The disk, on a host that leaves the same bytes in all memory that is freed. -/
def freshFilesystem (freed : Block) : Filesystem DirFiles :=
  freshDisk.onHost { Host.quiet with freed := fun _ _ => freed }

/-- A session with it, before the first request. -/
def freshSession (freed : Block) : Session where
  state := ⟨[], sfsFiledescriptorPoolInit, freshFilesystem freed⟩
  files := []
  dirs := []

section Fresh

theorem inodeState_fourInodes {F : Type} {files : F} :
    InodeState (Filesystem.blank fourInodes files) where
  reliable := reliable_blank (by decide) (by decide)
  table := by
    have hle : fourInodes.inodes.toNat ≤ 3 * fourInodes.inodeTableBlocks.toNat := by decide
    have hlt : fourInodes.inodeTableBlocks < fourInodes.blocks := by decide
    exact ⟨hle, hlt⟩
  cache := ⟨Or.inl rfl, fun _ => rfl, fun h => absurd rfl h⟩

theorem valid_freshInodes : ∀ v ∈ freshInodes, fourInodes.ValidInumber v.inumber := by
  intro v hv
  simp only [freshInodes, List.mem_cons, List.not_mem_nil, or_false] at hv
  obtain rfl | rfl | rfl | rfl := hv <;> constructor <;> decide

theorem freshDisk_spec : InodeState freshDisk ∧ freshDisk.superblock = fourInodes ∧
    ∀ v ∈ freshInodes, freshDisk.logicalInode v.inumber = v := by
  have hstate : InodeState (Filesystem.blank fourInodes (⟨fun _ _ => Block.zero, []⟩ : DirFiles)) :=
    inodeState_fourInodes
  obtain ⟨h, -, hsuperblock⟩ := inodeState_putInodes hstate rfl valid_freshInodes
  exact ⟨h, hsuperblock, fun v hv =>
    logicalInode_putInodes hstate rfl valid_freshInodes (by decide) hv⟩

variable (freed : Block)

theorem inodeState_freshFilesystem : InodeState (freshFilesystem freed) :=
  ((looks_view freshDisk_spec.1).of_host { Host.quiet with freed := fun _ _ => freed }
    (funext fun i => (freshDisk_spec.1.reliable.noFaults i).symm)).state

theorem logicalInode_freshFilesystem {v : Inode} (hv : v ∈ freshInodes) :
    (freshFilesystem freed).logicalInode v.inumber = v := by
  rw [freshFilesystem, onHost_logicalInode]
  exact freshDisk_spec.2.2 v hv

/-- The inode of the root directory. -/
theorem root_freshFilesystem :
    (freshFilesystem freed).logicalInode 1 = { emptyDirectory 1 with links := 1 } :=
  logicalInode_freshFilesystem freed (v := { emptyDirectory 1 with links := 1 }) List.mem_cons_self

/-- A free inode of that disk. -/
theorem logicalInode_freeInode {k next : UInt64} (h : freeInode k next ∈ freshInodes) :
    (freshFilesystem freed).logicalInode k = freeInode k next := by
  have hlogical := logicalInode_freshFilesystem freed h
  have hinumber : (freeInode k next).inumber = k := rfl
  rw [hinumber] at hlogical
  exact hlogical

theorem rootSlots_freshFilesystem : (freshFilesystem freed).rootSlots = [] := by
  have hsize : ((freshFilesystem freed).logicalInode 1).size = 0 :=
    congrArg Inode.size (root_freshFilesystem freed)
  rw [Filesystem.rootSlots, hsize]
  rfl

theorem superblock_freshFilesystem : (freshFilesystem freed).superblock = fourInodes := by
  rw [freshFilesystem, onHost_superblock]
  exact freshDisk_spec.2.1

/-- **It is a session to start from.** -/
theorem fresh_freshSession : (freshSession freed).Fresh where
  idle hlocked := absurd hlocked (Option.some_ne_none _ ∘ Eq.symm)
  inodes := inodeState_freshFilesystem freed
  memory _ := rfl
  valid := by
    show (freshFilesystem freed).superblock.ValidInumber 1
    rw [superblock_freshFilesystem]
    constructor <;> decide
  inumber := congrArg Inode.inumber (root_freshFilesystem freed)
  directory := by
    show ((freshFilesystem freed).logicalInode 1).mode &&& sIfdir ≠ 0
    rw [root_freshFilesystem]
    decide
  size := by
    show ((freshFilesystem freed).logicalInode 1).size.toNat =
      512 * (freshFilesystem freed).rootSlots.length
    rw [root_freshFilesystem, rootSlots_freshFilesystem]
    rfl
  mapped := by
    show (freshFilesystem freed).rootSlots.length ≤ mappedBlocks
    rw [rootSlots_freshFilesystem]
    exact Nat.zero_le _
  empty := by
    show live (freshFilesystem freed).rootSlots = []
    rw [rootSlots_freshFilesystem]
    rfl
  pool := ⟨_, handles_init⟩
  files := rfl
  dirs := rfl

end Fresh

end SimpleFileSystem
