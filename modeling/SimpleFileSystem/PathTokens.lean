import SimpleFileSystem.Paths

/-!
# `createTokens`

`createTokens` is to split a path into a slash and its components.  It collects the bytes of
a component in a buffer of 256 bytes and copies it to a new token when the component ends:
at the next slash, where the string is terminated and the buffer cleared afterwards, and
once more after the last byte, where it is not.  So three things go wrong.

* The memory of a token is `sizeof(strlen(currentDir))` bytes, which are 8 whatever the
  string is.
* The string of the only component of a path ends where the buffer happened to hold a zero,
  because it was not cleared before.
* For the path `/` there is a second token, of whatever the buffer held.

`tokens_split_path_iff` is that nothing else does.
-/

namespace SimpleFileSystem

/-! ## The function -/

/-- What is undefined in C about a run of `createTokens`. -/
inductive TokenFault where
  /-- An access of `currentDir` outside its 256 bytes. -/
  | currentDir
  /-- A byte stored outside the memory of a token. -/
  | token
  /-- `currToken` is null. -/
  | currToken
  /-- The `int` with the position in the path overflows. -/
  | position
  deriving DecidableEq

/-- The variables of `createTokens`.  As long as there is no token `currToken` is null. -/
structure TokenScan where
  currentDir : Fin 256 → UInt8
  currDirIndex : ℕ
  tokens : List CString

namespace TokenScan

/-- `currentDir[currDirIndex] = b` -/
def store (s : TokenScan) (b : UInt8) : Except TokenFault TokenScan :=
  if h : s.currDirIndex < 256 then
    .ok { s with currentDir := Function.update s.currentDir ⟨s.currDirIndex, h⟩ b }
  else .error .currentDir

/-- A new token with the string in `currentDir`: `strlen` and `strcpy` run up to a zero, and
`malloc(sizeof(strlen(currentDir)))` returns 8 bytes. -/
def push (s : TokenScan) : Except TokenFault TokenScan :=
  if s.tokens = [] then .error .currToken
  else if ¬ (cString s.currentDir).length < 256 then .error .currentDir
  else if ¬ (cString s.currentDir).length + 1 ≤ 8 then .error .token
  else .ok { s with tokens := s.tokens ++ [cString s.currentDir] }

/-- One iteration of the loop, for the byte `b` at position `i`. -/
def step (s : TokenScan) (i : ℕ) (b : UInt8) : Except TokenFault TokenScan :=
  if i = 0 ∧ b = slash then .ok { s with tokens := [[slash]] }
  else if b = slash then do
    let s ← s.store 0
    let s ← s.push
    return { s with currDirIndex := 0, currentDir := fun _ => 0 }
  else do
    let s ← s.store b
    return { s with currDirIndex := s.currDirIndex + 1 }

/-- The loop from position `i` on. -/
def loop (s : TokenScan) (i : ℕ) : CString → Except TokenFault TokenScan
  | [] => .ok s
  | b :: path => do
    let s ← s.step i b
    if i + 1 = 2 ^ 31 then .error .position
    else s.loop (i + 1) path

/-- The rest of the function after position `i`: the loop, and the last token. -/
def finish (s : TokenScan) (i : ℕ) (path : CString) : Except TokenFault (List CString) := do
  let s ← s.loop i path
  let s ← s.push
  return s.tokens

end TokenScan

/-- `createTokens`, when all calls of `malloc` return memory: the strings of the list.  The
bytes of `currentDir` at the entry are those of fresh memory. -/
def createTokens (currentDir : Fin 256 → UInt8) (path : CString) :
    Except TokenFault (List CString) :=
  TokenScan.finish ⟨currentDir, 0, []⟩ 0 path

/-! ## Paths -/

/-- The bytes of a path after the root. -/
def joinNames (names : List CString) : CString :=
  names.flatMap (slash :: ·)

/-- **The path with these components.** -/
def pathOf (names : List CString) : CString :=
  if names = [] then [slash] else joinNames names

/-! ## The buffer -/

/-- The buffer with a word at its beginning. -/
def filled (base : Fin 256 → UInt8) (w : CString) (i : Fin 256) : UInt8 :=
  if h : (i : ℕ) < w.length then w[i] else base i

section Buffer

variable {base : Fin 256 → UInt8} {w : CString}

theorem filled_nil (base : Fin 256 → UInt8) : filled base [] = base := by
  funext i
  exact dif_neg (Nat.not_lt_zero _)

/-- A byte after the word. -/
theorem update_filled (h : w.length < 256) (b : UInt8) :
    Function.update (filled base w) ⟨w.length, h⟩ b = filled base (w ++ [b]) := by
  funext i
  by_cases hi : i = ⟨w.length, h⟩
  · subst hi
    rw [Function.update_self, filled, dif_pos (by simp)]
    exact (List.getElem_concat_length rfl _).symm
  · have hne : (i : ℕ) ≠ w.length := fun e => hi (Fin.ext e)
    rw [Function.update_of_ne hi, filled, filled]
    by_cases hlt : (i : ℕ) < w.length
    · rw [dif_pos hlt, dif_pos (by rw [List.length_append]; omega)]
      exact (List.getElem_append_left hlt).symm
    · rw [dif_neg hlt, dif_neg (by rw [List.length_append, List.length_singleton]; omega)]

/-- The bytes of the buffer are the word and what follows it. -/
theorem ofFn_filled (h : w.length < 256) : List.ofFn (filled base w) =
    w ++ base ⟨w.length, h⟩ :: (List.ofFn (filled base w)).drop (w.length + 1) := by
  have hlength : (List.ofFn (filled base w)).length = 256 := List.length_ofFn
  have hlt : w.length < (List.ofFn (filled base w)).length := by rwa [hlength]
  have hfirst : (List.ofFn (filled base w)).take w.length = w := by
    refine List.ext_getElem ?_ fun i hi hi' => ?_
    · rw [List.length_take, hlength, Nat.min_eq_left h.le]
    · rw [List.getElem_take, List.getElem_ofFn]
      exact dif_pos hi'
  have hnext : (List.ofFn (filled base w))[w.length] = base ⟨w.length, h⟩ := by
    rw [List.getElem_ofFn]
    exact dif_neg (Nat.lt_irrefl _)
  rw [← hnext, ← List.drop_eq_getElem_cons hlt]
  conv_lhs => rw [← List.take_append_drop w.length (List.ofFn (filled base w)), hfirst]

/-- **The string in the buffer** is the word exactly if a zero follows it. -/
theorem cString_filled_eq_iff (h : w.length < 256) (hw : 0 ∉ w) :
    cString (filled base w) = w ↔ base ⟨w.length, h⟩ = 0 := by
  have hall : ∀ b ∈ w, decide (b ≠ 0) = true := by
    intro b hb
    rw [decide_eq_true_iff]
    rintro rfl
    exact hw hb
  rw [cString, ofFn_filled h, List.takeWhile_append_of_pos hall, List.append_right_eq_self]
  by_cases hzero : base ⟨w.length, h⟩ = 0
  · rw [hzero]
    exact iff_of_true rfl rfl
  · rw [List.takeWhile_cons_of_pos (by simpa using hzero)]
    exact iff_of_false (List.cons_ne_nil _ _) hzero

end Buffer

/-! ## The scan -/

section Scan

variable {base : Fin 256 → UInt8} {w c rest : CString} {tokens names : List CString} {i : ℕ}

/-- The scan in the middle of a word. -/
def TokenScan.within (base : Fin 256 → UInt8) (w : CString) (tokens : List CString) : TokenScan :=
  ⟨filled base w, w.length, tokens⟩

theorem store_within (h : w.length < 256) (b : UInt8) :
    (TokenScan.within base w tokens).store b =
      .ok ⟨filled base (w ++ [b]), w.length, tokens⟩ := by
  have hindex : (TokenScan.within base w tokens).currDirIndex < 256 := h
  rw [TokenScan.store, dif_pos hindex]
  exact congrArg (fun f => Except.ok (TokenScan.mk f w.length tokens)) (update_filled h b)

/-- **The bytes of a word** are collected, as long as the position is an `int`. -/
theorem loop_word (hc : slash ∉ c) (hlength : (w ++ c).length ≤ 256) (hi : 0 < i)
    (hpos : i < 2 ^ 31) : (TokenScan.within base w tokens).loop i (c ++ rest) =
      if i + c.length < 2 ^ 31 then
        (TokenScan.within base (w ++ c) tokens).loop (i + c.length) rest
      else .error .position := by
  induction c generalizing w i with
  | nil => rw [List.nil_append, List.append_nil, List.length_nil, Nat.add_zero, if_pos hpos]
  | cons b c ih =>
    have hb : b ≠ slash := fun e => hc (e ▸ List.mem_cons_self)
    have hlt : w.length < 256 := by
      rw [List.length_append, List.length_cons] at hlength
      omega
    have hstep : (TokenScan.within base w tokens).step i b =
        .ok (TokenScan.within base (w ++ [b]) tokens) := by
      rw [TokenScan.step, if_neg (by omega), if_neg hb, store_within hlt]
      have hnext : w.length + 1 = (w ++ [b]).length := by
        rw [List.length_append, List.length_singleton]
      exact congrArg (fun k => Except.ok (TokenScan.mk (filled base (w ++ [b])) k tokens)) hnext
    rw [List.cons_append, TokenScan.loop, hstep]
    show (if i + 1 = 2 ^ 31 then _ else _) = _
    by_cases hlast : i + 1 = 2 ^ 31
    · rw [if_pos hlast, if_neg (by rw [List.length_cons]; omega)]
    · have hadd : i + 1 + c.length = i + (b :: c).length := by
        rw [List.length_cons]
        omega
      rw [if_neg hlast, ih (fun hm => hc (List.mem_cons_of_mem _ hm))
        (by rw [List.append_assoc]; exact hlength) (Nat.succ_pos i) (by omega),
        List.append_assoc, List.singleton_append, hadd]

/-- A word that is terminated. -/
theorem filled_concat_zero (h : w.length < 256) :
    filled base (w ++ [0]) = filled (Function.update base ⟨w.length, h⟩ 0) w := by
  rw [← update_filled h]
  funext i
  by_cases hi : i = ⟨w.length, h⟩
  · subst hi
    rw [Function.update_self, filled, dif_neg (Nat.lt_irrefl _), Function.update_self]
  · rw [Function.update_of_ne hi, filled, filled, Function.update_of_ne hi]

/-- A token of the string in the buffer. -/
theorem push_eq {currentDir : Fin 256 → UInt8} {k : ℕ} (htokens : tokens ≠ [])
    (hstring : cString currentDir = w) (hlength : w.length ≤ 255) :
    TokenScan.push ⟨currentDir, k, tokens⟩ =
      if w.length ≤ 7 then .ok ⟨currentDir, k, tokens ++ [w]⟩ else .error .token := by
  have hsome : ¬ (TokenScan.mk currentDir k tokens).tokens = [] := htokens
  have hends : ¬ ¬ (cString (TokenScan.mk currentDir k tokens).currentDir).length < 256 := by
    rw [hstring]
    omega
  rw [TokenScan.push, if_neg hsome, if_neg hends, hstring]
  by_cases hshort : w.length ≤ 7
  · rw [if_pos hshort, if_neg (by omega)]
  · rw [if_neg hshort, if_pos (by omega)]

/-- A token is the string in the buffer. -/
theorem tokens_of_push {s s' : TokenScan} (h : s.push = .ok s') :
    s'.tokens = s.tokens ++ [cString s.currentDir] := by
  rw [TokenScan.push] at h
  split at h
  · cases h
  · split at h
    · cases h
    · split at h
      · cases h
      · cases h
        rfl

/-- **A slash** ends the word, and the buffer is cleared. -/
theorem loop_slash (hw : 0 ∉ w) (hlength : w.length ≤ 255) (htokens : tokens ≠ []) (hi : 0 < i) :
    (TokenScan.within base w tokens).loop i (slash :: rest) =
      if w.length ≤ 7 then
        if i + 1 = 2 ^ 31 then .error .position
        else (TokenScan.within (fun _ => 0) [] (tokens ++ [w])).loop (i + 1) rest
      else .error .token := by
  have hlt : w.length < 256 := Nat.lt_succ_of_le hlength
  have hstring : cString (filled base (w ++ [0])) = w := by
    rw [filled_concat_zero hlt, cString_filled_eq_iff hlt hw, Function.update_self]
  have hne : ¬ (i = 0 ∧ slash = slash) := fun e => absurd e.1 hi.ne'
  rw [TokenScan.loop, TokenScan.step, if_neg hne, if_pos rfl, store_within hlt]
  show ((TokenScan.push ⟨filled base (w ++ [0]), w.length, tokens⟩ >>= _) >>= _) = _
  rw [push_eq htokens hstring hlength]
  by_cases hshort : w.length ≤ 7
  · rw [if_pos hshort, if_pos hshort, TokenScan.within, filled_nil]
    rfl
  · rw [if_neg hshort, if_neg hshort]
    rfl

theorem finish_congr {s s' : TokenScan} {j : ℕ} {path path' : CString}
    (h : s.loop i path = s'.loop j path') : s.finish i path = s'.finish j path' := by
  rw [TokenScan.finish, h, TokenScan.finish]

theorem finish_ne_ok {s : TokenScan} {e : TokenFault} {path : CString} {answer : List CString}
    (h : s.loop i path = .error e) : s.finish i path ≠ .ok answer := by
  rw [TokenScan.finish, h]
  intro hok
  cases hok

/-- **The rest of the scan** in the middle of a word: it returns the word and the names that
follow it if they all fit into a token, and the word, if it is the last, is followed by a
zero. -/
theorem finish_eq_ok_iff (hw : 0 ∉ w) (hlength : w.length ≤ 255)
    (hnames : ∀ name ∈ names, FileName name) (htokens : tokens ≠ []) (hi : 0 < i)
    (hpos : i < 2 ^ 31) :
    (TokenScan.within base w tokens).finish i (joinNames names) = .ok (tokens ++ w :: names) ↔
      (∀ name ∈ w :: names, name.length ≤ 7) ∧ i + (joinNames names).length < 2 ^ 31 ∧
        (names ≠ [] ∨ base ⟨w.length, Nat.lt_succ_of_le hlength⟩ = 0) := by
  have hlt : w.length < 256 := Nat.lt_succ_of_le hlength
  induction names generalizing base w tokens i with
  | nil =>
    have hpush : (TokenScan.within base w tokens).finish i (joinNames []) =
        ((TokenScan.push ⟨filled base w, w.length, tokens⟩ >>= fun s => pure s.tokens)) := rfl
    rw [hpush]
    by_cases hzero : base ⟨w.length, hlt⟩ = 0
    · rw [push_eq htokens ((cString_filled_eq_iff hlt hw).mpr hzero) hlength]
      by_cases hshort : w.length ≤ 7
      · rw [if_pos hshort]
        refine iff_of_true rfl ⟨fun name hname => ?_, hpos, Or.inr hzero⟩
        rw [List.mem_singleton.mp hname]
        exact hshort
      · rw [if_neg hshort]
        refine iff_of_false (fun h => ?_) fun h => hshort (h.1 w List.mem_cons_self)
        cases h
    · -- the string of the buffer is longer than the word
      refine iff_of_false (fun h => ?_) fun h => h.2.2.elim (fun hne => hne rfl) hzero
      cases hpushed : TokenScan.push ⟨filled base w, w.length, tokens⟩ with
      | error e =>
        rw [hpushed] at h
        cases h
      | ok s =>
        rw [hpushed] at h
        have hs : s.tokens = tokens ++ [w] := Except.ok.inj h
        have hword := List.append_cancel_left ((tokens_of_push hpushed).symm.trans hs)
        exact hzero ((cString_filled_eq_iff hlt hw).mp (List.singleton_inj.mp hword))
  | cons c names ih =>
    have hc := hnames c List.mem_cons_self
    have hjoin : joinNames (c :: names) = slash :: (c ++ joinNames names) := rfl
    have hsum : i + (joinNames (c :: names)).length =
        i + 1 + c.length + (joinNames names).length := by
      rw [hjoin, List.length_cons, List.length_append]
      omega
    have hslash : (TokenScan.within base w tokens).loop i (slash :: (c ++ joinNames names)) = _ :=
      loop_slash hw hlength htokens hi
    rw [hsum]
    by_cases hshort : w.length ≤ 7
    swap
    · rw [if_neg hshort] at hslash
      exact iff_of_false (finish_ne_ok hslash) fun h => hshort (h.1 w List.mem_cons_self)
    rw [if_pos hshort] at hslash
    by_cases hlast : i + 1 = 2 ^ 31
    · rw [if_pos hlast] at hslash
      exact iff_of_false (finish_ne_ok hslash) fun h => by have := h.2.1; omega
    rw [if_neg hlast, loop_word hc.noSlash (by have := hc.short; simpa using by omega)
      (Nat.succ_pos i) (by omega), List.nil_append] at hslash
    by_cases hword : i + 1 + c.length < 2 ^ 31
    swap
    · rw [if_neg hword] at hslash
      exact iff_of_false (finish_ne_ok hslash) fun h => by have := h.2.1; omega
    rw [if_pos hword] at hslash
    have htokens' : tokens ++ [w] ≠ [] := List.append_ne_nil_of_right_ne_nil _
      (List.cons_ne_nil _ _)
    have hrest := @ih (fun _ => 0) c (tokens ++ [w]) (i + 1 + c.length) hc.noZero hc.short
      (fun name hname => hnames name (List.mem_cons_of_mem _ hname)) htokens' (by omega) hword
      (Nat.lt_succ_of_le hc.short)
    rw [List.append_assoc, List.singleton_append] at hrest
    rw [hjoin, finish_congr hslash]
    refine hrest.trans ⟨fun h => ⟨fun name hname => ?_, h.2.1, Or.inl (List.cons_ne_nil _ _)⟩,
      fun h => ⟨fun name hname => h.1 name (List.mem_cons_of_mem _ hname), h.2.1, Or.inr rfl⟩⟩
    rcases List.mem_cons.mp hname with rfl | hname
    · exact hshort
    · exact h.1 name hname

end Scan

/-! ## The condition -/

/-- **`createTokens` splits a path** if it has components, none of them is longer than 7
bytes, an `int` can count its bytes, and there is more than one component or the buffer
happened to hold a zero where the only one ends; and only then. -/
theorem tokens_split_path_iff {currentDir : Fin 256 → UInt8} {names : List CString}
    (hnames : ∀ name ∈ names, FileName name) :
    createTokens currentDir (pathOf names) = .ok ([slash] :: names) ↔
      names ≠ [] ∧ (∀ name ∈ names, name.length ≤ 7) ∧ (pathOf names).length < 2 ^ 31 ∧
        (1 < names.length ∨ ∀ name ∈ names, ∀ h : name.length < 256,
          currentDir ⟨name.length, h⟩ = 0) := by
  cases names with
  | nil =>
    -- the second token
    refine iff_of_false (fun h => ?_) fun h => h.1 rfl
    have hpush : createTokens currentDir (pathOf []) =
        (TokenScan.push ⟨currentDir, 0, [[slash]]⟩ >>= fun s => pure s.tokens) := rfl
    rw [hpush] at h
    cases hpushed : TokenScan.push ⟨currentDir, 0, [[slash]]⟩ with
    | error e =>
      rw [hpushed] at h
      cases h
    | ok s =>
      rw [hpushed] at h
      have hs : s.tokens = [[slash]] := Except.ok.inj h
      exact absurd ((tokens_of_push hpushed).symm.trans hs) (by simp)
  | cons c names =>
    have hc := hnames c List.mem_cons_self
    have hpath : pathOf (c :: names) = slash :: (c ++ joinNames names) := rfl
    have hfirst : TokenScan.loop ⟨currentDir, 0, []⟩ 0 (pathOf (c :: names)) =
        (TokenScan.within currentDir [] [[slash]]).loop 1 (c ++ joinNames names) := by
      rw [TokenScan.within, filled_nil]
      rfl
    have hsum : (pathOf (c :: names)).length = 1 + c.length + (joinNames names).length := by
      rw [hpath, List.length_cons, List.length_append]
      omega
    rw [loop_word hc.noSlash (by have := hc.short; simpa using by omega) (by decide) (by decide),
      List.nil_append] at hfirst
    rw [hsum, createTokens]
    by_cases hword : 1 + c.length < 2 ^ 31
    swap
    · rw [if_neg hword] at hfirst
      exact iff_of_false (finish_ne_ok hfirst) fun h => by have := h.2.2.1; omega
    rw [if_pos hword] at hfirst
    have hrest : (TokenScan.within currentDir c [[slash]]).finish (1 + c.length)
        (joinNames names) = .ok ([[slash]] ++ c :: names) ↔ _ :=
      finish_eq_ok_iff hc.noZero hc.short
        (fun name hname => hnames name (List.mem_cons_of_mem _ hname)) (List.cons_ne_nil _ _)
        (by omega) hword
    rw [finish_congr hfirst]
    refine hrest.trans ⟨fun h => ⟨List.cons_ne_nil _ _, h.1, h.2.1, ?_⟩,
      fun h => ⟨h.2.1, h.2.2.1, ?_⟩⟩
    · rcases h.2.2 with hne | hzero
      · have hpos := List.length_pos_iff.mpr hne
        exact Or.inl (Nat.succ_lt_succ hpos)
      · by_cases hne : names = []
        · subst hne
          refine Or.inr fun name hname hlt => ?_
          obtain rfl := List.mem_singleton.mp hname
          exact hzero
        · exact Or.inl (Nat.succ_lt_succ (List.length_pos_iff.mpr hne))
    · rcases h.2.2.2 with hmany | hzero
      · exact Or.inl (List.length_pos_iff.mp (Nat.lt_of_succ_lt_succ hmany))
      · exact Or.inr (hzero c List.mem_cons_self _)

/-- The path `/a/b`. -/
theorem tokens_split_path_iff_two :
    createTokens (fun _ => 1) [slash, 97, slash, 98] = .ok [[slash], [97], [98]] := by
  have hnames : ∀ name ∈ ([[97], [98]] : List CString), FileName name := by
    intro name hname
    rcases List.mem_cons.mp hname with rfl | hname
    · exact ⟨by decide, by decide, by decide, by decide⟩
    · obtain rfl := List.mem_singleton.mp hname
      exact ⟨by decide, by decide, by decide, by decide⟩
  exact (tokens_split_path_iff hnames).mpr
    ⟨by decide, by decide, by decide, Or.inl (by decide)⟩

/-- **Three paths that are not split.**  The second token of `/` is an empty string, a name
of 8 bytes does not fit into its token, and the only name of `/a` runs on through whatever
the buffer holds. -/
theorem tokens_of_paths :
    createTokens (fun _ => 0) [slash] = .ok [[slash], []] ∧
    createTokens (fun _ => 0) [slash, 97, 98, 99, 100, 101, 102, 103, 104] = .error .token ∧
    createTokens (fun i => if i = 2 then 0 else 120) [slash, 97] = .ok [[slash], [97, 120]] :=
  ⟨rfl, rfl, rfl⟩

end SimpleFileSystem
