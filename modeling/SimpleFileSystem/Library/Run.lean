import Mathlib.Data.Nat.Notation
import Mathlib.Data.Sum.Basic

/-!
# Programs over a state

A C function that reads and writes global state is a function from a state to a
result and a new state, except that it may not return: an assertion may fail, a loop
may run for ever, a lock may never be handed over.  `Run σ α` is that, and
`Outcome.halt` is where a program that does not return ends up.

Loops are `Run.loop`, with an explicit bound on the number of iterations.  The bound
is a device of the model and never of the program, so nothing may be concluded from
running out of it, and the rule for total correctness, `Ensures.loop`, asks for a
measure that shows it is not reached.

`Ensures x s Q` is the Hoare triple this development uses: started in `s`, the
program `x` returns, and `Q` holds of what it returns and of the state it leaves.
The programs are deterministic, so this is a statement about one run, and the rules
below --- `bind`, `mono`, `loop`, `zoom` --- are all that is needed to assemble the
specification of a function from those of the functions it calls.
-/

/-- Why a program did not return. -/
inductive Halt where
  /-- A failed assertion. -/
  | assertion
  /-- A loop that does not end. -/
  | diverges
  /-- Waiting for a lock that is never released. -/
  | deadlock
  deriving DecidableEq, Repr

/-- How a run ends. -/
inductive Outcome (σ α : Type) where
  /-- It returns a value and leaves a state. -/
  | done (a : α) (s : σ)
  /-- It does not return. -/
  | halt (h : Halt)

/-- The same end, with another state. -/
def Outcome.onState {σ τ α : Type} (f : τ → σ) : Outcome τ α → Outcome σ α
  | .done a t => .done a (f t)
  | .halt h => .halt h

@[simp] theorem Outcome.onState_done {σ τ α : Type} (f : τ → σ) (a : α) (t : τ) :
    Outcome.onState f (.done a t) = .done a (f t) := rfl

@[simp] theorem Outcome.onState_halt {σ τ α : Type} (f : τ → σ) (h : Halt) :
    Outcome.onState f (.halt h : Outcome τ α) = .halt h := rfl

/-- What it returns, if it does. -/
def Outcome.value {σ α : Type} : Outcome σ α → Option α
  | .done a _ => some a
  | .halt _ => none

theorem Outcome.exists_of_value {σ α : Type} {o : Outcome σ α} {a : α} (h : o.value = some a) :
    ∃ s, o = .done a s := by
  cases o with
  | done b s => exact ⟨s, by rw [Option.some.inj h]⟩
  | halt e => exact absurd h.symm (Option.some_ne_none a)

/-- A program that reads and writes a state of type `σ` and returns an `α`. -/
structure Run (σ α : Type) where
  /-- What it does from a state. -/
  run : σ → Outcome σ α

namespace Run

variable {σ τ α β γ : Type}

@[ext] theorem ext {x y : Run σ α} (h : ∀ s, x.run s = y.run s) : x = y := by
  cases x; cases y
  exact congrArg _ (funext h)

/-- Run a first program, then one that depends on what it returned. -/
def andThen (o : Outcome σ α) (f : α → Run σ β) : Outcome σ β :=
  match o with
  | .done a s => (f a).run s
  | .halt h => .halt h

instance : Monad (Run σ) where
  pure a := ⟨fun s => .done a s⟩
  bind x f := ⟨fun s => andThen (x.run s) f⟩

instance : MonadStateOf σ (Run σ) where
  get := ⟨fun s => .done s s⟩
  set s := ⟨fun _ => .done () s⟩
  modifyGet f := ⟨fun s => .done (f s).1 (f s).2⟩

/-- Give up. -/
def halt (h : Halt) : Run σ α :=
  ⟨fun _ => .halt h⟩

/-- `assert(c)`. -/
def assert (c : Bool) : Run σ Unit :=
  if c then pure () else halt .assertion

/-- A program on a part of the state. -/
def zoom (get : σ → τ) (set : τ → σ → σ) (x : Run τ α) : Run σ α :=
  ⟨fun s => (x.run (get s)).onState fun t => set t s⟩

/-- Repeat `body` until it answers `Sum.inr`, at most `fuel` times. -/
def loop (body : β → Run σ (β ⊕ γ)) : ℕ → β → Run σ γ
  | 0, _ => halt .diverges
  | n + 1, b => body b >>= Sum.elim (loop body n) pure

@[simp] theorem andThen_done (a : α) (s : σ) (f : α → Run σ β) :
    andThen (.done a s) f = (f a).run s := rfl

@[simp] theorem andThen_halt (h : Halt) (f : α → Run σ β) :
    andThen (.halt h : Outcome σ α) f = .halt h := rfl

@[simp] theorem run_pure (a : α) (s : σ) : (pure a : Run σ α).run s = .done a s := rfl

@[simp] theorem run_bind (x : Run σ α) (f : α → Run σ β) (s : σ) :
    (x >>= f).run s = andThen (x.run s) f := rfl

@[simp] theorem run_get (s : σ) : (get : Run σ σ).run s = .done s s := rfl

@[simp] theorem run_set (s t : σ) : (set t : Run σ PUnit).run s = .done () t := rfl

@[simp] theorem run_modify (f : σ → σ) (s : σ) :
    (modify f : Run σ PUnit).run s = .done () (f s) := rfl

@[simp] theorem run_halt (h : Halt) (s : σ) : (halt h : Run σ α).run s = .halt h := rfl

@[simp] theorem run_ite (c : Prop) [Decidable c] (x y : Run σ α) (s : σ) :
    (if c then x else y).run s = if c then x.run s else y.run s := by
  split <;> rfl

@[simp] theorem assert_true : (assert true : Run σ Unit) = pure () := rfl

@[simp] theorem assert_false : (assert false : Run σ Unit) = halt .assertion := rfl

@[simp] theorem pure_bind' (a : α) (f : α → Run σ β) : (pure a >>= f) = f a := rfl

@[simp] theorem halt_bind (e : Halt) (f : α → Run σ β) :
    (halt e >>= f : Run σ β) = halt e := rfl

@[simp] theorem bind_assoc' (x : Run σ α) (f : α → Run σ β) (g : β → Run σ γ) :
    (x >>= f >>= g) = x >>= fun a => f a >>= g := by
  ext s
  simp only [run_bind]
  cases x.run s <;> rfl

@[simp] theorem run_zoom (get : σ → τ) (set : τ → σ → σ) (x : Run τ α) (s : σ) :
    (zoom get set x).run s = (x.run (get s)).onState fun t => set t s := rfl

/-- A run of a composed program that returns is a run of its first part that returns,
followed by one of the second. -/
theorem bind_eq_done {x : Run σ α} {f : α → Run σ β} {s s' : σ} {b : β} :
    (x >>= f).run s = .done b s' ↔ ∃ a t, x.run s = .done a t ∧ (f a).run t = .done b s' := by
  rw [run_bind]
  constructor
  · intro h
    cases hx : x.run s with
    | done a t => exact ⟨a, t, rfl, by rwa [hx] at h⟩
    | halt e =>
      rw [hx] at h
      exact nomatch h
  · rintro ⟨a, t, hx, h⟩
    rw [hx, andThen_done, h]

/-! ## Total correctness -/

/-- Started in `s`, the program returns, and `Q` holds of the value and of the state. -/
def Ensures (x : Run σ α) (s : σ) (Q : α → σ → Prop) : Prop :=
  ∃ a s', x.run s = .done a s' ∧ Q a s'

theorem Ensures.of_eq {x : Run σ α} {s s' : σ} {a : α} {Q : α → σ → Prop}
    (h : x.run s = .done a s') (hQ : Q a s') : Ensures x s Q :=
  ⟨a, s', h, hQ⟩

theorem Ensures.mono {x : Run σ α} {s : σ} {P Q : α → σ → Prop} (h : Ensures x s P)
    (hPQ : ∀ a s', P a s' → Q a s') : Ensures x s Q := by
  obtain ⟨a, s', hx, hP⟩ := h
  exact ⟨a, s', hx, hPQ a s' hP⟩

theorem ensures_pure {a : α} {s : σ} {Q : α → σ → Prop} (h : Q a s) :
    Ensures (pure a) s Q :=
  ⟨a, s, rfl, h⟩

/-- **The rule of composition.** -/
theorem Ensures.bind {x : Run σ α} {f : α → Run σ β} {s : σ} {P : α → σ → Prop}
    {Q : β → σ → Prop} (h : Ensures x s P)
    (hf : ∀ a s', P a s' → Ensures (f a) s' Q) : Ensures (x >>= f) s Q := by
  obtain ⟨a, s', hx, hP⟩ := h
  obtain ⟨b, t, hb, hQ⟩ := hf a s' hP
  exact ⟨b, t, by rw [run_bind, hx, andThen_done, hb], hQ⟩

/-- A sequence goes on where its first program ends. -/
theorem Ensures.goes_on {x : Run σ α} {s : σ} {P : α → σ → Prop} (h : Ensures x s P) :
    ∃ a s', P a s' ∧ ∀ {β : Type} (f : α → Run σ β), (x >>= f).run s = (f a).run s' := by
  obtain ⟨a, s', hx, hP⟩ := h
  exact ⟨a, s', hP, fun f => by rw [run_bind, hx, andThen_done]⟩

/-- What is ensured of a run, with the run. -/
theorem Ensures.runs {x : Run σ α} {s : σ} {Q : α → σ → Prop} (h : Ensures x s Q) :
    Ensures x s fun a s' => x.run s = .done a s' ∧ Q a s' := by
  obtain ⟨a, s', hx, hQ⟩ := h
  exact ⟨a, s', hx, hx, hQ⟩

/-- What a run of a program that is known to return returns. -/
theorem Ensures.post {x : Run σ α} {s s' : σ} {a : α} {Q : α → σ → Prop}
    (h : Ensures x s Q) (hx : x.run s = .done a s') : Q a s' := by
  obtain ⟨b, t, hb, hQ⟩ := h
  rw [hx] at hb
  cases hb
  exact hQ

theorem Ensures.zoom {get : σ → τ} {set : τ → σ → σ} {x : Run τ α} {s : σ}
    {Q : α → σ → Prop} (h : Ensures x (get s) fun a t => Q a (set t s)) :
    Ensures (zoom get set x) s Q := by
  obtain ⟨a, t, hx, hQ⟩ := h
  exact ⟨a, set t s, by rw [run_zoom, hx, Outcome.onState_done], hQ⟩

/-- **The rule of loops.**  An invariant that every iteration keeps, and a measure
that every iteration that does not end the loop decreases and that starts below the
bound.  Both may depend on a ghost value, which no program holds. -/
theorem Ensures.loop {G : Type} {body : β → Run σ (β ⊕ γ)} (I : G → β → σ → Prop) (m : G → ℕ)
    {Q : γ → σ → Prop}
    (hbody : ∀ g b s, I g b s → Ensures (body b) s fun r s' =>
      match r with
      | .inl b' => ∃ g', I g' b' s' ∧ m g' < m g
      | .inr c => Q c s')
    {fuel : ℕ} {g : G} {b : β} {s : σ} (hI : I g b s) (hm : m g < fuel) :
    Ensures (Run.loop body fuel b) s Q := by
  induction fuel generalizing g b s with
  | zero => exact absurd hm (Nat.not_lt_zero _)
  | succ n ih =>
    refine (hbody g b s hI).bind fun r s' hpost => ?_
    cases r with
    | inl b' =>
      obtain ⟨g', hI', hlt⟩ := hpost
      exact ih hI' (Nat.lt_of_lt_of_le hlt (Nat.le_of_lt_succ hm))
    | inr c => exact ensures_pure hpost

/-! ## Partial correctness -/

/-- Started in `s`, if the program returns, then `Q` holds of the value and of the
state. -/
def Permits (x : Run σ α) (s : σ) (Q : α → σ → Prop) : Prop :=
  ∀ a s', x.run s = .done a s' → Q a s'

section Permits

variable {P Q : α → σ → Prop} {s : σ}

theorem Ensures.permits {x : Run σ α} (h : Ensures x s Q) : Permits x s Q :=
  fun _ _ hrun => h.post hrun

theorem permits_pure {a : α} (h : Q a s) : Permits (pure a) s Q := by
  intro b s' hrun
  cases hrun
  exact h

theorem permits_halt (e : Halt) : Permits (halt e) s Q := by
  intro a s' hrun
  cases hrun

theorem Permits.mono {x : Run σ α} (h : Permits x s P) (hPQ : ∀ a s', P a s' → Q a s') :
    Permits x s Q :=
  fun a s' hrun => hPQ a s' (h a s' hrun)

theorem Permits.bind {x : Run σ α} {f : α → Run σ β} {R : β → σ → Prop} (h : Permits x s P)
    (hf : ∀ a s', P a s' → Permits (f a) s' R) : Permits (x >>= f) s R := by
  intro b s' hrun
  obtain ⟨a, t, ha, hb⟩ := bind_eq_done.mp hrun
  exact hf a t (h a t ha) b s' hb

theorem Permits.get_bind {f : σ → Run σ β} {R : β → σ → Prop} (h : Permits (f s) s R) :
    Permits (get >>= f) s R := by
  intro b s' hrun
  exact h b s' hrun

/-- **The rule of loops**, of which only an invariant is asked. -/
theorem Permits.loop {body : β → Run σ (β ⊕ γ)} {I : β → σ → Prop} {R : γ → σ → Prop}
    (hbody : ∀ b s, I b s → Permits (body b) s fun r s' => Sum.elim (I · s') (R · s') r)
    {fuel : ℕ} {b : β} (hI : I b s) : Permits (Run.loop body fuel b) s R := by
  induction fuel generalizing b s with
  | zero => exact permits_halt _
  | succ n ih =>
    refine (hbody b s hI).bind fun r s' hr => ?_
    cases r with
    | inl b' => exact ih hr
    | inr c => exact permits_pure hr

end Permits

/-! ## Programs that return -/

/-- Whatever state a run of `x` starts in, it returns. -/
def Returns (x : Run σ α) : Prop :=
  ∀ s, Ensures x s fun _ _ => True

section Returns

theorem returns_pure (a : α) : Returns (pure a : Run σ α) :=
  fun _ => ensures_pure trivial

theorem returns_get : Returns (get : Run σ σ) :=
  fun s => ⟨s, s, rfl, trivial⟩

theorem returns_modify (f : σ → σ) : Returns (modify f : Run σ PUnit) :=
  fun s => ⟨(), f s, rfl, trivial⟩

theorem Returns.bind {x : Run σ α} {f : α → Run σ β} (hx : Returns x)
    (hf : ∀ a, Returns (f a)) : Returns (x >>= f) :=
  fun s => (hx s).bind fun a s' _ => hf a s'

theorem Returns.ite {c : Prop} [Decidable c] {x y : Run σ α} (hx : Returns x)
    (hy : Returns y) : Returns (if c then x else y) := by
  split
  · exact hx
  · exact hy

/-- A program that returns may be run for what it leaves undetermined. -/
theorem Returns.ensures_bind {x : Run σ α} {f : α → Run σ β} {s : σ} {Q : β → σ → Prop}
    (hx : Returns x) (hf : ∀ a s', Ensures (f a) s' Q) : Ensures (x >>= f) s Q :=
  (hx s).bind fun a s' _ => hf a s'

end Returns

/-! ## What a program may return -/

/-- Whatever state a run of `x` starts in, a value that it returns satisfies `Q`. -/
def Allows (x : Run σ α) (Q : α → Prop) : Prop :=
  ∀ s a s', x.run s = .done a s' → Q a

section Allows

variable {P Q : α → Prop}

theorem allows_pure {a : α} (h : Q a) : Allows (pure a : Run σ α) Q := by
  intro s b s' hrun
  cases hrun
  exact h

theorem allows_true (x : Run σ α) : Allows x fun _ => True :=
  fun _ _ _ _ => trivial

theorem allows_halt (e : Halt) : Allows (halt e : Run σ α) Q := by
  intro s a s' h
  exact nomatch h

theorem Allows.mono {x : Run σ α} (h : Allows x P) (hPQ : ∀ a, P a → Q a) : Allows x Q :=
  fun s a s' hrun => hPQ a (h s a s' hrun)

theorem Allows.bind {R : β → Prop} {x : Run σ α} {f : α → Run σ β} (hx : Allows x P)
    (hf : ∀ a, P a → Allows (f a) R) : Allows (x >>= f) R := by
  intro s b s' h
  obtain ⟨a, t, ha, hb⟩ := bind_eq_done.mp h
  exact hf a (hx s a t ha) t b s' hb

theorem Allows.loop {body : β → Run σ (β ⊕ γ)} {I : β → Prop} {R : γ → Prop}
    (hbody : ∀ b, I b → Allows (body b) (Sum.elim I R)) {fuel : ℕ} {b : β} (hb : I b) :
    Allows (Run.loop body fuel b) R := by
  induction fuel generalizing b with
  | zero => exact allows_halt _
  | succ n ih =>
    refine (hbody b hb).bind fun r hr => ?_
    cases r with
    | inl b' => exact ih hr
    | inr c => exact allows_pure hr

/-- Two bodies that are the same where an invariant holds make the same loop. -/
theorem loop_congr {body body' : β → Run σ (β ⊕ γ)} {I : β → Prop}
    (hbody : ∀ b, I b → Allows (body b) (Sum.elim I fun _ => True))
    (heq : ∀ b, I b → body b = body' b) (fuel : ℕ) {b : β} (hb : I b) :
    Run.loop body fuel b = Run.loop body' fuel b := by
  induction fuel generalizing b with
  | zero => rfl
  | succ n ih =>
    ext s
    rw [Run.loop, Run.loop, ← heq b hb, run_bind, run_bind]
    cases hrun : (body b).run s with
    | halt e => rfl
    | done r t =>
      have hr := hbody b hb s r t hrun
      cases r with
      | inl b' => rw [andThen_done, andThen_done, Sum.elim_inl, Sum.elim_inl, ih hr]
      | inr c => rfl

end Allows

/-! ## What a program leaves alone -/

/-- A run of `x` that returns leaves a part of the state as it was. -/
def Keeps (part : σ → τ) (x : Run σ α) : Prop :=
  ∀ s a s', x.run s = .done a s' → part s' = part s

section Keeps

variable {part : σ → τ}

theorem keeps_pure (a : α) : Keeps part (pure a : Run σ α) := by
  intro s b s' h
  cases h
  rfl

theorem keeps_get : Keeps part (get : Run σ σ) := by
  intro s b s' h
  cases h
  rfl

theorem keeps_halt (e : Halt) : Keeps part (halt e : Run σ α) := by
  intro s b s' h
  exact nomatch h

theorem keeps_assert (c : Bool) : Keeps part (assert c : Run σ Unit) := by
  cases c with
  | false => exact keeps_halt _
  | true => exact keeps_pure _

theorem keeps_modify {f : σ → σ} (h : ∀ s, part (f s) = part s) :
    Keeps part (modify f : Run σ PUnit) := by
  intro s b s' hrun
  cases hrun
  exact h s

theorem Keeps.bind {x : Run σ α} {f : α → Run σ β} (hx : Keeps part x)
    (hf : ∀ a, Keeps part (f a)) : Keeps part (x >>= f) := by
  intro s b s' h
  obtain ⟨a, t, ha, hb⟩ := bind_eq_done.mp h
  rw [hf a t b s' hb, hx s a t ha]

theorem Keeps.ite {c : Prop} [Decidable c] {x y : Run σ α} (hx : Keeps part x)
    (hy : Keeps part y) : Keeps part (if c then x else y) := by
  split
  · exact hx
  · exact hy

theorem Keeps.foldlM {f : β → α → Run σ β} (hf : ∀ b a, Keeps part (f b a)) (l : List α)
    (b : β) : Keeps part (l.foldlM f b) := by
  induction l generalizing b with
  | nil => exact keeps_pure b
  | cons a l ih => exact (hf b a).bind ih

theorem Keeps.loop {body : β → Run σ (β ⊕ γ)} (hbody : ∀ b, Keeps part (body b)) (fuel : ℕ)
    (b : β) : Keeps part (Run.loop body fuel b) := by
  induction fuel generalizing b with
  | zero => exact keeps_halt _
  | succ n ih =>
    refine (hbody b).bind fun r => ?_
    cases r with
    | inl b' => exact ih b'
    | inr c => exact keeps_pure c

end Keeps

/-! ## What holds of every state -/

/-- A run of `x` that returns keeps an invariant. -/
def Maintains (I : σ → Prop) (x : Run σ α) : Prop :=
  ∀ s a s', I s → x.run s = .done a s' → I s'

section Maintains

variable {I : σ → Prop}

theorem maintains_pure (a : α) : Maintains I (pure a : Run σ α) := by
  intro s b s' hs h
  cases h
  exact hs

theorem maintains_get : Maintains I (get : Run σ σ) := by
  intro s b s' hs h
  cases h
  exact hs

theorem maintains_halt (e : Halt) : Maintains I (halt e : Run σ α) := by
  intro s b s' hs h
  exact nomatch h

theorem maintains_assert (c : Bool) : Maintains I (assert c : Run σ Unit) := by
  cases c with
  | false => exact maintains_halt _
  | true => exact maintains_pure _

theorem maintains_modify {f : σ → σ} (h : ∀ s, I s → I (f s)) :
    Maintains I (modify f : Run σ PUnit) := by
  intro s b s' hs hrun
  cases hrun
  exact h s hs

theorem Maintains.bind {x : Run σ α} {f : α → Run σ β} (hx : Maintains I x)
    (hf : ∀ a, Maintains I (f a)) : Maintains I (x >>= f) := by
  intro s b s' hs h
  obtain ⟨a, t, ha, hb⟩ := bind_eq_done.mp h
  exact hf a t b s' (hx s a t hs ha) hb

theorem Maintains.ite {c : Prop} [Decidable c] {x y : Run σ α} (hx : Maintains I x)
    (hy : Maintains I y) : Maintains I (if c then x else y) := by
  split
  · exact hx
  · exact hy

theorem Maintains.loop {body : β → Run σ (β ⊕ γ)} (hbody : ∀ b, Maintains I (body b)) (fuel : ℕ)
    (b : β) : Maintains I (Run.loop body fuel b) := by
  induction fuel generalizing b with
  | zero => exact maintains_halt _
  | succ n ih =>
    refine (hbody b).bind fun r => ?_
    cases r with
    | inl b' => exact ih b'
    | inr c => exact maintains_pure c

end Maintains

/-! ## Runs that end well -/

/-- Every run of `x` that returns an acceptable value is, after `q`, a run of `x` from
the state that `q` makes of the first one. -/
def Follows (q : σ → σ) (x : Run σ α) (ok : α → Prop) : Prop :=
  ∀ s a s', x.run s = .done a s' → ok a → x.run (q s) = .done a (q s')

theorem follows_pure (q : σ → σ) (a : α) (ok : α → Prop) : Follows q (pure a) ok := by
  intro s b s' h _
  cases h
  rfl

theorem follows_halt (q : σ → σ) (e : Halt) (ok : α → Prop) : Follows q (halt e) ok := by
  intro s b s' h _
  exact nomatch h

theorem follows_assert (q : σ → σ) (c : Bool) (ok : Unit → Prop) : Follows q (assert c) ok := by
  cases c with
  | false => exact follows_halt q _ ok
  | true => exact follows_pure q _ ok

theorem follows_modify {q f : σ → σ} (h : ∀ s, f (q s) = q (f s)) (ok : PUnit → Prop) :
    Follows q (modify f) ok := by
  intro s a s' hrun _
  rw [run_modify] at hrun ⊢
  cases hrun
  rw [h]

/-- Reading the state, for what `q` does not change. -/
theorem Follows.get_bind {q : σ → σ} {f : σ → Run σ β} {ok : β → Prop}
    (hq : ∀ s, f (q s) = f s) (hf : ∀ s, Follows q (f s) ok) :
    Follows q (get >>= f) ok := by
  intro s b s' h hok
  rw [run_bind, run_get, andThen_done] at h ⊢
  rw [hq]
  exact hf s s b s' h hok

/-- Composition: the first part must end well for the whole to do. -/
theorem Follows.bind {q : σ → σ} {x : Run σ α} {f : α → Run σ β} {ok₁ : α → Prop}
    {ok₂ : β → Prop} (hx : Follows q x ok₁) (hf : ∀ a, ok₁ a → Follows q (f a) ok₂)
    (hbad : ∀ a s b s', ¬ ok₁ a → (f a).run s = .done b s' → ¬ ok₂ b) :
    Follows q (x >>= f) ok₂ := by
  intro s b s' h hok
  obtain ⟨a, t, ha, hb⟩ := bind_eq_done.mp h
  by_cases hgood : ok₁ a
  · exact bind_eq_done.mpr ⟨a, q t, hx s a t ha hgood, hf a hgood t b s' hb hok⟩
  · exact absurd hok (hbad a t b s' hgood hb)

/-- Composition with a first part that ends well whatever it returns. -/
theorem Follows.bind_of_all {q : σ → σ} {x : Run σ α} {f : α → Run σ β} {ok : β → Prop}
    (hx : Follows q x fun _ => True) (hf : ∀ a, Follows q (f a) ok) :
    Follows q (x >>= f) ok :=
  hx.bind (fun a _ => hf a) fun _ _ _ _ hbad => absurd trivial hbad

/-- Composition with a first part that may find nothing, which is a failure. -/
theorem Follows.bind_option {q : σ → σ} {x : Run σ (Option α)} {f : Option α → Run σ β}
    {ok : β → Prop} {bad : β} (hx : Follows q x (· ≠ none))
    (hsome : ∀ a, Follows q (f (some a)) ok) (hnone : f none = pure bad) (hbad : ¬ ok bad) :
    Follows q (x >>= f) ok := by
  refine hx.bind (fun r hr => ?_) fun r s b s' hr hrun => ?_
  · cases r with
    | none => exact absurd rfl hr
    | some a => exact hsome a
  · rw [not_not.mp hr, hnone] at hrun
    cases hrun
    exact hbad

theorem Follows.loop {q : σ → σ} {body : β → Run σ (β ⊕ γ)} {ok : γ → Prop}
    (hbody : ∀ b, Follows q (body b) (Sum.elim (fun _ => True) ok)) (fuel : ℕ) (b : β) :
    Follows q (Run.loop body fuel b) ok := by
  induction fuel generalizing b with
  | zero => exact follows_halt q _ ok
  | succ n ih =>
    refine (hbody b).bind (fun r _ => ?_) ?_
    · cases r with
      | inl b' => exact ih b'
      | inr c => exact follows_pure q c ok
    · intro r s c s' hbad hrun
      cases r with
      | inl b' => exact absurd trivial hbad
      | inr c' =>
        cases hrun
        exact hbad

/-- One iteration of a loop that goes on. -/
theorem loop_succ_of_inl {body : β → Run σ (β ⊕ γ)} {n : ℕ} {b b' : β} {s s' : σ}
    (h : (body b).run s = .done (.inl b') s') :
    (Run.loop body (n + 1) b).run s = (Run.loop body n b').run s' := by
  rw [Run.loop, run_bind, h, andThen_done, Sum.elim_inl]

/-- The last iteration of a loop. -/
theorem loop_succ_of_inr {body : β → Run σ (β ⊕ γ)} {n : ℕ} {b : β} {c : γ} {s s' : σ}
    (h : (body b).run s = .done (.inr c) s') :
    (Run.loop body (n + 1) b).run s = .done c s' := by
  rw [Run.loop, run_bind, h, andThen_done, Sum.elim_inr, run_pure]

end Run
