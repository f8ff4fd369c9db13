/-!
# Executions

A system that answers calls in some order is a relation `step s e t`: in state `s` the
event `e` --- a call, with what it returned --- leads to `t`.  An execution is a
sequence of such steps, with the list of its events.

Two rules turn a fact about one step into one about all executions: what every step
keeps holds to the end (`Exec.invariant`, and `Exec.events` for what it lets happen),
and a system whose every step another can match has only executions that the other has
(`Exec.simulate`).  The second carries the events along, so what is true of every list
of events of the other system is true of those of the first.  Where the other system
sees only some of the events, `Exec.project` is the rule, and the others leave its state
alone.
-/

/-- `Exec step s tr t`: an execution from `s` to `t` with the events `tr`. -/
inductive Exec {σ ε : Type} (step : σ → ε → σ → Prop) : σ → List ε → σ → Prop where
  | nil (s : σ) : Exec step s [] s
  | cons {s t u : σ} {e : ε} {tr : List ε} (head : step s e t) (tail : Exec step t tr u) :
      Exec step s (e :: tr) u

namespace Exec

variable {σ τ ε : Type} {step : σ → ε → σ → Prop} {step' : τ → ε → τ → Prop}
  {s t u : σ} {tr tr' : List ε}

theorem append (h : Exec step s tr t) (h' : Exec step t tr' u) : Exec step s (tr ++ tr') u := by
  induction h with
  | nil => exact h'
  | cons head _ ih => exact cons head (ih h')

/-- An execution can be cut between any two of its events. -/
theorem split (h : Exec step s (tr ++ tr') u) : ∃ t, Exec step s tr t ∧ Exec step t tr' u := by
  induction tr generalizing s with
  | nil => exact ⟨s, nil s, h⟩
  | cons e tr ih =>
    cases h with
    | cons head tail =>
      obtain ⟨t, h₁, h₂⟩ := ih tail
      exact ⟨t, cons head h₁, h₂⟩

/-- An execution all of whose events satisfy `P` is one of the system that refuses the
others. -/
theorem restrict {P : ε → Prop} (h : Exec step s tr t) (hP : ∀ e ∈ tr, P e) :
    Exec (fun s e t => P e ∧ step s e t) s tr t := by
  induction h with
  | nil s => exact nil s
  | cons head _ ih =>
    exact cons ⟨hP _ List.mem_cons_self, head⟩ (ih fun e he => hP e (List.mem_cons_of_mem _ he))

/-- A system that allows more steps has more executions. -/
theorem mono {wider : σ → ε → σ → Prop} (hstep : ∀ s e t, step s e t → wider s e t)
    (h : Exec step s tr t) : Exec wider s tr t := by
  induction h with
  | nil s => exact nil s
  | cons head _ ih => exact cons (hstep _ _ _ head) ih

/-- **The rule of invariants.** -/
theorem invariant {I : σ → Prop} (hstep : ∀ s e t, I s → step s e t → I t)
    (h : Exec step s tr t) (hs : I s) : I t := by
  induction h with
  | nil => exact hs
  | cons head _ ih => exact ih (hstep _ _ _ hs head)

/-- **The rule of events**: what the event of every step satisfies, where an invariant holds
before it. -/
theorem events {I : σ → Prop} {P : ε → Prop} (hstep : ∀ s e t, I s → step s e t → I t ∧ P e)
    (h : Exec step s tr t) (hs : I s) : ∀ e ∈ tr, P e := by
  induction h with
  | nil => exact fun e he => absurd he List.not_mem_nil
  | cons head _ ih =>
    obtain ⟨hI, hP⟩ := hstep _ _ _ hs head
    intro e he
    rcases List.mem_cons.mp he with rfl | he
    · exact hP
    · exact ih hI e he

/-- **The rule of simulation.** -/
theorem simulate {R : σ → τ → Prop}
    (hstep : ∀ s e t a, R s a → step s e t → ∃ b, step' a e b ∧ R t b)
    (h : Exec step s tr t) {a : τ} (hs : R s a) : ∃ b, Exec step' a tr b ∧ R t b := by
  induction h generalizing a with
  | nil => exact ⟨a, nil a, hs⟩
  | cons head _ ih =>
    obtain ⟨b, hb, hR⟩ := hstep _ _ _ _ hs head
    obtain ⟨c, hc, hR'⟩ := ih hR
    exact ⟨c, cons hb hc, hR'⟩

/-- **The rule of projection**: a simulation by a system that sees some of the events. -/
theorem project {ε' : Type} (label : ε → Option ε') {view : τ → ε' → τ → Prop} {R : σ → τ → Prop}
    (hsilent : ∀ s e t a, R s a → step s e t → label e = none → R t a)
    (hstep : ∀ s e t a e', R s a → step s e t → label e = some e' → ∃ b, view a e' b ∧ R t b)
    (h : Exec step s tr t) {a : τ} (hs : R s a) :
    ∃ b, Exec view a (tr.filterMap label) b ∧ R t b := by
  induction h generalizing a with
  | nil => exact ⟨a, nil a, hs⟩
  | @cons s t u e tr head _ ih =>
    cases hlabel : label e with
    | none =>
      rw [List.filterMap_cons_none hlabel]
      exact ih (hsilent _ _ _ _ hs head hlabel)
    | some e' =>
      rw [List.filterMap_cons_some hlabel]
      obtain ⟨b, hb, hR⟩ := hstep _ _ _ _ _ hs head hlabel
      obtain ⟨c, hc, hR'⟩ := ih hR
      exact ⟨c, cons hb hc, hR'⟩

end Exec
