import SimpleFileSystem.Library.Run

/-!
# Two programs side by side

A program and what it stands for run on two machines with states of their own.
`Agree x s y t Q` says that `x` from `s` and `y` from `t` end alike: both return, and `Q` holds
of what they return and of the states they leave, or both stop for the same reason.

The rules follow the constructors of a program on both sides at once, so a loop needs a
relation between the two states and no invariant of either.  `Ensures.agree` is for two parts
that have nothing in common but that both return.
-/

namespace Run

variable {σ σ' τ τ' α β β' γ δ : Type}

/-- **Two runs that end alike.** -/
def Agree (x : Run σ α) (s : σ) (y : Run τ β) (t : τ) (Q : α → σ → β → τ → Prop) : Prop :=
  (∃ a s' b t', x.run s = .done a s' ∧ y.run t = .done b t' ∧ Q a s' b t') ∨
    ∃ e, x.run s = .halt e ∧ y.run t = .halt e

section Rules

variable {x : Run σ α} {y : Run τ β} {s s' : σ} {t t' : τ} {a : α} {b : β}
  {P Q : α → σ → β → τ → Prop}

theorem Agree.of_eq (hx : x.run s = .done a s') (hy : y.run t = .done b t') (h : Q a s' b t') :
    Agree x s y t Q :=
  Or.inl ⟨a, s', b, t', hx, hy, h⟩

theorem agree_pure (h : Q a s b t) : Agree (pure a) s (pure b) t Q :=
  .of_eq rfl rfl h

theorem agree_halt (e : Halt) : Agree (halt e) s (halt e) t Q :=
  Or.inr ⟨e, rfl, rfl⟩

theorem Agree.mono (h : Agree x s y t P) (hPQ : ∀ a s' b t', P a s' b t' → Q a s' b t') :
    Agree x s y t Q := by
  obtain ⟨a, s', b, t', hx, hy, hP⟩ | hhalt := h
  · exact .of_eq hx hy (hPQ a s' b t' hP)
  · exact Or.inr hhalt

/-- **The rule of composition.** -/
theorem Agree.bind {f : α → Run σ γ} {g : β → Run τ δ} {R : γ → σ → δ → τ → Prop}
    (h : Agree x s y t P) (hfg : ∀ a s' b t', P a s' b t' → Agree (f a) s' (g b) t' R) :
    Agree (x >>= f) s (y >>= g) t R := by
  obtain ⟨a, s', b, t', hx, hy, hP⟩ | ⟨e, hx, hy⟩ := h
  · have hrest := hfg a s' b t' hP
    rw [Agree, run_bind, run_bind, hx, hy, andThen_done, andThen_done]
    exact hrest
  · refine Or.inr ⟨e, ?_, ?_⟩
    · rw [run_bind, hx, andThen_halt]
    · rw [run_bind, hy, andThen_halt]

/-- The same condition on both sides. -/
theorem Agree.ite {c d : Prop} [Decidable c] [Decidable d] {x' : Run σ α} {y' : Run τ β}
    (hcd : c ↔ d) (h : c → Agree x s y t Q) (h' : ¬ c → Agree x' s y' t Q) :
    Agree (if c then x else x') s (if d then y else y') t Q := by
  by_cases hc : c
  · rw [if_pos hc, if_pos (hcd.mp hc)]
    exact h hc
  · rw [if_neg hc, if_neg fun hd => hc (hcd.mpr hd)]
    exact h' hc

/-- The same assertion. -/
theorem agree_assert {c d : Bool} (hcd : c = d) :
    Agree (assert c : Run σ Unit) s (assert d : Run τ Unit) t fun _ s' _ t' =>
      s' = s ∧ t' = t ∧ c = true := by
  subst hcd
  cases c with
  | false => exact agree_halt _
  | true => exact agree_pure ⟨rfl, rfl, rfl⟩

/-- Programs on parts of the states. -/
theorem Agree.zoom {gσ : σ' → σ} {pσ : σ → σ' → σ'} {gτ : τ' → τ} {pτ : τ → τ' → τ'} {s : σ'}
    {t : τ'} {R : α → σ' → β → τ' → Prop}
    (h : Agree x (gσ s) y (gτ t) fun a s' b t' => R a (pσ s' s) b (pτ t' t)) :
    Agree (Run.zoom gσ pσ x) s (Run.zoom gτ pτ y) t R := by
  obtain ⟨a, s', b, t', hx, hy, hR⟩ | ⟨e, hx, hy⟩ := h
  · refine .of_eq ?_ ?_ hR
    · rw [run_zoom, hx, Outcome.onState_done]
    · rw [run_zoom, hy, Outcome.onState_done]
  · refine Or.inr ⟨e, ?_, ?_⟩
    · rw [run_zoom, hx, Outcome.onState_halt]
    · rw [run_zoom, hy, Outcome.onState_halt]

/-! ### One side alone -/

/-- Two programs that return. -/
theorem Ensures.agree {X : α → σ → Prop} {Y : β → τ → Prop} (hx : Ensures x s X)
    (hy : Ensures y t Y) (h : ∀ a s' b t', X a s' → Y b t' → Q a s' b t') : Agree x s y t Q := by
  obtain ⟨a, s', hx, hX⟩ := hx
  obtain ⟨b, t', hy, hY⟩ := hy
  exact .of_eq hx hy (h a s' b t' hX hY)

/-- **A run that returns** is matched by one that does. -/
theorem Agree.matched (h : Agree x s y t Q) (hx : x.run s = .done a s') :
    ∃ b t', y.run t = .done b t' ∧ Q a s' b t' := by
  obtain ⟨a', s'', b, t', hx', hy, hQ⟩ | ⟨e, hx', -⟩ := h
  · rw [hx] at hx'
    cases hx'
    exact ⟨b, t', hy, hQ⟩
  · rw [hx] at hx'
    cases hx'

/-- If the second program returns, so does the first. -/
theorem Agree.ensures (h : Agree x s y t Q) (hy : y.run t = .done b t') :
    Ensures x s fun a s' => Q a s' b t' := by
  obtain ⟨a, s', b', t'', hx, hy', hQ⟩ | ⟨e, -, hy'⟩ := h
  · rw [hy] at hy'
    cases hy'
    exact .of_eq hx hQ
  · rw [hy] at hy'
    cases hy'

end Rules

/-- **The rule of loops**: a relation that every pair of iterations keeps. -/
theorem Agree.loop {body : β → Run σ (β ⊕ γ)} {body' : β' → Run τ (β' ⊕ δ)}
    {I : β → σ → β' → τ → Prop} {Q : γ → σ → δ → τ → Prop}
    (hbody : ∀ b s b' t, I b s b' t → Agree (body b) s (body' b') t fun r s' r' t' =>
      Sum.LiftRel (I · s' · t') (Q · s' · t') r r')
    (fuel : ℕ) {b : β} {s : σ} {b' : β'} {t : τ} (hI : I b s b' t) :
    Agree (Run.loop body fuel b) s (Run.loop body' fuel b') t Q := by
  induction fuel generalizing b s b' t with
  | zero => exact agree_halt _
  | succ n ih =>
    refine (hbody b s b' t hI).bind ?_
    rintro r s' r' t' h
    cases h with
    | inl hI' => exact ih hI'
    | inr hQ => exact agree_pure hQ

end Run
