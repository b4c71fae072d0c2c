import Mathlib.Data.List.Forall2
import Mathlib.Tactic.Common

/-!
# Systems and simulations

A system answers inputs.  It may have several answers to one input, and it may change its state
silently between two of them.  A run is a list of inputs with their answers.  A simulation
relates the states of two systems such that the one has no answer that the other one does not
have; then every run of the first is a run of the second.
-/

namespace MicroSql.Lib

/-- The answers of type `β` to inputs of type `α`, and the silent steps. -/
structure System (σ α β : Type) where
  step : σ → α → β → σ → Prop
  silent : σ → σ → Prop := fun _ _ => False

namespace System

variable {σ τ α α' β : Type}

/-- A run from one state to another. -/
inductive Run (S : System σ α β) : σ → List (α × β) → σ → Prop
  | nil (s : σ) : Run S s [] s
  | step {s s' t : σ} {a : α} {b : β} {l : List (α × β)} (h : S.step s a b s')
      (rest : Run S s' l t) : Run S s ((a, b) :: l) t
  | silent {s s' t : σ} {l : List (α × β)} (h : S.silent s s') (rest : Run S s' l t) : Run S s l t

namespace Run

variable {S : System σ α β} {s t u : σ} {l l' : List (α × β)}

theorem append (h : S.Run s l t) (h' : S.Run t l' u) : S.Run s (l ++ l') u := by
  induction h with
  | nil s => exact h'
  | step h _ ih => exact .step h (ih h')
  | silent h _ ih => exact .silent h (ih h')

/-- A run can be cut between any two inputs. -/
theorem split (h : S.Run s (l ++ l') u) : ∃ t, S.Run s l t ∧ S.Run t l' u := by
  generalize hl : l ++ l' = whole at h
  induction h generalizing l with
  | nil s =>
    obtain ⟨rfl, rfl⟩ := List.append_eq_nil_iff.1 hl
    exact ⟨s, .nil s, .nil s⟩
  | @step s s' u a b rest h run ih =>
    cases l with
    | nil =>
      rw [List.nil_append] at hl
      subst hl
      exact ⟨s, .nil s, .step h run⟩
    | cons x l =>
      obtain ⟨rfl, htail⟩ := List.cons.inj hl
      obtain ⟨t, hleft, hright⟩ := ih htail
      exact ⟨t, .step h hleft, hright⟩
  | silent h _ ih =>
    obtain ⟨t, hleft, hright⟩ := ih hl
    exact ⟨t, .silent h hleft, hright⟩

/-- What every step keeps holds along a run; it may speak of what has been answered so far. -/
theorem history {I : List (α × β) → σ → Prop} (h : S.Run s l t) (h0 : I [] s)
    (hstep : ∀ l s a b s', I l s → S.step s a b s' → I (l ++ [(a, b)]) s')
    (hsilent : ∀ l s s', I l s → S.silent s s' → I l s') : I l t := by
  suffices hgeneral : ∀ {past}, I past s → I (past ++ l) t from hgeneral h0
  clear h0
  induction h with
  | nil s => exact fun hI => by rwa [List.append_nil]
  | @step s s' t a b l h _ ih =>
    intro past hI
    have hnext := ih (hstep past s a b s' hI h)
    rwa [List.append_assoc, List.singleton_append] at hnext
  | silent h _ ih => exact fun hI => ih (hsilent _ _ _ hI h)

/-- An invariant of the states. -/
theorem invariant {I : σ → Prop} (h : S.Run s l t) (h0 : I s)
    (hstep : ∀ s a b s', I s → S.step s a b s' → I s')
    (hsilent : ∀ s s', I s → S.silent s s' → I s') : I t :=
  h.history (I := fun _ s => I s) h0 (fun _ => hstep) fun _ => hsilent

end Run

/-- Steps of `C` from a state that `R` relates to one of `A` are answered by steps of `A`, on
inputs that `In` relates; silent steps of `C` are not seen in `A`. -/
structure Simulation (C : System σ α β) (A : System τ α' β) (In : α → α' → Prop)
    (R : σ → τ → Prop) : Prop where
  step : ∀ {s t a a' b s'}, R s t → In a a' → C.step s a b s' →
    ∃ t', A.step t a' b t' ∧ R s' t'
  silent : ∀ {s t s'}, R s t → C.silent s s' → R s' t

/-- The inputs of a run replaced by others. -/
inductive Relabelled (In : α → α' → Prop) : List (α × β) → List (α' × β) → Prop
  | nil : Relabelled In [] []
  | cons {a : α} {a' : α'} {b : β} {l : List (α × β)} {l' : List (α' × β)} (h : In a a')
      (rest : Relabelled In l l') : Relabelled In ((a, b) :: l) ((a', b) :: l')

/-- **A simulation carries runs over.** -/
theorem Simulation.run {C : System σ α β} {A : System τ α' β} {In : α → α' → Prop}
    {R : σ → τ → Prop} (h : Simulation C A In R) {s s' : σ} {t : τ} {l : List (α × β)}
    {l' : List (α' × β)} (hR : R s t) (hrun : C.Run s l s') (hl : Relabelled In l l') :
    ∃ t', A.Run t l' t' ∧ R s' t' := by
  induction hrun generalizing t l' with
  | nil s =>
    cases hl
    exact ⟨t, .nil t, hR⟩
  | step hstep _ ih =>
    cases hl with
    | cons hin hl =>
      obtain ⟨t₁, ht₁, hR₁⟩ := h.step hR hin hstep
      obtain ⟨t', hrun', hR'⟩ := ih hR₁ hl
      exact ⟨t', .step ht₁ hrun', hR'⟩
  | silent hsilent _ ih => exact ih (h.silent hR hsilent) hl

end System

end MicroSql.Lib
