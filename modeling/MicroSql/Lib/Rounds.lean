import Mathlib.Tactic.Common

/-!
# Loops with a number of rounds

A loop that is given a number of rounds, as a function of that number and of a configuration.  It
is out of rounds with none, and a round either leaves the loop or goes on from another
configuration.  Two rules: a loop whose rounds lower a measure ends, and a loop whose rounds stay
in a set of configurations never does.
-/

namespace MicroSql.Lib

variable {κ ρ : Type} (run : ℕ → κ → ρ) (Out : ρ → Prop)

/-- A round of the loop goes from one configuration on to the other. -/
def GoesOn (k k' : κ) : Prop := ∀ n, run (n + 1) k = run n k'

/-- No number of rounds is enough. -/
def Spins (k : κ) : Prop := ∀ n, Out (run n k)

variable {run Out} {I : κ → Prop}

/-- A loop goes on for ever if a round after one that spins does. -/
theorem Spins.of_goesOn (hzero : ∀ k, Out (run 0 k)) {k k' : κ} (hstep : GoesOn run k k')
    (h : Spins run Out k') : Spins run Out k
  | 0 => hzero k
  | n + 1 => by
    rw [hstep n]
    exact h n

theorem Spins.goesOn {k k' : κ} (h : Spins run Out k) (hstep : GoesOn run k k') :
    Spins run Out k' := fun n => by
  rw [← hstep n]
  exact h (n + 1)

/-- A loop that stays in a set of configurations never ends. -/
theorem spins_of_invariant (hzero : ∀ k, Out (run 0 k))
    (hstep : ∀ k, I k → ∃ k', I k' ∧ GoesOn run k k') {k : κ} (hk : I k) : Spins run Out k := by
  intro n
  induction n generalizing k with
  | zero => exact hzero k
  | succ n ih =>
    obtain ⟨k', hk', hgoes⟩ := hstep k hk
    rw [hgoes n]
    exact ih hk'

/-- A loop whose rounds lower a measure ends, with more rounds than the measure says. -/
theorem ends_of_measure (μ : κ → ℕ)
    (hstep : ∀ k, I k → (∀ n, ¬Out (run (n + 1) k)) ∨
      ∃ k', I k' ∧ μ k' < μ k ∧ GoesOn run k k') :
    ∀ {n : ℕ} {k : κ}, I k → μ k < n → ¬Out (run n k) := by
  intro n
  induction n with
  | zero => exact fun _ h => absurd h (Nat.not_lt_zero _)
  | succ n ih =>
    intro k hk hn
    rcases hstep k hk with hleaves | ⟨k', hk', hlt, hgoes⟩
    · exact hleaves n
    · rw [hgoes n]
      exact ih hk' (by omega)

end MicroSql.Lib
