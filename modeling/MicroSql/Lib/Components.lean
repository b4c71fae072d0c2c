import Mathlib.Data.List.Basic
import Mathlib.Tactic.Common

/-!
# Machines made of independent components

A machine takes inputs one after the other; an input changes its state and has an
output.  Its state may be a bundle of components, with every input meant for one of
them.  `Components` says that an input acts on its own component as a small machine
does, and on no other one.  A run of the whole is then, seen from one component, the
run of the small machine on the inputs meant for it (`filter_trace`), and inputs for
different components may be exchanged.
-/

namespace MicroSql.Lib

/-- What an input of type `α` does to a state: an output and the next state. -/
abbrev Machine (σ α β : Type) : Type := α → σ → β × σ

namespace Machine

variable {σ τ α β ι : Type}

/-- The state after a list of inputs. -/
def run (m : Machine σ α β) (s : σ) (inputs : List α) : σ :=
  inputs.foldl (fun s a => (m a s).2) s

/-- The inputs of a run with their outputs. -/
def trace (m : Machine σ α β) : σ → List α → List (α × β)
  | _, [] => []
  | s, a :: inputs => (a, (m a s).1) :: m.trace (m a s).2 inputs

section Basic

variable (m : Machine σ α β) (s : σ)

@[simp] theorem run_nil : m.run s [] = s := rfl

@[simp] theorem run_cons (a : α) (inputs : List α) :
    m.run s (a :: inputs) = m.run (m a s).2 inputs := rfl

@[simp] theorem trace_nil : m.trace s [] = [] := rfl

@[simp] theorem trace_cons (a : α) (inputs : List α) :
    m.trace s (a :: inputs) = (a, (m a s).1) :: m.trace (m a s).2 inputs := rfl

theorem run_append (left right : List α) :
    m.run s (left ++ right) = m.run (m.run s left) right := by
  rw [run, List.foldl_append]
  rfl

/-- The inputs of a trace are those of the run. -/
theorem fst_mem_of_mem_trace {inputs : List α} {x : α × β} (hx : x ∈ m.trace s inputs) :
    x.1 ∈ inputs := by
  induction inputs generalizing s with
  | nil => cases hx
  | cons a inputs ih =>
    rcases List.mem_cons.1 hx with rfl | hx
    · exact List.mem_cons_self
    · exact List.mem_cons_of_mem _ (ih _ hx)

end Basic

/-- In the states that satisfy `Good`, the machine `m` is made of components: `part s i`
is the component `i` of `s`, the input `a` is for the component `ix a`, and `small` is
what inputs do to components. -/
structure Components (m : Machine σ α β) (ix : α → ι) (Good : σ → Prop) (part : σ → ι → τ)
    (small : Machine τ α β) : Prop where
  good : ∀ a s, Good s → Good (m a s).2
  output : ∀ a s, Good s → (m a s).1 = (small a (part s (ix a))).1
  own : ∀ a s, Good s → part (m a s).2 (ix a) = (small a (part s (ix a))).2
  others : ∀ a s, Good s → ∀ i, i ≠ ix a → part (m a s).2 i = part s i

namespace Components

variable {m : Machine σ α β} {ix : α → ι} {Good : σ → Prop} {part : σ → ι → τ}
  {small : Machine τ α β}

theorem good_run (h : Components m ix Good part small) {s : σ} (hs : Good s) (inputs : List α) :
    Good (m.run s inputs) := by
  induction inputs generalizing s with
  | nil => exact hs
  | cons a inputs ih => exact ih (h.good a s hs)

variable [DecidableEq ι]

/-- A component after a run has seen the inputs meant for it, and nothing else. -/
theorem part_run (h : Components m ix Good part small) {s : σ} (hs : Good s) (i : ι)
    (inputs : List α) :
    part (m.run s inputs) i = small.run (part s i) (inputs.filter fun a => ix a = i) := by
  induction inputs generalizing s with
  | nil => rfl
  | cons a inputs ih =>
    rw [run_cons, ih (h.good a s hs)]
    by_cases hi : ix a = i
    · rw [List.filter_cons_of_pos (by simpa using hi), run_cons, ← hi, h.own a s hs]
    · rw [List.filter_cons_of_neg (by simpa using hi), h.others a s hs i (Ne.symm hi)]

/-- The inputs meant for a component have the outputs that they have in a run of this
component alone. -/
theorem filter_trace (h : Components m ix Good part small) {s : σ} (hs : Good s) (i : ι)
    (inputs : List α) :
    (m.trace s inputs).filter (fun x => ix x.1 = i) =
      small.trace (part s i) (inputs.filter fun a => ix a = i) := by
  induction inputs generalizing s with
  | nil => rfl
  | cons a inputs ih =>
    rw [trace_cons]
    by_cases hi : ix a = i
    · rw [List.filter_cons_of_pos (by simpa using hi), List.filter_cons_of_pos (by simpa using hi),
        ih (h.good a s hs), trace_cons, h.output a s hs, ← hi, h.own a s hs]
    · rw [List.filter_cons_of_neg (by simpa using hi), List.filter_cons_of_neg (by simpa using hi),
        ih (h.good a s hs), h.others a s hs i (Ne.symm hi)]

/-- Inputs meant for one component have the same outputs when the others are left out, and
in every state where that component is the same. -/
theorem trace_alone (h : Components m ix Good part small) {s s' : σ} (hs : Good s) (hs' : Good s')
    {i : ι} (hpart : part s i = part s' i) (inputs : List α) :
    (m.trace s inputs).filter (fun x => ix x.1 = i) =
      m.trace s' (inputs.filter fun a => ix a = i) := by
  have halone : (m.trace s' (inputs.filter fun a => ix a = i)).filter (fun x => ix x.1 = i) =
      m.trace s' (inputs.filter fun a => ix a = i) := by
    rw [List.filter_eq_self]
    intro x hx
    exact (List.mem_filter.1 (fst_mem_of_mem_trace _ _ hx)).2
  rw [← halone, h.filter_trace hs, h.filter_trace hs', hpart, List.filter_filter]
  simp

/-- A component after a run is the same when the inputs for others are left out. -/
theorem part_alone (h : Components m ix Good part small) {s s' : σ} (hs : Good s) (hs' : Good s')
    {i : ι} (hpart : part s i = part s' i) (inputs : List α) :
    part (m.run s inputs) i = part (m.run s' (inputs.filter fun a => ix a = i)) i := by
  rw [h.part_run hs, h.part_run hs', hpart, List.filter_filter]
  simp

/-- States with the same components have the same outputs. -/
theorem trace_congr (h : Components m ix Good part small) {s s' : σ} (hs : Good s)
    (hs' : Good s') (hpart : ∀ i, part s i = part s' i) (inputs : List α) :
    m.trace s inputs = m.trace s' inputs := by
  induction inputs generalizing s s' with
  | nil => rfl
  | cons a inputs ih =>
    have hnext : ∀ i, part (m a s).2 i = part (m a s').2 i := by
      intro i
      by_cases hi : i = ix a
      · rw [hi, h.own a s hs, h.own a s' hs', hpart]
      · rw [h.others a s hs i hi, h.others a s' hs' i hi, hpart]
    rw [trace_cons, trace_cons, ih (h.good a s hs) (h.good a s' hs') hnext, h.output a s hs,
      h.output a s' hs', hpart]

/-- Inputs for different components have the same outputs in either order, and leave the
same components. -/
theorem commute (h : Components m ix Good part small) {s : σ} (hs : Good s) {a b : α}
    (hne : ix a ≠ ix b) :
    (m b (m a s).2).1 = (m b s).1 ∧
      ∀ i, part (m.run s [a, b]) i = part (m.run s [b, a]) i := by
  have ha := h.good a s hs
  constructor
  · rw [h.output b _ ha, h.output b s hs, h.others a s hs _ (Ne.symm hne)]
  · intro i
    rw [h.part_run hs, h.part_run hs]
    by_cases hi : ix a = i
    · have hb : ¬ix b = i := fun hb => hne (hi.trans hb.symm)
      simp [hi, hb]
    · simp [hi, List.filter_cons]

end Components

end Machine

end MicroSql.Lib
