import Mathlib.Algebra.GroupWithZero.Nat
import Mathlib.Data.List.Basic
import Mathlib.Data.List.Induction
import Mathlib.Tactic.Common
import MicroSql.Lib.Except

/-!
# Going over a list

A sweep visits the elements of a list one after the other and leaves another element or none in
the place of each.  A visit sees the elements before its own as they are by then, and those after
it as they were.
-/

namespace MicroSql.Lib

/-- What a visit makes of an element between two lists: whether it counts, and what it leaves. -/
abbrev Visit (ε ρ : Type) : Type := List ρ → ρ → List ρ → Except ε (Bool × Option ρ)

/-- The elements `old`, after which `rest` comes, have been visited; `new` is what is left of
them, and `n` of the visits count. -/
inductive Swept {ε ρ : Type} (visit : Visit ε ρ) : List ρ → List ρ → ℕ → List ρ → Prop
  | nil (rest : List ρ) : Swept visit [] rest 0 []
  | snoc {old rest new : List ρ} {n : ℕ} {x : ρ} {c : Bool} {o : Option ρ}
      (h : Swept visit old (x :: rest) n new) (hvisit : visit new x rest = .ok (c, o)) :
      Swept visit (old ++ [x]) rest (n + c.toNat) (new ++ o.toList)

/-- What a sweep cannot do: `full` is the failure of a visit that leaves what does not go into its
place, and `tooMany` that of one that counts when `most` have counted before it. -/
structure Limits (ε : Type) where
  full : ε
  most : ℕ
  tooMany : ε

/-- Why a sweep stops at `x`, between `new` and `rest`, when `n` visits have counted. -/
inductive StopsAt {ε ρ : Type} (visit : Visit ε ρ) (limits : Limits ε) (new : List ρ) (x : ρ)
    (rest : List ρ) (n : ℕ) : ε → Prop
  | fails {e : ε} (h : visit new x rest = .error e) : StopsAt visit limits new x rest n e
  | full {y : ρ} (h : visit new x rest = .ok (true, some y)) :
      StopsAt visit limits new x rest n limits.full
  | tooMany {o : Option ρ} (h : visit new x rest = .ok (true, o)) (hn : n = limits.most) :
      StopsAt visit limits new x rest n limits.tooMany

/-- How a sweep over `rows` ends: it visits all of them, or it stops at one.  Of the elements
before that one, some may be kept as they were. -/
inductive Sweeps {ε ρ : Type} (visit : Visit ε ρ) (limits : Limits ε) (rows : List ρ) :
    Except ε ℕ → List ρ → Prop
  | done {n : ℕ} {new : List ρ} (h : Swept visit rows [] n new) (hn : n ≤ limits.most) :
      Sweeps visit limits rows (.ok n) new
  | stopped {old rest new done undone : List ρ} {x : ρ} {n m : ℕ} {e : ε}
      (hrows : rows = old ++ x :: rest) (hold : Swept visit old (x :: rest) n new)
      (hn : n ≤ limits.most) (hstop : StopsAt visit limits new x rest n e)
      (hkept : ∃ first, old = first ++ undone ∧ Swept visit first (undone ++ x :: rest) m done) :
      Sweeps visit limits rows (.error e) (done ++ (undone ++ x :: rest))

namespace Swept

variable {ε ρ : Type} {visit : Visit ε ρ} {old rest new : List ρ} {n : ℕ}

/-- An invariant of the whole list. -/
theorem invariant {K : List ρ → Prop} (h : Swept visit old rest n new)
    (hvisit : ∀ before x after c o, visit before x after = .ok (c, o) →
      K (before ++ x :: after) → K (before ++ o.toList ++ after))
    (hK : K (old ++ rest)) : K (new ++ rest) := by
  induction h with
  | nil rest => exact hK
  | @snoc old rest new n x c o _ hx ih =>
    rw [List.append_assoc, List.singleton_append] at hK
    exact hvisit _ _ _ _ _ hx (ih hK)

/-- What is left is what some visit has left. -/
theorem exists_of_mem (h : Swept visit old rest n new) {y : ρ} (hy : y ∈ new) :
    ∃ before x after c, x ∈ old ∧ visit before x after = .ok (c, some y) := by
  induction h with
  | nil => cases hy
  | @snoc old rest new n x c o _ hx ih =>
    rcases List.mem_append.1 hy with hy | hy
    · obtain ⟨before, z, after, c', hz, hvisit⟩ := ih hy
      exact ⟨before, z, after, c', List.mem_append_left _ hz, hvisit⟩
    · obtain rfl : o = some y := Option.mem_toList.1 hy
      exact ⟨new, x, rest, c, List.mem_append_right _ (List.mem_singleton_self x), hx⟩

/-- A measure of the elements that every visit changes by the same for those that count. -/
theorem measure {f : ρ → ℕ} {d : ℕ} (h : Swept visit old rest n new)
    (hvisit : ∀ before x after c o, visit before x after = .ok (c, o) →
      (o.toList.map f).sum + d * c.toNat = f x) :
    (new.map f).sum + d * n = (old.map f).sum := by
  induction h with
  | nil => simp
  | @snoc old rest new n x c o _ hx ih =>
    have hone := hvisit _ _ _ _ _ hx
    simp only [List.map_append, List.sum_append, List.map_cons, List.map_nil, List.sum_singleton,
      Nat.mul_add] at ih ⊢
    omega

/-- The visits that count are of elements of a kind. -/
theorem le_countP {p : ρ → Bool} (h : Swept visit old rest n new)
    (hvisit : ∀ before x after o, visit before x after = .ok (true, o) → p x = true) :
    n ≤ old.countP p := by
  induction h with
  | nil => exact Nat.zero_le _
  | @snoc old rest new n x c o _ hx ih =>
    rw [List.countP_append, List.countP_singleton]
    cases c with
    | false => exact Nat.le_trans ih (Nat.le_add_right _ _)
    | true =>
      rw [if_pos (hvisit _ _ _ _ hx)]
      exact Nat.add_le_add_right ih 1

/-- The last visit. -/
theorem snoc_inv {x : ρ} (h : Swept visit (old ++ [x]) rest n new) : ∃ m init c o,
    Swept visit old (x :: rest) m init ∧ visit init x rest = .ok (c, o) ∧
      new = init ++ o.toList ∧ n = m + c.toNat := by
  generalize hall : old ++ [x] = all at h
  cases h with
  | nil => simp at hall
  | @snoc old' rest init m y c o h hvisit =>
    obtain ⟨rfl, hlast⟩ := List.append_inj' hall rfl
    obtain rfl := List.singleton_inj.1 hlast
    exact ⟨m, init, c, o, h, hvisit, rfl, rfl⟩

/-- Visits that leave their elements as they are. -/
theorem unchanged (h : Swept visit old rest n new)
    (hsame : ∀ x ∈ old, ∀ before after, visit before x after = .ok (false, some x)) :
    new = old ∧ n = 0 := by
  induction h with
  | nil => exact ⟨rfl, rfl⟩
  | @snoc old rest new n x c o _ hvisit ih =>
    obtain ⟨rfl, rfl⟩ := ih fun y hy => hsame y (List.mem_append_left _ hy)
    rw [hsame x (List.mem_append_right _ (List.mem_singleton_self x))] at hvisit
    cases hvisit
    exact ⟨rfl, rfl⟩

/-- Only the visit of one element may change something. -/
theorem single {before after : List ρ} {x : ρ} (h : Swept visit (before ++ x :: after) rest n new)
    (hsame : ∀ y ∈ before ++ after, ∀ b a, visit b y a = .ok (false, some y)) :
    ∃ c o, visit before x (after ++ rest) = .ok (c, o) ∧ new = before ++ o.toList ++ after ∧
      n = c.toNat := by
  induction after using List.reverseRecOn generalizing rest n new with
  | nil =>
    obtain ⟨m, init, c, o, hinit, hvisit, rfl, rfl⟩ := h.snoc_inv
    obtain ⟨rfl, rfl⟩ := hinit.unchanged fun y hy => hsame y (List.mem_append_left _ hy)
    exact ⟨c, o, hvisit, by simp, Nat.zero_add _⟩
  | append_singleton after y ih =>
    rw [← List.cons_append, ← List.append_assoc] at h
    obtain ⟨m, init, c, o, hinit, hvisit, rfl, rfl⟩ := h.snoc_inv
    obtain ⟨c', o', hx, rfl, rfl⟩ := ih hinit fun z hz => hsame z (by
      rcases List.mem_append.1 hz with hz | hz <;> simp [hz])
    rw [hsame y (by simp)] at hvisit
    cases hvisit
    exact ⟨c', o', by simpa using hx, by simp, rfl⟩

end Swept

/-- A sweep does not stop at an element that is left as it is. -/
theorem StopsAt.not_unchanged {ε ρ : Type} {visit : Visit ε ρ} {limits : Limits ε}
    {new rest : List ρ} {x : ρ} {n : ℕ} {e : ε} (h : StopsAt visit limits new x rest n e) :
    visit new x rest ≠ .ok (false, some x) := by
  intro hx
  cases h with
  | fails h =>
    rw [hx] at h
    cases h
  | full h =>
    rw [hx] at h
    cases h
  | tooMany h hn =>
    rw [hx] at h
    cases h

namespace Sweeps

variable {ε ρ : Type} {visit : Visit ε ρ} {limits : Limits ε} {rows new : List ρ} {out : Except ε ℕ}

/-- However a sweep ends, some elements have been visited and the others are as they were. -/
theorem exists_swept (h : Sweeps visit limits rows out new) :
    ∃ old rest n done, rows = old ++ rest ∧ new = done ++ rest ∧ Swept visit old rest n done := by
  cases h with
  | @done n new h hn => exact ⟨rows, [], n, new, by simp, by simp, h⟩
  | @stopped old rest new done undone x n m e hrows hold hn hstop hkept =>
    obtain ⟨first, rfl, hfirst⟩ := hkept
    exact ⟨first, undone ++ x :: rest, m, done, by simp [hrows], rfl, hfirst⟩

/-- Where a sweep stops that fails. -/
theorem exists_stopsAt {e : ε} (h : Sweeps visit limits rows (.error e) new) :
    ∃ old x rest n done, rows = old ++ x :: rest ∧ Swept visit old (x :: rest) n done ∧
      n ≤ limits.most ∧ StopsAt visit limits done x rest n e := by
  generalize hout : (Except.error e : Except ε ℕ) = out at h
  cases h with
  | done => cases hout
  | stopped hrows hold hn hstop =>
    cases hout
    exact ⟨_, _, _, _, _, hrows, hold, hn, hstop⟩

/-- A sweep can end as its visits can, or at one of the limits. -/
theorem settles {F : ε → Prop} (h : Sweeps visit limits rows out new)
    (hvisit : ∀ x ∈ rows, ∀ before after, Settles F (fun _ => True) (visit before x after))
    (hfull : ∀ before x after y, visit before x after = .ok (true, some y) → F limits.full)
    (hover : F limits.tooMany) : Settles F (fun _ => True) out := by
  rcases out with e | n
  swap
  · exact .ok trivial
  obtain ⟨old, x, rest, n, done, rfl, -, -, hstop⟩ := h.exists_stopsAt
  refine .error ?_
  cases hstop with
  | fails hfail =>
    have hsettles := hvisit x (by simp) done rest
    rw [hfail] at hsettles
    exact hsettles.of_error
  | full hx => exact hfull _ _ _ _ hx
  | tooMany => exact hover

theorem invariant {K : List ρ → Prop} (h : Sweeps visit limits rows out new)
    (hvisit : ∀ before x after c o, visit before x after = .ok (c, o) →
      K (before ++ x :: after) → K (before ++ o.toList ++ after))
    (hK : K rows) : K new := by
  obtain ⟨old, rest, n, done, rfl, rfl, hswept⟩ := h.exists_swept
  exact hswept.invariant hvisit hK

/-- The visit at which a sweep stops would not leave its element as it is. -/
theorem unchanged (h : Sweeps visit limits rows out new)
    (hsame : ∀ x ∈ rows, ∀ before after, visit before x after = .ok (false, some x)) :
    out = .ok 0 ∧ new = rows := by
  cases h with
  | done h hn =>
    obtain ⟨rfl, rfl⟩ := h.unchanged hsame
    exact ⟨rfl, rfl⟩
  | @stopped old rest new done undone x n m e hrows _ _ hstop _ =>
    exact absurd (hsame x (by simp [hrows]) new rest) hstop.not_unchanged

/-- **A sweep that can change one element only is all or nothing.** -/
theorem single {before after : List ρ} {x : ρ}
    (h : Sweeps visit limits (before ++ x :: after) out new)
    (hsame : ∀ y ∈ before ++ after, ∀ b a, visit b y a = .ok (false, some y)) :
    (∃ c o, visit before x after = .ok (c, o) ∧ out = .ok c.toNat ∧
      new = before ++ o.toList ++ after) ∨
    ∃ e, out = .error e ∧ new = before ++ x :: after := by
  cases h with
  | done h hn =>
    obtain ⟨c, o, hvisit, rfl, rfl⟩ := h.single hsame
    rw [List.append_nil] at hvisit
    exact .inl ⟨c, o, hvisit, rfl, rfl⟩
  | @stopped old rest new done undone z n m e hrows hold hn hstop hkept =>
    refine .inr ⟨e, rfl, ?_⟩
    obtain ⟨first, rfl, hfirst⟩ := hkept
    -- the sweep does not stop at an element that is left as it is
    have hstops : z ∉ before ++ after := fun hz => hstop.not_unchanged (hsame z hz _ _)
    have hbefore : first ++ undone = before := by
      rcases List.append_eq_append_iff.1 hrows with ⟨l, hl, htail⟩ | ⟨l, hl, htail⟩
      · cases l with
        | nil => rw [hl, List.append_nil]
        | cons y l =>
          obtain ⟨-, rfl⟩ := List.cons.inj htail
          exact absurd (by simp) hstops
      · cases l with
        | nil => rw [hl, List.append_nil]
        | cons y l =>
          obtain ⟨rfl, -⟩ := List.cons.inj htail
          exact absurd (by simp [hl]) hstops
    obtain ⟨rfl, -⟩ := hfirst.unchanged fun y hy =>
      hsame y (List.mem_append_left _ (hbefore ▸ List.mem_append_left _ hy))
    rw [hrows, List.append_assoc]

end Sweeps

end MicroSql.Lib
