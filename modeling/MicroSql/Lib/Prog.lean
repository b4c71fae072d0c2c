import Mathlib.Tactic.Common

/-!
# Programs with a state and failures

A program maps a state to a result and the state it leaves.  It keeps the state
it has reached when it fails, as a call that returns an error after some of its
writes does: nothing is rolled back.

The file supplies the monad, the equations that run a program step by step, and
five judgements with one rule for each way of building a program:

* `ReadOnly`: the program leaves the state as it was;
* `Spec`: a Hoare triple with one postcondition for a returned value and one for
  a failure;
* `Preserves`: the triple of an invariant;
* `Sim`: two programs over different states return the same result and keep
  their states related;
* `Guards`: a program is another one with more checks.
-/

namespace MicroSql.Lib

/-- A program over the states `σ` that returns an `α` or fails with an `ε`. -/
def Prog (σ ε α : Type) : Type := σ → Except ε α × σ

namespace Prog

variable {σ τ υ ε ε' α β γ : Type}

/-- Return a value and leave the state alone. -/
protected def ret (a : α) : Prog σ ε α := fun s => (.ok a, s)

/-- Run `c`, then `k` on its value; a failure of `c` ends the whole program in
the state that `c` left. -/
protected def seq (c : Prog σ ε α) (k : α → Prog σ ε β) : Prog σ ε β := fun s =>
  match c s with
  | (.ok a, s') => k a s'
  | (.error e, s') => (.error e, s')

instance : Monad (Prog σ ε) where
  pure := Prog.ret
  bind := Prog.seq

/-- Fail, leaving the state alone. -/
def fail (e : ε) : Prog σ ε α := fun s => (.error e, s)

/-- Fail with `e` when `c` holds, as an early return does. -/
def failIf (c : Prop) [Decidable c] (e : ε) : Prog σ ε Unit :=
  if c then fail e else pure ()

/-- Run `c` when `p` holds. -/
def when (p : Prop) [Decidable p] (c : Prog σ ε Unit) : Prog σ ε Unit :=
  if p then c else pure ()

/-- A computation that uses no state. -/
def lift (x : Except ε α) : Prog σ ε α := fun s => (x, s)

/-- The value of a function of the state. -/
def gets (f : σ → α) : Prog σ ε α := fun s => (.ok (f s), s)

/-- Change the state. -/
def modify (f : σ → σ) : Prog σ ε Unit := fun s => (.ok (), f s)

/-- Translate the failures of a program. -/
def mapError (f : ε → ε') (c : Prog σ ε α) : Prog σ ε' α := fun s =>
  match c s with
  | (.ok a, s') => (.ok a, s')
  | (.error e, s') => (.error (f e), s')

/-- Run a program on a local object, and return the object with the value.  The
object is lost when the program fails. -/
def runOn (c : Prog τ ε α) (t : τ) : Prog σ ε (α × τ) := fun s =>
  match c t with
  | (.ok a, t') => (.ok (a, t'), s)
  | (.error e, _) => (.error e, s)

/-! ### Running a program -/

@[simp] theorem pure_apply (a : α) (s : σ) : (pure a : Prog σ ε α) s = (.ok a, s) := rfl

@[simp] theorem fail_apply (e : ε) (s : σ) : (fail e : Prog σ ε α) s = (.error e, s) := rfl

@[simp] theorem lift_apply (x : Except ε α) (s : σ) : (lift x : Prog σ ε α) s = (x, s) := rfl

@[simp] theorem gets_apply (f : σ → α) (s : σ) :
    (gets f : Prog σ ε α) s = (.ok (f s), s) := rfl

@[simp] theorem modify_apply (f : σ → σ) (s : σ) :
    (modify f : Prog σ ε Unit) s = (.ok (), f s) := rfl

theorem bind_apply (c : Prog σ ε α) (k : α → Prog σ ε β) (s : σ) :
    (c >>= k) s = match c s with
      | (.ok a, s') => k a s'
      | (.error e, s') => (.error e, s') := rfl

theorem bind_ok {c : Prog σ ε α} {s s' : σ} {a : α} (h : c s = (.ok a, s'))
    (k : α → Prog σ ε β) : (c >>= k) s = k a s' := by
  rw [bind_apply, h]

theorem bind_error {c : Prog σ ε α} {s s' : σ} {e : ε} (h : c s = (.error e, s'))
    (k : α → Prog σ ε β) : (c >>= k) s = (.error e, s') := by
  rw [bind_apply, h]

@[simp] theorem pure_bind_apply (a : α) (k : α → Prog σ ε β) (s : σ) :
    ((pure a : Prog σ ε α) >>= k) s = k a s := rfl

@[simp] theorem gets_bind_apply (f : σ → α) (k : α → Prog σ ε β) (s : σ) :
    (gets f >>= k) s = k (f s) s := rfl

@[simp] theorem modify_bind_apply (f : σ → σ) (k : Unit → Prog σ ε β) (s : σ) :
    (modify f >>= k) s = k () (f s) := rfl

@[simp] theorem lift_ok_bind_apply (a : α) (k : α → Prog σ ε β) (s : σ) :
    (lift (.ok a) >>= k) s = k a s := rfl

@[simp] theorem lift_error_bind_apply (e : ε) (k : α → Prog σ ε β) (s : σ) :
    (lift (.error e) >>= k) s = (.error e, s) := rfl

@[simp] theorem fail_bind_apply (e : ε) (k : α → Prog σ ε β) (s : σ) :
    ((fail e : Prog σ ε α) >>= k) s = (.error e, s) := rfl

theorem failIf_pos {c : Prop} [Decidable c] (h : c) (e : ε) :
    (failIf c e : Prog σ ε Unit) = fail e := if_pos h

theorem failIf_neg {c : Prop} [Decidable c] (h : ¬c) (e : ε) :
    (failIf c e : Prog σ ε Unit) = pure () := if_neg h

theorem failIf_apply (c : Prop) [Decidable c] (e : ε) (s : σ) :
    (failIf c e : Prog σ ε Unit) s = (if c then .error e else .ok (), s) := by
  unfold failIf
  split <;> rfl

theorem when_apply (p : Prop) [Decidable p] (c : Prog σ ε Unit) (s : σ) :
    when p c s = if p then c s else (.ok (), s) := by
  unfold when
  split <;> rfl

private theorem id_map (c : Prog σ ε α) : id <$> c = c := by
  funext s
  change (match c s with
    | (.ok a, s') => (Except.ok (id a), s')
    | (.error e, s') => (.error e, s')) = c s
  rcases c s with ⟨_ | a, s'⟩ <;> rfl

private theorem bind_assoc (c : Prog σ ε α) (k : α → Prog σ ε β) (l : β → Prog σ ε γ) :
    c >>= k >>= l = c >>= fun a => k a >>= l := by
  funext s
  simp only [bind_apply]
  rcases c s with ⟨_ | a, s'⟩ <;> rfl

instance : LawfulMonad (Prog σ ε) :=
  LawfulMonad.mk' (Prog σ ε) id_map (fun _ _ => rfl) bind_assoc

/-- A sequence returns exactly when its two halves do. -/
theorem bind_eq_ok {c : Prog σ ε α} {k : α → Prog σ ε β} {s t : σ} {b : β} :
    (c >>= k) s = (.ok b, t) ↔ ∃ a s', c s = (.ok a, s') ∧ k a s' = (.ok b, t) := by
  rw [bind_apply]
  constructor
  · intro h
    rcases hc : c s with ⟨_ | a, s'⟩
    · rw [hc] at h
      simp at h
    · rw [hc] at h
      exact ⟨a, s', rfl, h⟩
  · rintro ⟨a, s', hc, hk⟩
    rw [hc]
    exact hk

theorem lift_bind_eq_ok {x : Except ε α} {k : α → Prog σ ε β} {s t : σ} {b : β} :
    (lift x >>= k) s = (.ok b, t) ↔ ∃ a, x = .ok a ∧ k a s = (.ok b, t) := by
  rcases x with e | a
  · simp
  · simp

@[simp] theorem mapError_apply (f : ε → ε') (c : Prog σ ε α) (s : σ) :
    mapError f c s = ((c s).1.mapError f, (c s).2) := by
  unfold mapError
  rcases c s with ⟨_ | a, s'⟩ <;> rfl

theorem runOn_apply (c : Prog τ ε α) (t : τ) (s : σ) :
    (runOn c t : Prog σ ε (α × τ)) s = ((c t).1.map fun a => (a, (c t).2), s) := by
  unfold runOn
  rcases c t with ⟨_ | a, t'⟩ <;> rfl

/-! ### Programs that only read -/

/-- The program leaves every state as it was. -/
def ReadOnly (c : Prog σ ε α) : Prop := ∀ s, (c s).2 = s

namespace ReadOnly

theorem pure (a : α) : ReadOnly (pure a : Prog σ ε α) := fun _ => rfl

theorem fail (e : ε) : ReadOnly (fail e : Prog σ ε α) := fun _ => rfl

theorem lift (x : Except ε α) : ReadOnly (lift x : Prog σ ε α) := fun _ => rfl

theorem runOn (c : Prog τ ε α) (t : τ) : ReadOnly (runOn c t : Prog σ ε (α × τ)) := fun s => by
  rw [runOn_apply]

theorem failIf (c : Prop) [Decidable c] (e : ε) :
    ReadOnly (failIf c e : Prog σ ε Unit) := fun s => by
  rw [failIf_apply]

theorem mapError {c : Prog σ ε α} (h : ReadOnly c) (f : ε → ε') :
    ReadOnly (mapError f c) := fun s => by
  rw [mapError_apply]
  exact h s

theorem bind {c : Prog σ ε α} {k : α → Prog σ ε β} (hc : ReadOnly c)
    (hk : ∀ a, ReadOnly (k a)) : ReadOnly (c >>= k) := fun s => by
  have hs := hc s
  rw [bind_apply]
  rcases h : c s with ⟨_ | a, s'⟩ <;> rw [h] at hs
  · exact hs
  · exact (hk a s').trans hs

theorem ite {p : Prop} [Decidable p] {c d : Prog σ ε α} (hc : ReadOnly c) (hd : ReadOnly d) :
    ReadOnly (if p then c else d) := by
  split
  · exact hc
  · exact hd

theorem foldlM {f : β → α → Prog σ ε β} (h : ∀ b a, ReadOnly (f b a)) :
    ∀ (xs : List α) (b : β), ReadOnly (xs.foldlM f b)
  | [], b => ReadOnly.pure b
  | a :: xs, b => bind (h b a) fun b' => foldlM h xs b'

theorem anyM {p : α → Prog σ ε Bool} (h : ∀ a, ReadOnly (p a)) :
    ∀ xs : List α, ReadOnly (xs.anyM p)
  | [] => ReadOnly.pure false
  | a :: xs => bind (h a) fun
      | true => ReadOnly.pure true
      | false => anyM h xs

/-- What a program that only reads returns, with the state it was given. -/
theorem eq {c : Prog σ ε α} (h : ReadOnly c) (s : σ) : c s = ((c s).1, s) :=
  Prod.ext rfl (h s)

theorem bind_eq_ok {c : Prog σ ε α} (hc : ReadOnly c) {k : α → Prog σ ε β} {s t : σ} {b : β} :
    (c >>= k) s = (.ok b, t) ↔ ∃ a, c s = (.ok a, s) ∧ k a s = (.ok b, t) := by
  rw [Prog.bind_eq_ok]
  constructor
  · rintro ⟨a, s', hca, hk⟩
    have hs := hc s
    rw [hca] at hs
    cases hs
    exact ⟨a, hca, hk⟩
  · rintro ⟨a, hca, hk⟩
    exact ⟨a, s, hca, hk⟩

/-- A sequence fails exactly when one of its halves does. -/
theorem bind_eq_error {c : Prog σ ε α} (hc : ReadOnly c) {k : α → Prog σ ε β} {s : σ} {e : ε} :
    ((c >>= k) s).1 = .error e ↔
      (c s).1 = .error e ∨ ∃ a, (c s).1 = .ok a ∧ (k a s).1 = .error e := by
  have hs := hc.eq s
  rcases h : (c s).1 with e' | a <;> rw [h] at hs
  · rw [bind_error hs]
    simp
  · rw [bind_ok hs]
    simp

end ReadOnly

/-! ### Hoare triples -/

/-- From every state in `P` the program either returns a value and a state in
`Q`, or fails in a state in `E`. -/
def Spec (P : σ → Prop) (c : Prog σ ε α) (Q : α → σ → Prop) (E : ε → σ → Prop) : Prop :=
  ∀ s, P s → match c s with
    | (.ok a, s') => Q a s'
    | (.error e, s') => E e s'

namespace Spec

variable {P P' : σ → Prop} {Q Q' : α → σ → Prop} {E E' : ε → σ → Prop}

theorem intro {c : Prog σ ε α} (hok : ∀ s a s', P s → c s = (.ok a, s') → Q a s')
    (herr : ∀ s e s', P s → c s = (.error e, s') → E e s') : Spec P c Q E := by
  intro s hs
  rcases h : c s with ⟨e | a, s'⟩
  · exact herr s e s' hs h
  · exact hok s a s' hs h

theorem ok {c : Prog σ ε α} (h : Spec P c Q E) {s s' : σ} {a : α} (hs : P s)
    (hc : c s = (.ok a, s')) : Q a s' := by
  have := h s hs
  rwa [hc] at this

theorem error {c : Prog σ ε α} (h : Spec P c Q E) {s s' : σ} {e : ε} (hs : P s)
    (hc : c s = (.error e, s')) : E e s' := by
  have := h s hs
  rwa [hc] at this

/-- Strengthen the precondition and weaken both postconditions. -/
theorem conseq {c : Prog σ ε α} (h : Spec P c Q E) (hP : ∀ s, P' s → P s)
    (hQ : ∀ a s, Q a s → Q' a s) (hE : ∀ e s, E e s → E' e s) : Spec P' c Q' E' :=
  intro (fun _ a s' hs hc => hQ a s' (h.ok (hP _ hs) hc))
    (fun _ e s' hs hc => hE e s' (h.error (hP _ hs) hc))

theorem pure {a : α} (h : ∀ s, P s → Q a s) : Spec P (pure a) Q E := fun s hs => h s hs

theorem fail {e : ε} (h : ∀ s, P s → E e s) : Spec P (fail e) Q E := fun s hs => h s hs

theorem lift {x : Except ε α} (hok : ∀ a s, x = .ok a → P s → Q a s)
    (herr : ∀ e s, x = .error e → P s → E e s) : Spec P (lift x) Q E := by
  intro s hs
  rcases x with e | a
  · exact herr e s rfl hs
  · exact hok a s rfl hs

theorem bind {c : Prog σ ε α} {k : α → Prog σ ε β} {R : α → σ → Prop} {Q : β → σ → Prop}
    (hc : Spec P c R E) (hk : ∀ a, Spec (R a) (k a) Q E) : Spec P (c >>= k) Q E := by
  intro s hs
  rw [bind_apply]
  rcases h : c s with ⟨e | a, s'⟩
  · exact hc.error hs h
  · exact hk a s' (hc.ok hs h)

theorem ite {p : Prop} [Decidable p] {c d : Prog σ ε α} (hc : p → Spec P c Q E)
    (hd : ¬p → Spec P d Q E) : Spec P (if p then c else d) Q E := by
  split
  · exact hc ‹_›
  · exact hd ‹_›

/-- The loop rule for a loop over consecutive numbers: the invariant speaks of the number
that comes next and of the accumulator. -/
theorem foldlM_range' {f : β → ℕ → Prog σ ε β} {I : ℕ → β → σ → Prop} {E : ε → σ → Prop}
    (k m : ℕ) (b : β)
    (hstep : ∀ i b, k ≤ i → i < k + m → Spec (I i b) (f b i) (I (i + 1)) E) :
    Spec (I k b) ((List.range' k m).foldlM f b) (I (k + m)) E := by
  induction m generalizing k b with
  | zero => exact pure fun s hs => hs
  | succ m ih =>
    rw [List.range'_succ, List.foldlM_cons]
    refine bind (hstep k b (Nat.le_refl k) (by omega)) fun b' => ?_
    have hrest := ih (k + 1) b' fun i b h1 h2 => hstep i b (by omega) (by omega)
    rwa [Nat.add_right_comm] at hrest

end Spec

/-! ### Invariants -/

/-- The program returns in `I` when it starts there. -/
def Preserves (I : σ → Prop) (c : Prog σ ε α) : Prop := Spec I c (fun _ => I) fun _ _ => True

namespace Preserves

variable {I : σ → Prop} {c d : Prog σ ε α}

theorem of_ok (h : ∀ s a s', I s → c s = (.ok a, s') → I s') : Preserves I c :=
  Spec.intro h fun _ _ _ _ _ => trivial

theorem of_apply (h : ∀ s, I s → I (c s).2) : Preserves I c :=
  of_ok fun s a s' hs hc => by
    have := h s hs
    rwa [hc] at this

theorem pure (a : α) : Preserves I (pure a : Prog σ ε α) := Spec.pure fun _ h => h

theorem fail (e : ε) : Preserves I (fail e : Prog σ ε α) := Spec.fail fun _ _ => trivial

theorem lift (x : Except ε α) : Preserves I (lift x : Prog σ ε α) := of_apply fun _ h => h

theorem bind {k : α → Prog σ ε β} (hc : Preserves I c) (hk : ∀ a, Preserves I (k a)) :
    Preserves I (c >>= k) := Spec.bind hc hk

theorem ite {p : Prop} [Decidable p] (hc : Preserves I c) (hd : Preserves I d) :
    Preserves I (if p then c else d) := Spec.ite (fun _ => hc) fun _ => hd

theorem «when» {p : Prop} [Decidable p] {c : Prog σ ε Unit} (hc : Preserves I c) :
    Preserves I (when p c) := ite hc (pure ())

/-- An early return. -/
theorem guard {c : Prog σ ε Bool} {d : Prog σ ε Unit} (hc : Preserves I c)
    (hd : Preserves I d) : Preserves I (do if ← c then d) :=
  bind hc fun _ => ite hd (pure ())

end Preserves

/-! ### Simulations -/

/-- From related states the two programs return the same value in states related
by `Q`, or fail alike in states related by `E`. -/
def Sim (R : σ → τ → Prop) (c : Prog σ ε α) (d : Prog τ ε α) (Q E : σ → τ → Prop) : Prop :=
  ∀ s t, R s t → (c s).1 = (d t).1 ∧
    match (c s).1 with
    | .ok _ => Q (c s).2 (d t).2
    | .error _ => E (c s).2 (d t).2

namespace Sim

variable {R R' Q Q' E : σ → τ → Prop}

theorem intro {c : Prog σ ε α} {d : Prog τ ε α}
    (h : ∀ s t, R s t → (∃ a s' t', c s = (.ok a, s') ∧ d t = (.ok a, t') ∧ Q s' t') ∨
      ∃ e s' t', c s = (.error e, s') ∧ d t = (.error e, t') ∧ E s' t') : Sim R c d Q E := by
  intro s t hst
  rcases h s t hst with ⟨a, s', t', hc, hd, hq⟩ | ⟨e, s', t', hc, hd, hq⟩
  · rw [hc, hd]
    exact ⟨rfl, hq⟩
  · rw [hc, hd]
    exact ⟨rfl, hq⟩

theorem elim {c : Prog σ ε α} {d : Prog τ ε α} (h : Sim R c d Q E) {s : σ} {t : τ} (hst : R s t) :
    (∃ a s' t', c s = (.ok a, s') ∧ d t = (.ok a, t') ∧ Q s' t') ∨
      ∃ e s' t', c s = (.error e, s') ∧ d t = (.error e, t') ∧ E s' t' := by
  obtain ⟨h1, h2⟩ := h s t hst
  rcases hc : c s with ⟨e | a, s'⟩ <;> rcases hd : d t with ⟨e' | b, t'⟩ <;>
    rw [hc, hd] at h1 h2 <;> cases h1
  · exact .inr ⟨e, s', t', rfl, rfl, h2⟩
  · exact .inl ⟨a, s', t', rfl, rfl, h2⟩

theorem weaken {c : Prog σ ε α} {d : Prog τ ε α} (h : Sim R c d Q E)
    (hR : ∀ s t, R' s t → R s t) (hQ : ∀ s t, Q s t → Q' s t) : Sim R' c d Q' E := by
  refine intro fun s t hst => ?_
  rcases h.elim (hR s t hst) with ⟨a, s', t', hc, hd, hq⟩ | h
  · exact .inl ⟨a, s', t', hc, hd, hQ s' t' hq⟩
  · exact .inr h

theorem pure (a : α) : Sim R (pure a : Prog σ ε α) (pure a) R E := fun _ _ h => ⟨rfl, h⟩

theorem lift (x : Except ε α) (hRE : ∀ s t, R s t → E s t) :
    Sim R (lift x) (lift x) R E := fun s t h => by
  rcases x with e | a
  · exact ⟨rfl, hRE s t h⟩
  · exact ⟨rfl, h⟩

theorem fail (e : ε) (hRE : ∀ s t, R s t → E s t) :
    Sim R (fail e : Prog σ ε α) (fail e) Q E := fun s t h => ⟨rfl, hRE s t h⟩

theorem failIf (p : Prop) [Decidable p] (e : ε) (hRE : ∀ s t, R s t → E s t) :
    Sim R (failIf p e) (failIf p e) R E := by
  by_cases h : p
  · rw [failIf_pos h, failIf_pos h]
    exact fail e hRE
  · rw [failIf_neg h, failIf_neg h]
    exact pure ()

theorem runOn (c : Prog υ ε α) (u : υ) (hRE : ∀ s t, R s t → E s t) :
    Sim R (runOn c u) (runOn c u) R E := fun s t h => by
  rw [runOn_apply, runOn_apply]
  refine ⟨rfl, ?_⟩
  rcases (c u).1 with e | a
  · exact hRE s t h
  · exact h

theorem mapError {c : Prog σ ε α} {d : Prog τ ε α} (h : Sim R c d Q E) (f : ε → ε') :
    Sim R (mapError f c) (mapError f d) Q E := by
  refine intro fun s t hst => ?_
  rcases h.elim hst with ⟨a, s', t', hc, hd, hq⟩ | ⟨e, s', t', hc, hd, hq⟩
  · exact .inl ⟨a, s', t', by simp [hc, Except.mapError], by simp [hd, Except.mapError], hq⟩
  · exact .inr ⟨f e, s', t', by simp [hc, Except.mapError], by simp [hd, Except.mapError], hq⟩

theorem bind {c : Prog σ ε α} {d : Prog τ ε α} {k : α → Prog σ ε β} {l : α → Prog τ ε β}
    (hc : Sim R c d Q E) (hk : ∀ a, Sim Q (k a) (l a) Q' E) :
    Sim R (c >>= k) (d >>= l) Q' E := by
  refine intro fun s t hst => ?_
  rcases hc.elim hst with ⟨a, s', t', hc, hd, hq⟩ | ⟨e, s', t', hc, hd, hq⟩
  · rw [bind_ok hc, bind_ok hd]
    exact (hk a).elim hq
  · exact .inr ⟨e, s', t', bind_error hc k, bind_error hd l, hq⟩

theorem ite {p : Prop} [Decidable p] {c c' : Prog σ ε α} {d d' : Prog τ ε α}
    (h : Sim R c d Q E) (h' : Sim R c' d' Q E) :
    Sim R (if p then c else c') (if p then d else d') Q E := by
  by_cases hp : p
  · rw [if_pos hp, if_pos hp]
    exact h
  · rw [if_neg hp, if_neg hp]
    exact h'

theorem foldlM {f : β → α → Prog σ ε β} {g : β → α → Prog τ ε β}
    (h : ∀ b a, Sim R (f b a) (g b a) R E) :
    ∀ (xs : List α) (b : β), Sim R (xs.foldlM f b) (xs.foldlM g b) R E
  | [], b => pure b
  | a :: xs, b => bind (h b a) fun b' => foldlM h xs b'

theorem anyM {p : α → Prog σ ε Bool} {q : α → Prog τ ε Bool}
    (h : ∀ a, Sim R (p a) (q a) R E) : ∀ xs : List α, Sim R (xs.anyM p) (xs.anyM q) R E
  | [] => pure false
  | a :: xs => bind (h a) fun
      | true => pure true
      | false => anyM h xs

end Sim

/-! ### Programs with more checks -/

/-- `c` does what `d` does, or fails with `bad`: it is `d` with more checks. -/
def Guards (bad : ε) (c d : Prog σ ε α) : Prop :=
  ∀ s, c s = d s ∨ (c s).1 = .error bad

namespace Guards

variable {bad : ε}

theorem refl (bad : ε) (c : Prog σ ε α) : Guards bad c c := fun _ => .inl rfl

theorem fail (bad : ε) (c : Prog σ ε α) : Guards bad (fail bad) c := fun _ => .inr rfl

theorem lift {x y : Except ε α} (h : x = y ∨ x = .error bad) :
    Guards bad (lift x : Prog σ ε α) (lift y) := by
  intro s
  rcases h with rfl | rfl
  · exact .inl rfl
  · exact .inr rfl

theorem bind {c d : Prog σ ε α} {k l : α → Prog σ ε β} (hc : Guards bad c d)
    (hk : ∀ a, Guards bad (k a) (l a)) : Guards bad (c >>= k) (d >>= l) := by
  intro s
  rcases hc s with heq | hbad
  · rw [bind_apply, bind_apply, heq]
    rcases d s with ⟨e | a, s'⟩
    · exact .inl rfl
    · exact hk a s'
  · refine .inr ?_
    rw [bind_error (Prod.ext hbad rfl)]

theorem ite {p : Prop} [Decidable p] {c c' d d' : Prog σ ε α} (h : Guards bad c d)
    (h' : Guards bad c' d') : Guards bad (if p then c else c') (if p then d else d') := by
  split
  · exact h
  · exact h'

theorem foldlM {f g : β → α → Prog σ ε β} (h : ∀ b a, Guards bad (f b a) (g b a)) :
    ∀ (xs : List α) (b : β), Guards bad (xs.foldlM f b) (xs.foldlM g b)
  | [], b => refl bad (Pure.pure b)
  | a :: xs, b => bind (h b a) fun b' => foldlM h xs b'

/-- A check that does not fail has no effect. -/
theorem eq {c d : Prog σ ε α} (h : Guards bad c d) {s : σ} (hs : (c s).1 ≠ .error bad) :
    c s = d s := (h s).resolve_right hs

end Guards

end Prog

end MicroSql.Lib
