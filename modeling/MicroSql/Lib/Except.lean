import Mathlib.Data.List.Forall2
import Mathlib.Tactic.Common

/-!
# Computations that may fail

The equations of `Except`'s monad, and when a computation built from parts
returns a value.
-/

namespace MicroSql.Lib

variable {ε ε' α β : Type}

@[simp] theorem ok_bind (a : α) (k : α → Except ε β) : (Except.ok a >>= k) = k a := rfl

@[simp] theorem error_bind (e : ε) (k : α → Except ε β) :
    ((Except.error e : Except ε α) >>= k) = .error e := rfl

@[simp] theorem pure_eq_ok (a : α) : (pure a : Except ε α) = .ok a := rfl

@[simp] theorem throw_eq_error (e : ε) : (throw e : Except ε α) = .error e := rfl

/-- A sequence returns exactly when its two halves do. -/
theorem bind_eq_ok {x : Except ε α} {k : α → Except ε β} {b : β} :
    (x >>= k) = .ok b ↔ ∃ a, x = .ok a ∧ k a = .ok b := by
  rcases x with e | a
  · simp
  · simp

theorem bind_eq_error {x : Except ε α} {k : α → Except ε β} {e : ε} :
    (x >>= k) = .error e ↔ x = .error e ∨ ∃ a, x = .ok a ∧ k a = .error e := by
  rcases x with e' | a
  · simp
  · simp

theorem mapError_eq_ok {x : Except ε α} {f : ε → ε'} {a : α} :
    x.mapError f = .ok a ↔ x = .ok a := by
  rcases x with e | b <;> simp [Except.mapError]

theorem mapError_eq_error {x : Except ε α} {f : ε → ε'} {e' : ε'} :
    x.mapError f = .error e' ↔ ∃ e, x = .error e ∧ f e = e' := by
  rcases x with e | b <;> simp [Except.mapError]

@[simp] theorem mapError_ok (f : ε → ε') (a : α) :
    (Except.ok a : Except ε α).mapError f = .ok a := rfl

@[simp] theorem mapError_error (f : ε → ε') (e : ε) :
    (Except.error e : Except ε α).mapError f = .error (f e) := rfl

theorem toOption_eq_some {x : Except ε α} {a : α} (h : x.toOption = some a) : x = .ok a := by
  rcases x with e | a'
  · cases h
  · cases h
    rfl

theorem map_eq_ok {x : Except ε α} {f : α → β} {b : β} :
    x.map f = .ok b ↔ ∃ a, x = .ok a ∧ f a = b := by
  rcases x with e | a <;> simp [Except.map]

theorem map_eq_error {x : Except ε α} {f : α → β} {e : ε} :
    x.map f = .error e ↔ x = .error e := by
  rcases x with e | a <;> simp [Except.map]

@[simp] theorem map_ok (f : α → β) (a : α) : (Except.ok a : Except ε α).map f = .ok (f a) := rfl

@[simp] theorem map_error (f : α → β) (e : ε) :
    (Except.error e : Except ε α).map f = .error e := rfl

/-- Computations that return the same values fail together. -/
theorem exists_error_congr {x y : Except ε α} (h : ∀ a, x = .ok a ↔ y = .ok a) :
    (∃ e, x = .error e) ↔ ∃ e, y = .error e := by
  rcases x with e | a
  · rcases y with e' | b
    · simp
    · cases (h b).2 rfl
  · rw [(h a).1 rfl]

/-- A computation that returns a value for every element of a list. -/
theorem mapM_eq_ok {f : α → Except ε β} {xs : List α} {ys : List β} :
    xs.mapM f = .ok ys ↔ List.Forall₂ (fun x y => f x = .ok y) xs ys := by
  induction xs generalizing ys with
  | nil =>
    rw [List.mapM_nil, pure_eq_ok, List.forall₂_nil_left_iff]
    constructor
    · intro h
      exact (Except.ok.inj h).symm
    · rintro rfl
      rfl
  | cons x xs ih =>
    rw [List.mapM_cons, bind_eq_ok]
    constructor
    · rintro ⟨y, hy, h⟩
      obtain ⟨ys', hys, h⟩ := bind_eq_ok.1 h
      cases h
      exact .cons hy (ih.1 hys)
    · intro h
      cases h with
      | @cons _ y _ ys' hy hys =>
        refine ⟨y, hy, ?_⟩
        rw [ih.2 hys]
        rfl

/-- Computations that agree position by position. -/
theorem mapM_congr_forall₂ {γ : Type} {f : α → Except ε γ} {g : β → Except ε γ} {xs : List α}
    {ys : List β} (h : List.Forall₂ (fun x y => f x = g y) xs ys) : xs.mapM f = ys.mapM g := by
  induction h with
  | nil => rfl
  | cons hxy _ ih => rw [List.mapM_cons, List.mapM_cons, hxy, ih]

/-- A computation that fails does so at the first element that has no value. -/
theorem mapM_eq_error {f : α → Except ε β} {xs : List α} {e : ε} :
    xs.mapM f = .error e ↔ ∃ before x after, xs = before ++ x :: after ∧
      (∀ y ∈ before, ∃ b, f y = .ok b) ∧ f x = .error e := by
  induction xs with
  | nil => simp
  | cons x xs ih =>
    rw [List.mapM_cons]
    constructor
    · intro h
      rcases hx : f x with e' | b <;> rw [hx] at h
      · cases h
        exact ⟨[], x, xs, rfl, nofun, hx⟩
      · rcases hxs : xs.mapM f with e' | bs
        · rw [hxs] at h
          cases h
          obtain ⟨before, y, after, heq, hbefore, hy⟩ := ih.1 hxs
          refine ⟨x :: before, y, after, by rw [heq, List.cons_append], ?_, hy⟩
          exact List.forall_mem_cons.2 ⟨⟨b, hx⟩, hbefore⟩
        · rw [hxs] at h
          cases h
    · rintro ⟨_ | ⟨z, before⟩, y, after, heq, hbefore, hy⟩
      · cases heq
        rw [hy, error_bind]
      · cases heq
        obtain ⟨⟨b, hb⟩, hbefore⟩ := List.forall_mem_cons.1 hbefore
        rw [hb, ok_bind, ih.2 ⟨before, y, after, rfl, hbefore, hy⟩, error_bind]

/-- Every value is the value of some element. -/
theorem getElem?_of_mapM_eq_ok {f : α → Except ε β} {xs : List α} {ys : List β}
    (h : xs.mapM f = .ok ys) {i : ℕ} {y : β} (hy : ys[i]? = some y) :
    ∃ x, xs[i]? = some x ∧ f x = .ok y := by
  have hall := mapM_eq_ok.1 h
  clear h
  induction hall generalizing i with
  | nil => cases hy
  | @cons x y' _ _ hxy _ ih =>
    cases i with
    | zero =>
      cases hy
      exact ⟨x, rfl, hxy⟩
    | succ i => exact ih hy

/-- Every element has a value. -/
theorem getElem?_mapM_eq_ok {f : α → Except ε β} {xs : List α} {ys : List β}
    (h : xs.mapM f = .ok ys) {i : ℕ} {x : α} (hx : xs[i]? = some x) :
    ∃ y, ys[i]? = some y ∧ f x = .ok y := by
  have hall := mapM_eq_ok.1 h
  clear h
  induction hall generalizing i with
  | nil => cases hx
  | @cons x' y _ _ hxy _ ih =>
    cases i with
    | zero =>
      cases hx
      exact ⟨y, rfl, hxy⟩
    | succ i => exact ih hx

/-- Lists related position by position. -/
theorem forall₂_getElem? {R : α → β → Prop} {xs : List α} {ys : List β}
    (h : List.Forall₂ R xs ys) {i : ℕ} {x : α} {y : β} (hx : xs[i]? = some x)
    (hy : ys[i]? = some y) : R x y := by
  induction h generalizing i with
  | nil => cases hx
  | cons hxy _ ih =>
    cases i with
    | zero =>
      cases hx
      cases hy
      exact hxy
    | succ i => exact ih hx hy

theorem forall₂_trans {R : α → α → Prop} (hR : ∀ a b c, R a b → R b c → R a c)
    {xs ys zs : List α} (h : List.Forall₂ R xs ys) (h' : List.Forall₂ R ys zs) :
    List.Forall₂ R xs zs := by
  induction h generalizing zs with
  | nil => exact h'
  | cons hxy _ ih =>
    cases h' with
    | cons hyz hrest => exact .cons (hR _ _ _ hxy hyz) (ih hrest)

/-- One element is replaced by another that has the same partner. -/
theorem forall₂_set {R : α → β → Prop} {as : List α} {bs : List β} (h : List.Forall₂ R as bs)
    {i : ℕ} {a : α} {b : β} (hb : bs[i]? = some b) (hab : R a b) :
    List.Forall₂ R (as.set i a) bs := by
  induction h generalizing i with
  | nil => cases hb
  | cons hxy hrest ih =>
    cases i with
    | zero =>
      obtain rfl := Option.some.inj hb
      exact .cons hab hrest
    | succ i => exact .cons hxy (ih hb)

/-- What is related element by element has a list of partners. -/
theorem exists_forall₂ {R : α → β → Prop} {as : List α}
    (h : ∀ a ∈ as, ∃ b, R a b) : ∃ bs, List.Forall₂ R as bs := by
  induction as with
  | nil => exact ⟨[], .nil⟩
  | cons a as ih =>
    obtain ⟨b, hb⟩ := h a List.mem_cons_self
    obtain ⟨bs, hbs⟩ := ih fun a' ha' => h a' (List.mem_cons_of_mem a ha')
    exact ⟨b :: bs, .cons hb hbs⟩

/-- Elements that are all computed, and what is known of each of them. -/
theorem forall₂_of_map_eq {f : α → Except ε β} {R : α → β → Prop} {xs : List α} {ys : List β}
    (h : xs.map f = ys.map .ok) (hR : ∀ x ∈ xs, ∃ y, f x = .ok y ∧ R x y) :
    List.Forall₂ R xs ys := by
  induction xs generalizing ys with
  | nil =>
    rw [List.map_nil, eq_comm, List.map_eq_nil_iff] at h
    rw [h]
    exact .nil
  | cons x xs ih =>
    cases ys with
    | nil => cases h
    | cons y ys =>
      obtain ⟨hx, hxs⟩ := List.cons_eq_cons.1 h
      obtain ⟨y', hy', hRx⟩ := hR x List.mem_cons_self
      obtain rfl : y' = y := Except.ok.inj (hy'.symm.trans hx)
      exact .cons hRx (ih hxs fun x hx => hR x (List.mem_cons_of_mem _ hx))

/-- A computation that differs from `g` only where it fails with `e`. -/
theorem mapM_eq_or_error {f g : α → Except ε β} {e : ε} {xs : List α} {ys : List β}
    (hfg : ∀ x ∈ xs, f x = g x ∨ f x = .error e) (h : xs.mapM g = .ok ys) :
    xs.mapM f = .ok ys ∨ xs.mapM f = .error e := by
  induction xs generalizing ys with
  | nil => exact .inl h
  | cons x xs ih =>
    rw [List.mapM_cons] at h ⊢
    obtain ⟨y, hy, h⟩ := bind_eq_ok.1 h
    obtain ⟨ys', hys, h⟩ := bind_eq_ok.1 h
    rcases hfg x List.mem_cons_self with hx | hx
    · rw [hx, hy, ok_bind]
      rcases ih (fun x hx => hfg x (List.mem_cons_of_mem _ hx)) hys with hxs | hxs
      · rw [hxs, ok_bind]
        exact .inl h
      · rw [hxs]
        exact .inr rfl
    · rw [hx]
      exact .inr rfl

/-- The values among the results of a list of computations. -/
def oks (xs : List (Except ε α)) : List α := xs.filterMap Except.toOption

@[simp] theorem oks_nil : oks ([] : List (Except ε α)) = [] := rfl

@[simp] theorem oks_ok (a : α) (xs : List (Except ε α)) : oks (.ok a :: xs) = a :: oks xs := rfl

theorem oks_map_ok (as : List α) : oks (as.map (Except.ok : α → Except ε α)) = as := by
  induction as with
  | nil => rfl
  | cons a as ih => rw [List.map_cons, oks_ok, ih]

theorem mem_oks {xs : List (Except ε α)} {a : α} : a ∈ oks xs ↔ .ok a ∈ xs := by
  rw [oks, List.mem_filterMap]
  constructor
  · rintro ⟨e | b, hx, h⟩
    · cases h
    · cases h
      exact hx
  · intro h
    exact ⟨.ok a, h, rfl⟩

/-! ### How a computation can end -/

/-- A value with `P`, or an error among `F`. -/
inductive Settles (F : ε → Prop) (P : α → Prop) : Except ε α → Prop
  | ok {a : α} (h : P a) : Settles F P (.ok a)
  | error {e : ε} (h : F e) : Settles F P (.error e)

namespace Settles

variable {F F' : ε → Prop} {P P' : α → Prop} {Q : β → Prop} {x : Except ε α}

theorem of_ok {a : α} (h : Settles F P (.ok a)) : P a := by
  cases h
  assumption

theorem of_error {e : ε} (h : Settles F P (.error e)) : F e := by
  cases h
  assumption

theorem mono (h : Settles F P x) (hF : ∀ e, F e → F' e) (hP : ∀ a, P a → P' a) :
    Settles F' P' x := by
  cases h with
  | ok h => exact .ok (hP _ h)
  | error h => exact .error (hF _ h)

theorem bind {k : α → Except ε β} (h : Settles F P x) (hk : ∀ a, P a → Settles F Q (k a)) :
    Settles F Q (x >>= k) := by
  cases h with
  | ok h => exact hk _ h
  | error h => exact .error h

theorem map {f : α → β} (h : Settles F P x) (hf : ∀ a, P a → Q (f a)) : Settles F Q (f <$> x) := by
  cases h with
  | ok h => exact .ok (hf _ h)
  | error h => exact .error h

/-- Element by element. -/
theorem mapM {R : α → β → Prop} {f : α → Except ε β} {xs : List α}
    (h : ∀ x ∈ xs, Settles F (R x) (f x)) : Settles F (List.Forall₂ R xs) (xs.mapM f) := by
  induction xs with
  | nil => exact .ok .nil
  | cons x xs ih =>
    rw [List.mapM_cons]
    refine (h x List.mem_cons_self).bind fun y hy => ?_
    exact (ih fun z hz => h z (List.mem_cons_of_mem x hz)).bind fun ys hys => .ok (.cons hy hys)

/-- An invariant of the rounds. -/
theorem foldlM {f : β → α → Except ε β} {xs : List α} {b : β}
    (h : ∀ b, ∀ x ∈ xs, Q b → Settles F Q (f b x)) (hb : Q b) : Settles F Q (xs.foldlM f b) := by
  induction xs generalizing b with
  | nil => exact .ok hb
  | cons x xs ih =>
    rw [List.foldlM_cons]
    exact (h b x List.mem_cons_self hb).bind fun b' hb' =>
      ih (fun c z hz => h c z (List.mem_cons_of_mem x hz)) hb'

end Settles

end MicroSql.Lib
