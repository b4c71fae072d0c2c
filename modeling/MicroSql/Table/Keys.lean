import Mathlib.Data.List.Nodup
import MicroSql.Table.Rewrite

/-!
# Distinct primary keys

`KeysDistinct` says that no two rows have equal values in the primary key column.  Dropping rows
keeps it; so does replacing one row by another that has the same key, or a key that the check has
not found among the other rows.  So at most one row holds a given key.
-/

namespace MicroSql

open Lib

/-- Two values that are the same are equal, unless they are doubles: a NaN is not equal
to itself. -/
theorem Value.eq_self {v : Value} (h : ∀ d, v ≠ .float d) : v.eq v = true := by
  cases v with
  | float d => exact absurd rfl (h d)
  | int n => exact decide_eq_true rfl
  | text s => exact decide_eq_true rfl
  | bool b => exact decide_eq_true rfl
  | null => rfl

theorem primaryKeyIndex_lt {columns : Schema} {pk : ℕ} (h : primaryKeyIndex columns = some pk) :
    pk < columns.length := (List.findIdx?_eq_some_iff_getElem.1 h).1

/-- Equal values are the same, unless they are doubles. -/
theorem Value.eq_iff {u v : Value} (h : ∀ d, v ≠ .float d) : u.eq v = true ↔ u = v := by
  constructor
  · intro heq
    cases v with
    | float d => exact absurd rfl (h d)
    | int n | text s | bool c =>
      cases u <;> first | exact congrArg _ (of_decide_eq_true heq) | cases heq
    | null =>
      cases u <;> first | rfl | cases heq
  · rintro rfl
    exact Value.eq_self h

theorem Double.eq_iff {x y : Double} :
    x.eq y = true ↔ x.isNaN = false ∧ y.isNaN = false ∧ x.key = y.key := by
  simp [Double.eq, and_assoc]

theorem Value.eq_symm {u v : Value} (h : u.eq v = true) : v.eq u = true := by
  cases u <;> cases v <;> first | exact h | cases h | skip
  case float x y =>
    obtain ⟨hx, hy, hkey⟩ := Double.eq_iff.1 h
    exact Double.eq_iff.2 ⟨hy, hx, hkey.symm⟩
  all_goals exact decide_eq_true (of_decide_eq_true h).symm

theorem Value.eq_trans {u v w : Value} (huv : u.eq v = true) (hvw : v.eq w = true) :
    u.eq w = true := by
  by_cases hv : ∀ d, v ≠ .float d
  · rwa [(Value.eq_iff hv).1 huv]
  · simp only [not_forall, not_not] at hv
    obtain ⟨y, rfl⟩ := hv
    cases u <;> cases w <;> first | cases huv | cases hvw | skip
    case float x z =>
      obtain ⟨hx, -, hxy⟩ := Double.eq_iff.1 huv
      obtain ⟨-, hz, hyz⟩ := Double.eq_iff.1 hvw
      exact Double.eq_iff.2 ⟨hx, hz, hxy.trans hyz⟩

/-! ### Keys of rows -/

/-- A row holds a key exactly if it has it in the key column. -/
theorem holdsKey_iff {pk : ℕ} {v : Value} (hv : ∀ d, v ≠ .float d) {r : Row} :
    holdsKey pk v r = true ↔ r[pk]? = some v := by
  unfold holdsKey
  cases r[pk]? with
  | none => simp
  | some u => simpa using Value.eq_iff hv

/-- The value of a row in the key column is equal to that of another one. -/
def SameKey (pk : ℕ) (r r' : Row) : Prop := ∃ v, r'[pk]? = some v ∧ holdsKey pk v r = true

theorem exists_of_holdsKey {pk : ℕ} {v : Value} {r : Row} (h : holdsKey pk v r = true) :
    ∃ u, r[pk]? = some u ∧ u.eq v = true := by
  unfold holdsKey at h
  split at h
  · next u hu => exact ⟨u, hu, h⟩
  · cases h

theorem holdsKey_of_eq {pk : ℕ} {u v : Value} {r : Row} (hu : r[pk]? = some u)
    (h : u.eq v = true) : holdsKey pk v r = true := by rwa [holdsKey, hu]

theorem SameKey.symm {pk : ℕ} {r r' : Row} (h : SameKey pk r r') : SameKey pk r' r := by
  obtain ⟨v, hv, hholds⟩ := h
  obtain ⟨u, hu, heq⟩ := exists_of_holdsKey hholds
  exact ⟨u, hu, holdsKey_of_eq hv (Value.eq_symm heq)⟩

/-- Two rows that hold one key have the same key. -/
theorem SameKey.of_holdsKey {pk : ℕ} {v : Value} {r r' : Row} (h : holdsKey pk v r = true)
    (h' : holdsKey pk v r' = true) : SameKey pk r r' := by
  obtain ⟨u, hu, heq⟩ := exists_of_holdsKey h
  obtain ⟨u', hu', heq'⟩ := exists_of_holdsKey h'
  exact ⟨u', hu', holdsKey_of_eq hu (Value.eq_trans heq (Value.eq_symm heq'))⟩

/-- No two of the rows have equal values in the primary key column, if there is one. -/
def KeysDistinct (columns : Schema) (rows : List Row) : Prop :=
  ∀ pk, primaryKeyIndex columns = some pk → rows.Pairwise fun r r' => ¬SameKey pk r r'

namespace KeysDistinct

variable {columns : Schema} {rows rows' : List Row} {pk : ℕ}

theorem nil : KeysDistinct columns [] := fun _ _ => List.Pairwise.nil

theorem sublist (h : KeysDistinct columns rows) (hs : List.Sublist rows' rows) :
    KeysDistinct columns rows' := fun pk hpk => (h pk hpk).sublist hs

/-- Put a row among others whose key none of them has. -/
theorem insert {row : Row} (h : KeysDistinct columns (rows ++ rows'))
    (hnew : ∀ pk, primaryKeyIndex columns = some pk → ∀ r ∈ rows ++ rows', ¬SameKey pk r row) :
    KeysDistinct columns (rows ++ row :: rows') := by
  intro pk hpk
  have hsymm : ∀ {r r' : Row}, ¬SameKey pk r r' → ¬SameKey pk r' r :=
    fun hne hsame => hne hsame.symm
  rw [List.pairwise_middle hsymm, List.pairwise_cons]
  exact ⟨fun r hr => hsymm (hnew pk hpk r hr), h pk hpk⟩

/-- The keys of the other rows are distinct, and different from that of a given one. -/
theorem others {row : Row} (h : KeysDistinct columns (rows ++ row :: rows')) :
    KeysDistinct columns (rows ++ rows') ∧
      ∀ pk, primaryKeyIndex columns = some pk → ∀ r ∈ rows ++ rows', ¬SameKey pk r row := by
  refine ⟨h.sublist ?_, fun pk hpk r hr hsame => ?_⟩
  · exact List.Sublist.append (List.Sublist.refl _) (List.sublist_cons_self _ _)
  · have hpairs := h pk hpk
    rw [List.pairwise_middle fun hne hsame => hne hsame.symm, List.pairwise_cons] at hpairs
    exact hpairs.1 r hr hsame.symm

/-- At most one row holds a key. -/
theorem length_filter_le (h : KeysDistinct columns rows) (hpk : primaryKeyIndex columns = some pk)
    (v : Value) : (rows.filter (holdsKey pk v)).length ≤ 1 := by
  have hpairs := (h pk hpk).filter (holdsKey pk v)
  rcases hfilter : rows.filter (holdsKey pk v) with _ | ⟨r, _ | ⟨r', rest⟩⟩
  · exact Nat.zero_le 1
  · exact le_rfl
  · have hholds : ∀ row ∈ r :: r' :: rest, holdsKey pk v row = true := fun row hrow => by
      rw [← hfilter] at hrow
      exact (List.mem_filter.1 hrow).2
    rw [hfilter] at hpairs
    exact absurd (SameKey.of_holdsKey (hholds r (by simp)) (hholds r' (by simp)))
      (List.rel_of_pairwise_cons hpairs (by simp))

/-- The keys that are no doubles are pairwise different. -/
theorem nodup (h : KeysDistinct columns rows) (hpk : primaryKeyIndex columns = some pk)
    (hrows : ∀ row ∈ rows, ∃ v, row[pk]? = some v ∧ ∀ d, v ≠ .float d) :
    (rows.map (·[pk]?)).Nodup := by
  refine List.pairwise_map.2 ((h pk hpk).imp_of_mem fun {r r'} hr hr' hne heq => ?_)
  obtain ⟨v, hv, hdouble⟩ := hrows r' hr'
  exact hne ⟨v, hv, (holdsKey_iff hdouble).2 (heq.trans hv)⟩

end KeysDistinct

end MicroSql
