import MicroSql.Lib.Bytes

/-!
# A file of fixed-size blocks

A file whose length is a multiple of the block size is an array of blocks:
reading a block's window, writing it, and appending a block are the array
operations.  Writing a block past the end extends the file with zero blocks.
-/

namespace MicroSql.Lib

/-- A block of `n` bytes. -/
abbrev Block (n : ℕ) : Type := {bytes : List UInt8 // bytes.length = n}

namespace Block

variable {n : ℕ}

/-- The first `n` bytes of `bytes`, filled up with zeros. -/
def ofBytes (n : ℕ) (bytes : List UInt8) : Block n :=
  ⟨(bytes ++ List.replicate n 0).take n, by simp⟩

/-- The block of zeros. -/
def zero (n : ℕ) : Block n := ⟨List.replicate n 0, List.length_replicate⟩

@[simp] theorem ofBytes_val (b : Block n) : ofBytes n b.val = b := by
  apply Subtype.ext
  change (b.val ++ List.replicate n 0).take n = b.val
  rw [List.take_append_of_le_length b.property.ge, List.take_of_length_le b.property.le]

/-- `b` with the bytes from position `off` on replaced by `bs`, when they fit. -/
def write (b : Block n) (off : ℕ) (bs : List UInt8) : Block n :=
  if h : off + bs.length ≤ n then
    ⟨splice b.val off bs, by rw [length_splice (by rwa [b.property]), b.property]⟩
  else b

theorem slice_write_self {b : Block n} {off : ℕ} {bs : List UInt8} (h : off + bs.length ≤ n) :
    slice (b.write off bs).val off bs.length = bs := by
  rw [write, dif_pos h]
  exact slice_splice_self (by rwa [b.property])

theorem slice_write_of_disjoint {b : Block n} {off off' k : ℕ} {bs : List UInt8}
    (hd : off' + k ≤ off ∨ off + bs.length ≤ off') :
    slice (b.write off bs).val off' k = slice b.val off' k := by
  unfold write
  split
  · next h => exact slice_splice_of_disjoint (by rwa [b.property]) hd
  · rfl

/-- The file made of the blocks, in order. -/
def flat (bs : List (Block n)) : List UInt8 := bs.flatMap Subtype.val

@[simp] theorem flat_nil : flat ([] : List (Block n)) = [] := rfl

@[simp] theorem flat_cons (b : Block n) (bs : List (Block n)) :
    flat (b :: bs) = b.val ++ flat bs := rfl

@[simp] theorem flat_append (bs cs : List (Block n)) : flat (bs ++ cs) = flat bs ++ flat cs :=
  List.flatMap_append

@[simp] theorem length_flat (bs : List (Block n)) : (flat bs).length = bs.length * n := by
  induction bs with
  | nil => simp
  | cons b bs ih =>
    rw [flat_cons, List.length_append, ih, b.property, List.length_cons]
    ring

/-- The window of block `i` holds the bytes of block `i`. -/
theorem slice_flat {bs : List (Block n)} {i : ℕ} (h : i < bs.length) :
    slice (flat bs) (i * n) n = bs[i].val := by
  induction bs generalizing i with
  | nil => simp at h
  | cons b bs ih =>
    have hb := b.property
    cases i with
    | zero =>
      rw [slice, Nat.zero_mul, List.drop_zero, flat_cons,
        List.take_append_of_le_length hb.ge, List.take_of_length_le hb.le]
      rfl
    | succ i =>
      have hi : i < bs.length := by simpa using h
      have hdrop : (flat (b :: bs)).drop ((i + 1) * n) = (flat bs).drop (i * n) := by
        rw [flat_cons, List.drop_append, List.drop_of_length_le, List.nil_append]
        · congr 1
          rw [hb, Nat.add_mul, Nat.one_mul]
          omega
        · rw [hb, Nat.add_mul]
          omega
      rw [slice, hdrop, ← slice, ih hi]
      rfl

/-- Cutting a file of whole blocks gives the blocks back. -/
def cut (n : ℕ) (bytes : List UInt8) : List (Block n) :=
  (List.range (bytes.length / n)).map fun i => ofBytes n (slice bytes (i * n) n)

theorem cut_flat (hn : 0 < n) (bs : List (Block n)) : cut n (flat bs) = bs := by
  apply List.ext_getElem
  · simp [cut, Nat.mul_div_cancel _ hn]
  · intro i h1 h2
    have hi : i < bs.length := h2
    simp only [cut, List.getElem_map, List.getElem_range]
    rw [slice_flat hi, ofBytes_val]

/-- The blocks after block `i` is written. -/
def put (bs : List (Block n)) (i : ℕ) (b : Block n) : List (Block n) :=
  if i < bs.length then bs.set i b
  else bs ++ List.replicate (i - bs.length) (zero n) ++ [b]

theorem put_of_lt {bs : List (Block n)} {i : ℕ} (h : i < bs.length) (b : Block n) :
    put bs i b = bs.set i b := if_pos h

theorem put_length (bs : List (Block n)) (b : Block n) : put bs bs.length b = bs ++ [b] := by
  simp [put]

theorem flat_replicate_zero (k : ℕ) :
    flat (List.replicate k (zero n)) = List.replicate (k * n) 0 := by
  induction k with
  | zero => simp
  | succ k ih =>
    rw [List.replicate_succ, flat_cons, ih, zero, List.replicate_append_replicate, Nat.add_mul,
      Nat.one_mul, Nat.add_comm]

theorem flat_set {bs : List (Block n)} {i : ℕ} (h : i < bs.length) (b : Block n) :
    flat (bs.set i b) = splice (flat bs) (i * n) b.val := by
  induction bs generalizing i with
  | nil => simp at h
  | cons c bs ih =>
    have hc := c.property
    have hb := b.property
    cases i with
    | zero =>
      simp only [List.set_cons_zero, flat_cons, splice, Nat.zero_mul, List.take_zero,
        List.nil_append, Nat.zero_add]
      rw [List.drop_append, hb, hc, Nat.sub_self, List.drop_of_length_le hc.le,
        List.nil_append, List.drop_zero]
    | succ i =>
      have hi : i < bs.length := by simpa using h
      have htake : (c.val ++ flat bs).take ((i + 1) * n) = c.val ++ (flat bs).take (i * n) := by
        rw [List.take_append, List.take_of_length_le (by rw [hc, Nat.add_mul]; omega), hc,
          Nat.add_mul, Nat.one_mul, Nat.add_sub_cancel]
      have hdrop : (c.val ++ flat bs).drop ((i + 1) * n + n) = (flat bs).drop (i * n + n) := by
        rw [List.drop_append, List.drop_of_length_le (by rw [hc, Nat.add_mul]; omega),
          List.nil_append, hc, Nat.add_mul, Nat.one_mul]
        congr 1
        omega
      simp only [List.set_cons_succ, flat_cons, ih hi, splice, hb, htake, hdrop,
        List.append_assoc]

/-- Writing the window of block `i` writes block `i`. -/
theorem overwrite_flat (bs : List (Block n)) (i : ℕ) (b : Block n) :
    overwrite 0 (flat bs) (i * n) b.val = flat (put bs i b) := by
  by_cases h : i < bs.length
  · have hle : i * n ≤ (flat bs).length := by
      rw [length_flat]
      exact Nat.mul_le_mul_right n h.le
    rw [put_of_lt h, flat_set h, overwrite_eq_splice 0 hle]
  · have hle : (flat bs).length ≤ i * n := by
      rw [length_flat]
      exact Nat.mul_le_mul_right n (by omega)
    rw [put, if_neg h, overwrite_of_length_le 0 hle, flat_append, flat_append,
      flat_replicate_zero, length_flat, Nat.sub_mul, flat_cons, flat_nil, List.append_nil]

end Block

end MicroSql.Lib
