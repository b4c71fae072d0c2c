import MicroSql.Table.Scan

/-!
# Rewriting the rows of a table

DELETE and UPDATE share their loops: page after page is read, its slots are visited in
order, and the page is written back.  `Passed` describes the array while the page loop
runs, and `rewritePages_passed` says how the loop ends.  `rewritePages_rows` derives from
what the body does to one slot what the statement does to the rows of the table: it maps
a function over them, and when it fails it has done so on the pages before the one where
it failed and has left the others alone.
-/

namespace MicroSql

open Lib

variable {limit : ℕ} {body : ℕ → Page × ℕ → ℕ → Prog (List (Block pageSize)) (Failure ExecError)
  (Page × ℕ)}

/-! ### Counting -/

theorem increment_of_lt {count : ℕ} (h : count + 1 < 2 ^ 31) :
    increment count = .ok (count + 1) := if_pos h

theorem increment_of_le {count : ℕ} (h : 2 ^ 31 ≤ count + 1) :
    increment count = .error (.fault .signedOverflow) := if_neg (Nat.not_lt.2 h)

theorem increment_eq_ok {count n : ℕ} :
    increment count = .ok n ↔ count + 1 < 2 ^ 31 ∧ n = count + 1 := by
  by_cases h : count + 1 < 2 ^ 31
  · rw [increment_of_lt h, Except.ok.injEq, eq_comm]
    exact (and_iff_right h).symm
  · rw [increment_of_le (Nat.not_lt.1 h)]
    exact iff_of_false (fun hok => by cases hok) fun hlt => h hlt.1

theorem increment_eq_error {count : ℕ} {e : Failure ExecError} :
    increment count = .error e ↔ 2 ^ 31 ≤ count + 1 ∧ e = .fault .signedOverflow := by
  by_cases h : count + 1 < 2 ^ 31
  · rw [increment_of_lt h]
    exact iff_of_false (fun hfail => by cases hfail) fun hle => Nat.not_lt.2 hle.1 h
  · rw [increment_of_le (Nat.not_lt.1 h), Except.error.injEq, eq_comm]
    exact (and_iff_right (Nat.not_lt.1 h)).symm

/-- The count of a slot loop is that of an `int`. -/
def CountsInInt (body : ℕ → Page × ℕ → ℕ → Prog (List (Block pageSize)) (Failure ExecError)
    (Page × ℕ)) : Prop :=
  ∀ bs k p count slot p' count', (body k (p, count) slot bs).1 = .ok (p', count') →
    count < 2 ^ 31 → count' < 2 ^ 31

/-! ### The page loop -/

/-- The state of the page loop before page `k`: each page before it has been replaced by
what its slot loop has made of it. -/
inductive Passed (body : ℕ → Page × ℕ → ℕ → Prog (List (Block pageSize)) (Failure ExecError)
    (Page × ℕ)) (bs0 : List (Block pageSize)) : ℕ → ℕ → List (Block pageSize) → Prop
  | start : Passed body bs0 1 0 bs0
  | page {k count count' : ℕ} {bs : List (Block pageSize)} {b : Block pageSize} {p' : Page}
      (h : Passed body bs0 k count bs) (hb : bs[k]? = some b)
      (hloop : (slotLoop body k ⟨b, k⟩ count bs).1 = .ok (p', count')) :
      Passed body bs0 (k + 1) count' (bs.set k p'.data)

/-- The pages from `k` on have not been touched. -/
theorem Passed.drop_eq {bs0 bs : List (Block pageSize)} {k count : ℕ}
    (h : Passed body bs0 k count bs) : bs.drop k = bs0.drop k := by
  induction h with
  | start => rfl
  | @page k _ _ bs _ _ _ _ _ ih =>
    have hrest : bs.drop (k + 1) = bs0.drop (k + 1) := by
      rw [← List.drop_drop, ih, List.drop_drop]
    rw [List.drop_set_of_lt (Nat.lt_succ_self k), hrest]

theorem Passed.one_le {bs0 bs : List (Block pageSize)} {k count : ℕ}
    (h : Passed body bs0 k count bs) : 1 ≤ k := by
  cases h <;> omega

/-- What the loop has made of the pages is determined by their number. -/
theorem Passed.unique {bs0 bs cs : List (Block pageSize)} {k count count' : ℕ}
    (h : Passed body bs0 k count bs) (h' : Passed body bs0 k count' cs) :
    count = count' ∧ bs = cs := by
  induction h generalizing count' cs with
  | start =>
    cases h' with
    | start => exact ⟨rfl, rfl⟩
    | page h' => exact absurd h'.one_le (by omega)
  | @page k m n bs b p h hb hloop ih =>
    cases h' with
    | start => exact absurd h.one_le (by omega)
    | page h' hb' hloop' =>
      obtain ⟨rfl, rfl⟩ := ih h'
      cases hb.symm.trans hb'
      cases hloop.symm.trans hloop'
      exact ⟨rfl, rfl⟩

/-- The body of a slot loop keeps the page well formed, and its id. -/
def KeepsPages (body : ℕ → Page × ℕ → ℕ → Prog (List (Block pageSize)) (Failure ExecError)
    (Page × ℕ)) : Prop :=
  ∀ bs k p count slot p' count', p.WF → p.pageId = k →
    (body k (p, count) slot bs).1 = .ok (p', count') → p'.WF ∧ p'.pageId = k

/-- An invariant of the slots gives an invariant of the slot loop. -/
theorem slotLoop_rule (hread : ∀ k s slot, (body k s slot).ReadOnly)
    {bs : List (Block pageSize)} {k count count' : ℕ} {p p' : Page} {J : ℕ → Page × ℕ → Prop}
    (hstart : J 0 (p, count))
    (hstep : ∀ i s s', i < p.numSlots → J i s → (body k s i bs).1 = .ok s' → J (i + 1) s')
    (hloop : (slotLoop body k p count bs).1 = .ok (p', count')) : J p.numSlots (p', count') :=
  foldlM_range_rule (fun s slot => hread k s slot) hstart hstep hloop

theorem Passed.count_lt (hread : ∀ k s slot, (body k s slot).ReadOnly)
    (hcounts : CountsInInt body) {bs0 bs : List (Block pageSize)} {k count : ℕ}
    (h : Passed body bs0 k count bs) : count < 2 ^ 31 := by
  induction h with
  | start => exact Nat.two_pow_pos 31
  | page _ _ hloop ih =>
    exact slotLoop_rule hread (J := fun _ s => s.2 < 2 ^ 31) ih
      (fun i s s' _ hs hb => hcounts _ _ s.1 s.2 i s'.1 s'.2 hb hs) hloop

section Page

variable (hread : ∀ k s slot, (body k s slot).ReadOnly) {bs : List (Block pageSize)}
  (h : TablePages bs) {k count : ℕ} {b : Block pageSize} (hb : bs[k]? = some b)

include hread h hb

/-- A page whose slots have been visited is written back. -/
theorem rewritePage_of_ok (limit : ℕ) (hkeep : KeepsPages body) {p' : Page} {count' : ℕ}
    (hloop : (slotLoop body k ⟨b, k⟩ count bs).1 = .ok (p', count')) :
    p'.WF ∧ rewritePage (pageArray limit) body count k bs = (.ok count', bs.set k p'.data) := by
  have hkn := (List.getElem?_eq_some_iff.1 hb).1
  have hw := h.wf b (List.mem_of_getElem? hb)
  have hpage : ({ data := b, pageId := k } : Page).WF :=
    ⟨hw.dir_le, hw.freePtr_le, hw.region, hw.disjoint⟩
  obtain ⟨hwf, hid⟩ := slotLoop_rule hread (J := fun _ s => s.1.WF ∧ s.1.pageId = k)
    ⟨hpage, rfl⟩ (fun i s s' _ hs hb => hkeep bs k s.1 s.2 i s'.1 s'.2 hs.1 hs.2 hb) hloop
  have hid : p'.pageId = k := hid
  have hwrite : writePage (pageArray limit) p' bs = (.ok (), bs.set p'.pageId p'.data) :=
    writePage_apply limit (by omega)
  rw [hid] at hwrite
  have hall : slotLoop body k ⟨b, k⟩ count bs = (.ok (p', count'), bs) := by
    rw [← hloop]
    exact (Prog.ReadOnly.foldlM (fun s slot => hread k s slot) _ _).eq bs
  refine ⟨hwf, ?_⟩
  rw [rewritePage, Prog.bind_ok (readPage_apply h.length_le hb), Prog.bind_ok hall]
  dsimp only
  rw [Prog.bind_ok hwrite]
  rfl

/-- A page with a slot that fails is not written. -/
theorem rewritePage_of_error {e : Failure ExecError}
    (hloop : (slotLoop body k ⟨b, k⟩ count bs).1 = .error e) :
    rewritePage (pageArray limit) body count k bs = (.error e, bs) := by
  have hall : slotLoop body k ⟨b, k⟩ count bs = (.error e, bs) := by
    rw [← hloop]
    exact (Prog.ReadOnly.foldlM (fun s slot => hread k s slot) _ _).eq bs
  rw [rewritePage, Prog.bind_ok (readPage_apply h.length_le hb), Prog.bind_error hall]

end Page

/-- **How the page loop ends.**  It returns when all pages have been passed.  It fails
when the slots of some page fail, and the array is as it was before that page. -/
theorem rewritePages_passed (hread : ∀ k s slot, (body k s slot).ReadOnly)
    (hkeep : KeepsPages body) {bs0 : List (Block pageSize)} (h : TablePages bs0) :
    Prog.Spec (fun bs => bs = bs0) (rewritePages (pageArray limit) body)
      (fun count bs => TablePages bs ∧ bs.length = bs0.length ∧
        Passed body bs0 bs0.length count bs)
      (fun e bs => TablePages bs ∧ bs.length = bs0.length ∧ ∃ k count b, k < bs0.length ∧
        Passed body bs0 k count bs ∧ bs[k]? = some b ∧
        (slotLoop body k ⟨b, k⟩ count bs).1 = .error e) := by
  have hpos := h.length_pos
  have hrule := Prog.Spec.foldlM_range' (f := rewritePage (pageArray limit) body)
    (I := fun k count bs => TablePages bs ∧ bs.length = bs0.length ∧ Passed body bs0 k count bs)
    (E := fun e bs => TablePages bs ∧ bs.length = bs0.length ∧ ∃ k count b, k < bs0.length ∧
      Passed body bs0 k count bs ∧ bs[k]? = some b ∧
      (slotLoop body k ⟨b, k⟩ count bs).1 = .error e) 1 (bs0.length - 1) 0 ?_
  · rw [show 1 + (bs0.length - 1) = bs0.length by omega] at hrule
    rintro bs rfl
    rw [rewritePages, Prog.bind_ok (getNumPages_apply limit bs)]
    exact hrule bs ⟨h, rfl, .start⟩
  · rintro k count h1 h2 bs ⟨h, hlen, hI⟩
    have hb : bs[k]? = some bs[k] := List.getElem?_eq_getElem (by omega)
    rcases hv : (slotLoop body k ⟨bs[k], k⟩ count bs).1 with e | ⟨p', count'⟩
    · rw [rewritePage_of_error hread h hb hv]
      exact ⟨h, hlen, k, count, bs[k], by omega, hI, hb, hv⟩
    · obtain ⟨hwf, hrun⟩ := rewritePage_of_ok hread h hb limit hkeep hv
      rw [hrun]
      exact ⟨h.set h1 hwf, by rw [List.length_set, hlen], hI.page hb hv⟩

/-- What a rewriting statement returns is an `int`. -/
theorem rewritePages_count_lt (hread : ∀ k s slot, (body k s slot).ReadOnly)
    (hkeep : KeepsPages body) (hcounts : CountsInInt body) {bs : List (Block pageSize)}
    (h : TablePages bs) {n : ℕ} (hok : (rewritePages (pageArray limit) body bs).1 = .ok n) :
    n < 2 ^ 31 := by
  have hrule : Prog.Spec _ (rewritePages (pageArray limit) body) _ _ :=
    rewritePages_passed hread hkeep h
  obtain ⟨-, -, hp⟩ := hrule.ok rfl (Prod.ext hok rfl)
  exact hp.count_lt hread hcounts

/-- Once the pages before `k` have been passed, the rest of the loop is left to do. -/
theorem Passed.rewritePages_eq (hread : ∀ k s slot, (body k s slot).ReadOnly)
    (hkeep : KeepsPages body) {bs0 bs : List (Block pageSize)} (h : TablePages bs0) {k count : ℕ}
    (hp : Passed body bs0 k count bs) (hk : k ≤ bs0.length) :
    TablePages bs ∧ bs.length = bs0.length ∧ rewritePages (pageArray limit) body bs0 =
      (List.range' k (bs0.length - k)).foldlM (rewritePage (pageArray limit) body) count bs := by
  induction hp with
  | start => exact ⟨h, rfl, Prog.bind_ok (getNumPages_apply limit bs0) _⟩
  | @page k count count' bs b p' hp hb hloop ih =>
    obtain ⟨hbs, hlen, hrun⟩ := ih (by omega)
    obtain ⟨hwf, hone⟩ := rewritePage_of_ok hread hbs hb limit hkeep hloop
    refine ⟨hbs.set hp.one_le hwf, by rw [List.length_set, hlen], ?_⟩
    rw [hrun, show bs0.length - k = bs0.length - (k + 1) + 1 by omega, List.range'_succ,
      List.foldlM_cons, Prog.bind_ok hone]

/-- The statement fails where the slots of the next page do. -/
theorem Passed.rewritePages_error (hread : ∀ k s slot, (body k s slot).ReadOnly)
    (hkeep : KeepsPages body) {bs0 bs : List (Block pageSize)} (h : TablePages bs0) {k count : ℕ}
    (hp : Passed body bs0 k count bs) {b : Block pageSize} (hb : bs[k]? = some b)
    (hk : k < bs0.length) {e : Failure ExecError}
    (hloop : (slotLoop body k ⟨b, k⟩ count bs).1 = .error e) :
    rewritePages (pageArray limit) body bs0 = (.error e, bs) := by
  obtain ⟨hbs, -, hrun⟩ := hp.rewritePages_eq hread hkeep h hk.le
  rw [hrun, show bs0.length - k = bs0.length - (k + 1) + 1 by omega, List.range'_succ,
    List.foldlM_cons, Prog.bind_error (rewritePage_of_error hread hbs hb hloop)]

/-- A body with more checks, none of which fails, passes the same pages. -/
theorem Passed.of_guards {body' : ℕ → Page × ℕ → ℕ → Prog (List (Block pageSize))
    (Failure ExecError) (Page × ℕ)} {bad : Failure ExecError}
    (hguards : ∀ k s slot, Prog.Guards bad (body' k s slot) (body k s slot))
    (hread : ∀ k s slot, (body' k s slot).ReadOnly) (hkeep : KeepsPages body')
    {bs0 bs : List (Block pageSize)} (h : TablePages bs0)
    (hbad : (rewritePages (pageArray limit) body' bs0).1 ≠ .error bad) {k count : ℕ}
    (hp : Passed body bs0 k count bs) (hk : k ≤ bs0.length) : Passed body' bs0 k count bs := by
  induction hp with
  | start => exact .start
  | @page k count count' bs b p' hp hb hloop ih =>
    have hp' := ih (by omega)
    refine hp'.page hb ?_
    rcases Prog.Guards.foldlM (fun s slot => hguards k s slot)
      (List.range ({ data := b, pageId := k } : Page).numSlots) (⟨b, k⟩, count) bs with heq | hfail
    · rw [← hloop]
      exact congrArg Prod.fst heq
    · refine absurd ?_ hbad
      rw [hp'.rewritePages_error hread hkeep h hb (by omega) hfail]

/-! ### What happens to the rows -/

/-- What a statement does to a row: whether it counts it, and what it leaves in the slot. -/
abbrev RowAction : Type := Row → Expected ExecError (Bool × Option Row)

/-- `new` and `n` are the rows that `act` leaves of `old` and the number of those that it
counts. -/
def Rewrites (act : RowAction) (old new : List Row) (n : ℕ) : Prop :=
  ∃ outs, old.mapM act = .ok outs ∧ new = (outs.map (·.2)).reduceOption ∧
    n = outs.countP (·.1)

namespace Rewrites

variable {act : RowAction} {old new old' new' : List Row} {n n' : ℕ}

theorem nil (act : RowAction) : Rewrites act [] [] 0 := ⟨[], rfl, rfl, rfl⟩

theorem append (h : Rewrites act old new n) (h' : Rewrites act old' new' n') :
    Rewrites act (old ++ old') (new ++ new') (n + n') := by
  obtain ⟨outs, hmap, rfl, rfl⟩ := h
  obtain ⟨outs', hmap', rfl, rfl⟩ := h'
  refine ⟨outs ++ outs', ?_, ?_, ?_⟩
  · rw [List.mapM_append, hmap, hmap']
    rfl
  · rw [List.map_append, List.reduceOption_append]
  · rw [List.countP_append]

theorem singleton {row : Row} {c : Bool} {o : Option Row} (h : act row = .ok (c, o)) :
    Rewrites act [row] o.toList c.toNat := by
  refine ⟨[(c, o)], ?_, ?_, ?_⟩
  · rw [List.mapM_cons, h]
    rfl
  · cases o <;> rfl
  · cases c <;> rfl

/-- Every row that is there afterwards is what `act` has left of a row. -/
theorem exists_of_mem (h : Rewrites act old new n) {row : Row} (hrow : row ∈ new) :
    ∃ r ∈ old, ∃ c, act r = .ok (c, some row) := by
  obtain ⟨outs, hmap, rfl, -⟩ := h
  obtain ⟨⟨c, o⟩, hmem, hout⟩ := List.mem_map.1 (List.reduceOption_mem_iff.1 hrow)
  obtain ⟨i, hi⟩ := List.mem_iff_getElem?.1 hmem
  obtain ⟨r, hr, hact⟩ := getElem?_of_mapM_eq_ok hmap hi
  obtain rfl : o = some row := hout
  exact ⟨r, List.mem_of_getElem? hr, c, hact⟩

end Rewrites

/-- The live rows of the array while `p` stands for page `k`. -/
def rowsWith (columns : Schema) (bs : List (Block pageSize)) (k : ℕ) (p : Page) : List Row :=
  liveRows columns (bs.take k) ++ (p.rows columns).reduceOption ++
    liveRows columns (bs.drop (k + 1))

/-- The live rows when only slot `slot` of page `p` has changed. -/
theorem rowsWith_set {columns : Schema} {bs : List (Block pageSize)} {k slot : ℕ} {p q : Page}
    {o : Option Row} (hslot : slot < p.numSlots)
    (hrows : q.rows columns = (p.rows columns).set slot o) :
    rowsWith columns bs k q =
      liveRows columns (bs.take k) ++ ((p.rows columns).take slot).reduceOption ++ o.toList ++
        (((p.rows columns).drop (slot + 1)).reduceOption ++
          liveRows columns (bs.drop (k + 1))) := by
  have hlen : slot < (p.rows columns).length := by rw [Page.length_rows]; exact hslot
  rw [rowsWith, hrows, reduceOption_set hlen]
  simp only [List.append_assoc]

/-- The live rows around a row of page `p`. -/
theorem rowsWith_split {columns : Schema} {bs : List (Block pageSize)} {k slot : ℕ} {p : Page}
    {row : Row} (hslot : slot < p.numSlots)
    (hrow : (p.rows columns)[slot]? = some (some row)) :
    rowsWith columns bs k p =
      liveRows columns (bs.take k) ++ ((p.rows columns).take slot).reduceOption ++ row ::
        (((p.rows columns).drop (slot + 1)).reduceOption ++
          liveRows columns (bs.drop (k + 1))) := by
  obtain ⟨hlen, hget⟩ := List.getElem?_eq_some_iff.1 hrow
  have hsame : p.rows columns = (p.rows columns).set slot (some row) := by
    rw [← hget, List.set_getElem_self]
  rw [rowsWith_set hslot hsame]
  simp only [Option.toList_some, List.append_assoc, List.singleton_append]

/-- The body of a slot loop acts on the row of its slot as `act` says, on arrays of good
pages, and preserves `K` for the live rows of the table. -/
def ActsOnRow (body : ℕ → Page × ℕ → ℕ → Prog (List (Block pageSize)) (Failure ExecError)
    (Page × ℕ)) (columns : Schema) (act : RowAction) (K : List Row → Prop) : Prop :=
  ∀ bs k p count slot p' count', TablePages bs → GoodPages columns bs → 1 ≤ k →
    k < bs.length → p.Good columns → p.pageId = k → slot < p.numSlots →
    K (rowsWith columns bs k p) → (body k (p, count) slot bs).1 = .ok (p', count') →
    p'.pageId = k ∧ p'.Good columns ∧ K (rowsWith columns bs k p') ∧
      ((p.rows columns)[slot]? = some none ∧ p'.rows columns = p.rows columns ∧ count' = count ∨
        ∃ row c o, (p.rows columns)[slot]? = some (some row) ∧ act row = .ok (c, o) ∧
          p'.rows columns = (p.rows columns).set slot o ∧ count' = count + c.toNat)

/-- The state of a slot loop on page `p` before slot `i`: the slots before it have been
acted on, the others are as they were. -/
structure SlotsDone (columns : Schema) (act : RowAction) (K : List Row → Prop)
    (bs : List (Block pageSize)) (k : ℕ) (p : Page) (count : ℕ) (i : ℕ) (s : Page × ℕ) :
    Prop where
  pageId : s.1.pageId = k
  good : s.1.Good columns
  keeps : K (rowsWith columns bs k s.1)
  done : ∃ n, Rewrites act ((p.rows columns).take i).reduceOption
    ((s.1.rows columns).take i).reduceOption n ∧ s.2 = count + n
  rest : (s.1.rows columns).drop i = (p.rows columns).drop i
  length_eq : (s.1.rows columns).length = (p.rows columns).length

section Rows

variable {columns : Schema} {act : RowAction} {K : List Row → Prop}

/-- One slot more. -/
theorem SlotsDone.step (hact : ActsOnRow body columns act K) {bs : List (Block pageSize)}
    (h : TablePages bs) (hgood : GoodPages columns bs) {k : ℕ} (hk : 1 ≤ k)
    (hkn : k < bs.length) {p : Page} {count i : ℕ} (hi : i < p.numSlots) {s s' : Page × ℕ}
    (hs : SlotsDone columns act K bs k p count i s) (hbody : (body k s i bs).1 = .ok s') :
    SlotsDone columns act K bs k p count (i + 1) s' := by
  obtain ⟨q, c⟩ := s
  obtain ⟨q', c'⟩ := s'
  obtain ⟨n, hdone, hc⟩ := hs.done
  have hlen := hs.length_eq
  have hrest := hs.rest
  dsimp only at hdone hc hlen hrest
  have hiq : i < (q.rows columns).length := by rw [hlen, Page.length_rows]; exact hi
  have hsame : (q.rows columns)[i]? = (p.rows columns)[i]? := by
    have := congrArg (·[0]?) hrest
    simpa using this
  have hrest' : (q.rows columns).drop (i + 1) = (p.rows columns).drop (i + 1) := by
    rw [← List.drop_drop, hrest, List.drop_drop]
  obtain ⟨hid, hg, hK, hcase⟩ := hact bs k q c i q' c' h hgood hk hkn hs.good hs.pageId
    (by rwa [Page.length_rows] at hiq) hs.keeps hbody
  -- a slot without a row stays so; a row is replaced or goes
  rcases hcase with ⟨hnone, hrows, rfl⟩ | ⟨row, b, o, hrow, hrow', hrows, rfl⟩
  · refine ⟨hid, hg, hK, ⟨n, ?_, hc⟩, ?_, by rw [hrows, hlen]⟩
    · rw [hrows, List.take_add_one, List.take_add_one, hnone, ← hsame, hnone,
        List.reduceOption_append, List.reduceOption_append]
      exact hdone.append (Rewrites.nil act)
    · rw [hrows, hrest']
  · refine ⟨hid, hg, hK, ⟨n + b.toNat, ?_, by rw [hc, Nat.add_assoc]⟩, ?_,
      by rw [hrows, List.length_set, hlen]⟩
    · have hset : ((q.rows columns).set i o)[i]? = some o := by
        rw [List.getElem?_set, if_pos rfl, if_pos hiq]
      rw [hrows, List.take_add_one, List.take_add_one, ← hsame, hrow, hset,
        List.take_set_of_le (le_refl i), List.reduceOption_append, List.reduceOption_append]
      refine hdone.append ?_
      have hone := Rewrites.singleton hrow'
      cases o <;> exact hone
    · rw [hrows, List.drop_set_of_lt (Nat.lt_succ_self i), hrest']

/-- A slot loop that returns has acted on all rows of its page. -/
theorem slotLoop_rows (hread : ∀ k s slot, (body k s slot).ReadOnly)
    (hact : ActsOnRow body columns act K) {bs : List (Block pageSize)} (h : TablePages bs)
    (hgood : GoodPages columns bs) {k : ℕ} (hk : 1 ≤ k) (hkn : k < bs.length) {p p' : Page}
    {count count' : ℕ} (hp : p.Good columns) (hid : p.pageId = k)
    (hK : K (rowsWith columns bs k p))
    (hloop : (slotLoop body k p count bs).1 = .ok (p', count')) :
    SlotsDone columns act K bs k p count p.numSlots (p', count') :=
  slotLoop_rule hread ⟨hid, hp, hK, ⟨0, Rewrites.nil act, rfl⟩, rfl, rfl⟩
    (fun _ _ _ hi hs hb => hs.step hact h hgood hk hkn hi hb) hloop

/-- The state of the page loop before page `k`: the rows of the pages before it have been
acted on, the other pages are as they were. -/
structure PagesDone (columns : Schema) (act : RowAction) (K : List Row → Prop)
    (bs0 : List (Block pageSize)) (k count : ℕ) (bs : List (Block pageSize)) : Prop where
  good : GoodPages columns bs
  keeps : K (liveRows columns bs)
  rest : bs.drop k = bs0.drop k
  done : Rewrites act (liveRows columns (bs0.take k)) (liveRows columns (bs.take k)) count

/-- Pages of which none is left to be passed. -/
theorem PagesDone.rewrites {bs cs : List (Block pageSize)} {n : ℕ}
    (h : PagesDone columns act K bs bs.length n cs) :
    Rewrites act (liveRows columns bs) (liveRows columns cs) n := by
  have hlen : cs.length ≤ bs.length := by
    have hrest := congrArg List.length h.rest
    rw [List.length_drop, List.length_drop, Nat.sub_self] at hrest
    omega
  have hdone := h.done
  rwa [List.take_of_length_le (le_refl _), List.take_of_length_le hlen] at hdone

/-- The rows that are there when some pages have been passed: old rows, and what `act` has left
of old rows. -/
theorem PagesDone.cases_of_mem {bs0 bs : List (Block pageSize)} {k count : ℕ}
    (h : PagesDone columns act K bs0 k count bs) {row : Row} (hrow : row ∈ liveRows columns bs) :
    row ∈ liveRows columns bs0 ∨ ∃ r ∈ liveRows columns bs0, ∃ c, act r = .ok (c, some row) := by
  rw [← List.take_append_drop k bs, liveRows_append, h.rest] at hrow
  rw [← List.take_append_drop k bs0, liveRows_append]
  rcases List.mem_append.1 hrow with hrow | hrow
  · obtain ⟨r, hr, c, hact⟩ := h.done.exists_of_mem hrow
    exact .inr ⟨r, List.mem_append_left _ hr, c, hact⟩
  · exact .inl (List.mem_append_right _ hrow)

/-- While a page that has been read is unchanged, the live rows are those of the array. -/
theorem rowsWith_read {bs : List (Block pageSize)} {k : ℕ} {b : Block pageSize}
    (hb : bs[k]? = some b) : rowsWith columns bs k ⟨b, k⟩ = liveRows columns bs := by
  obtain ⟨hk, hb⟩ := List.getElem?_eq_some_iff.1 hb
  have hset := liveRows_set columns hk ⟨b, k⟩
  rw [← hb, List.set_getElem_self] at hset
  rw [hset, ← hb]
  rfl

theorem liveRows_take_succ {bs : List (Block pageSize)} {k : ℕ} {b : Block pageSize}
    (hb : bs[k]? = some b) :
    liveRows columns (bs.take (k + 1)) =
      liveRows columns (bs.take k) ++ ((blockPage b).rows columns).reduceOption := by
  rw [List.take_add_one, hb, liveRows_append]
  exact congrArg _ (liveRows_singleton columns (blockPage b))

/-- One page more. -/
theorem PagesDone.step (hread : ∀ k s slot, (body k s slot).ReadOnly)
    (hact : ActsOnRow body columns act K) {bs0 bs : List (Block pageSize)} {k count : ℕ}
    {b : Block pageSize} {p' : Page} {count' : ℕ} (hk : 1 ≤ k) (h : TablePages bs)
    (hI : PagesDone columns act K bs0 k count bs) (hb : bs[k]? = some b)
    (hloop : (slotLoop body k ⟨b, k⟩ count bs).1 = .ok (p', count')) :
    p'.pageId = k ∧ p'.WF ∧ PagesDone columns act K bs0 (k + 1) count' (bs.set k p'.data) := by
  obtain ⟨hkn, hbk⟩ := List.getElem?_eq_some_iff.1 hb
  have hbg : ({ data := b, pageId := k } : Page).Good columns :=
    (hI.good b (hbk ▸ List.getElem_mem _)).with_id k
  have hs := slotLoop_rows hread hact h hI.good hk hkn hbg rfl
    (by rw [rowsWith_read hb]; exact hI.keeps) hloop
  obtain ⟨n, hdone, hc⟩ := hs.done
  have hlen := hs.length_eq
  rw [← Page.length_rows columns, List.take_of_length_le (le_refl _),
    List.take_of_length_le hlen.le] at hdone
  -- the page has not been written before
  have hb0 : bs0[k]? = some b := by
    have := congrArg (·[0]?) hI.rest
    rw [← hb]
    simpa using this.symm
  have hset : (bs.set k p'.data)[k]? = some p'.data := by
    rw [List.getElem?_set, if_pos rfl, if_pos hkn]
  refine ⟨hs.pageId, hs.good.wf, hI.good.set k hs.good, ?_, ?_, ?_⟩
  · rw [liveRows_set columns hkn]
    exact hs.keeps
  · have hrest : bs.drop (k + 1) = bs0.drop (k + 1) := by
      rw [← List.drop_drop, hI.rest, List.drop_drop]
    rw [List.drop_set_of_lt (Nat.lt_succ_self k), hrest]
  · rw [liveRows_take_succ hb0, liveRows_take_succ hset, List.take_set_of_le (le_refl k),
      show count' = count + n from hc]
    exact hI.done.append hdone

/-- What has happened to the rows when the pages before `k` have been passed. -/
theorem Passed.pagesDone (hread : ∀ k s slot, (body k s slot).ReadOnly)
    (hact : ActsOnRow body columns act K)
    {bs0 bs : List (Block pageSize)} {k count : ℕ} (h : TablePages bs0)
    (hgood : GoodPages columns bs0) (hK : K (liveRows columns bs0))
    (hp : Passed body bs0 k count bs) :
    TablePages bs ∧ PagesDone columns act K bs0 k count bs := by
  induction hp with
  | start =>
    refine ⟨h, hgood, hK, rfl, ?_⟩
    rw [liveRows_take_succ h.reserved]
    exact Rewrites.nil act
  | page hp hb hloop ih =>
    obtain ⟨h', hI⟩ := ih
    obtain ⟨hid, hwf, hnext⟩ := hI.step hread hact hp.one_le h' hb hloop
    exact ⟨h'.set hp.one_le hwf, hnext⟩

/-- **A rewriting statement maps its action over the rows.**  When it returns, every row
has been acted on once, in order.  When it fails, this is so for the pages before some
page, and that page and those after it are as before. -/
theorem rewritePages_rows (hread : ∀ k s slot, (body k s slot).ReadOnly)
    (hkeep : KeepsPages body) (hact : ActsOnRow body columns act K)
    {bs0 : List (Block pageSize)} (h : TablePages bs0) (hgood : GoodPages columns bs0)
    (hK : K (liveRows columns bs0)) :
    Prog.Spec (fun bs => bs = bs0) (rewritePages (pageArray limit) body)
      (fun n bs => PagesDone columns act K bs0 bs0.length n bs)
      (fun _ bs => ∃ k n, 1 ≤ k ∧ k < bs0.length ∧ PagesDone columns act K bs0 k n bs) := by
  refine (rewritePages_passed hread hkeep h).conseq (fun _ hbs => hbs) ?_ ?_
  · rintro n bs ⟨-, -, hp⟩
    exact (hp.pagesDone hread hact h hgood hK).2
  · rintro e bs ⟨-, -, k, n, b, hk, hp, -⟩
    exact ⟨k, n, hp.one_le, hk, (hp.pagesDone hread hact h hgood hK).2⟩

/-- However such a statement ends, some pages have been passed and the others are as before. -/
theorem exists_pagesDone {bs0 : List (Block pageSize)}
    {c : Prog (List (Block pageSize)) (Failure ExecError) ℕ}
    (hrule : Prog.Spec (fun bs => bs = bs0) c
      (fun n bs => PagesDone columns act K bs0 bs0.length n bs)
      (fun _ bs => ∃ k n, 1 ≤ k ∧ k < bs0.length ∧ PagesDone columns act K bs0 k n bs)) :
    ∃ k n, PagesDone columns act K bs0 k n (c bs0).2 := by
  have hspec := hrule bs0 rfl
  rcases hr : c bs0 with ⟨e | n, cs⟩ <;> rw [hr] at hspec
  · obtain ⟨k, n, -, -, hdone⟩ := hspec
    exact ⟨k, n, hdone⟩
  · exact ⟨bs0.length, n, hspec⟩

end Rows

end MicroSql
