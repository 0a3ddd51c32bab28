import Mathlib.Data.List.Basic
import Mathlib.Order.Lattice
import Mathlib.Tactic.Common

/-!
# A cursor over ranges that change

Ranges lie one after another on a line. A cursor visits the first of them that ends above it, and
moves to the end of what it visited; between two visits the ranges may change. `Walk Q c₀ c seen`
says that a cursor came from `c₀` to `c` and visited `seen`, in collections that `Q` holds of.

What is visited ends in increasing order (`Walk.pairwise`), so that it is visited once. A range that
is in all of the collections is visited exactly if the cursor is past it (`Walk.mem_iff`), whatever
becomes of its neighbours. In a collection that does not change the
walk is its beginning (`Walk.eq_filter`).

`Sweep` is a walk that sweeps what it visits, from the cursor on. No place is swept twice
(`Sweep.pairwise`), and a place that some range has in all of the collections, be it not always the
same one, is swept exactly if the cursor is past it (`Sweep.mem_iff`).
-/

namespace KernelPortfolio.Cursor

variable {α K : Type*} [LinearOrder K] (lo hi : α → K)

/-- Ranges one after another: none is empty, and each ends where the next begins or before. -/
structure Ordered (xs : List α) : Prop where
  nonempty : ∀ x ∈ xs, lo x < hi x
  sorted : xs.Pairwise fun x y => hi x ≤ lo y

/-- The first range that ends above `c`. -/
def above (c : K) (xs : List α) : Option α := xs.find? fun x => c < hi x

/-- A cursor came from `c₀` to `c` and visited `seen`. -/
inductive Walk (Q : List α → Prop) (c₀ : K) : K → List α → Prop
  | start : Walk Q c₀ c₀ []
  | visit {c : K} {seen xs : List α} {x : α} :
      Walk Q c₀ c seen → Q xs → above hi c xs = some x → Walk Q c₀ (hi x) (seen ++ [x])

variable {lo hi} {c c₀ : K} {xs seen : List α} {x v : α} {Q : List α → Prop}

/-- The range that is found is one of them, and ends above. -/
theorem mem_and_lt_of_above (h : above hi c xs = some x) : x ∈ xs ∧ c < hi x :=
  ⟨List.mem_of_find?_eq_some h, by simpa using List.find?_some h⟩

/-- None is found exactly if none ends above. -/
theorem above_eq_none : above hi c xs = none ↔ ∀ y ∈ xs, hi y ≤ c := by
  simp [above]

/-- The ranges before the one that is found do not end above. -/
theorem above_eq_some_iff :
    above hi c xs = some x ↔
      c < hi x ∧ ∃ pre post, xs = pre ++ x :: post ∧ ∀ y ∈ pre, hi y ≤ c := by
  unfold above
  rw [List.find?_eq_some_iff_append]
  simp

/-- Of a range that ends above the cursor, either it is found, or one that ends before it begins. -/
theorem eq_or_le_of_above (hxs : Ordered lo hi xs) (hv : v ∈ xs) (h : above hi c xs = some x)
    (hc : c < hi v) : x = v ∨ hi x ≤ lo v := by
  obtain ⟨-, pre, post, rfl, hpre⟩ := above_eq_some_iff.mp h
  have hsorted := hxs.sorted
  rw [List.pairwise_append, List.pairwise_cons] at hsorted
  obtain ⟨-, ⟨hpost, -⟩, -⟩ := hsorted
  rcases List.mem_append.mp hv with hbefore | hbehind
  · exact absurd hc (not_lt.mpr (hpre v hbefore))
  · rcases List.mem_cons.mp hbehind with rfl | hlater
    · exact .inl rfl
    · exact .inr (hpost v hlater)

/-- Ranges that end in increasing order are different, so that each is at one place. -/
theorem existsUnique_getElem? (h : seen.Pairwise fun x y => hi x < hi y) (hv : v ∈ seen) :
    ∃! i : ℕ, seen[i]? = some v := by
  have hnodup : seen.Nodup := h.imp fun hlt heq => absurd (congrArg hi heq) hlt.ne
  obtain ⟨i, hat⟩ := List.mem_iff_getElem?.mp hv
  refine ⟨i, hat, ?_⟩
  intro j hj
  have hlt := (List.getElem?_eq_some_iff.mp hj).1
  exact (List.getElem?_inj hlt hnodup).mp (hj.trans hat.symm)

/-- A range that ends above the end of another one begins there or above. -/
theorem Ordered.le_lo (hxs : Ordered lo hi xs) {y : α} (hy : y ∈ xs) (hx : x ∈ xs)
    (hlt : hi y < hi x) : hi y ≤ lo x := by
  have hsorted := hxs.sorted
  obtain ⟨i, hi', rfl⟩ := List.mem_iff_getElem.mp hy
  obtain ⟨j, hj, rfl⟩ := List.mem_iff_getElem.mp hx
  have hbefore {m n : ℕ} (hm : m < xs.length) (hn : n < xs.length) (hmn : m < n) :
      hi xs[m] ≤ lo xs[n] := List.pairwise_iff_getElem.mp hsorted m n hm hn hmn
  rcases Nat.lt_trichotomy i j with hij | rfl | hji
  · exact hbefore hi' hj hij
  · exact absurd hlt (lt_irrefl _)
  · have hle := hbefore hj hi' hji
    exact absurd (hle.trans (hxs.nonempty _ hy).le) (not_le.mpr hlt)

namespace Walk

/-- A cursor does not move backwards, and what it visited does not end above it. -/
theorem le (h : Walk hi Q c₀ c seen) : c₀ ≤ c ∧ ∀ y ∈ seen, c₀ < hi y ∧ hi y ≤ c := by
  induction h with
  | start => exact ⟨le_rfl, by simp⟩
  | visit _ _ hfound ih =>
    obtain ⟨hle, hseen⟩ := ih
    have hlt := (mem_and_lt_of_above hfound).2
    refine ⟨hle.trans hlt.le, ?_⟩
    intro y hy
    rcases List.mem_append.mp hy with hold | hnew
    · exact ⟨(hseen y hold).1, (hseen y hold).2.trans hlt.le⟩
    · rw [List.mem_singleton.mp hnew]
      exact ⟨hle.trans_lt hlt, le_rfl⟩

/-- A walk in collections of a more general kind. -/
theorem mono {Q' : List α → Prop} (h : Walk hi Q c₀ c seen) (hQ : ∀ xs, Q xs → Q' xs) :
    Walk hi Q' c₀ c seen := by
  induction h with
  | start => exact .start
  | visit _ hxs hfound ih => exact ih.visit (hQ _ hxs) hfound

/-- What is visited ends in increasing order. -/
theorem pairwise (h : Walk hi Q c₀ c seen) : seen.Pairwise fun x y => hi x < hi y := by
  induction h with
  | start => exact List.Pairwise.nil
  | visit hwalk _ hfound ih =>
    rw [List.pairwise_append]
    refine ⟨ih, List.pairwise_singleton _ _, ?_⟩
    intro y hy z hz
    rw [List.mem_singleton.mp hz]
    exact (hwalk.le.2 y hy).2.trans_lt (mem_and_lt_of_above hfound).2

/-- A range that is always there is visited exactly if the cursor is past it. -/
theorem mem_iff (h : Walk hi Q c₀ c seen) (hQ : ∀ xs, Q xs → Ordered lo hi xs ∧ v ∈ xs)
    (hv : lo v < hi v) (hstart : c₀ < hi v) : v ∈ seen ↔ hi v ≤ c := by
  induction h with
  | start => simpa using hstart
  | @visit c seen xs x hwalk hxs hfound ih =>
    have hlt := (mem_and_lt_of_above hfound).2
    rw [List.mem_append, List.mem_singleton, ih]
    constructor
    · rintro (hold | rfl)
      · exact hold.trans hlt.le
      · exact le_rfl
    · intro hle
      by_cases hc : hi v ≤ c
      · exact .inl hc
      · -- it ends between the two places of the cursor, so that nothing else was found
        rcases eq_or_le_of_above (hQ xs hxs).1 (hQ xs hxs).2 hfound (not_le.mp hc) with heq | hbelow
        · exact .inr heq.symm
        · exact absurd (hle.trans hbelow) (not_le.mpr hv)

/-- In a collection that does not change, the cursor visits what ends up to it. -/
theorem eq_filter (h : Walk hi (· = xs) c₀ c seen) (hxs : Ordered lo hi xs)
    (hstart : ∀ x ∈ xs, c₀ < hi x) : seen = xs.filter fun x => hi x ≤ c := by
  induction h with
  | start =>
    symm
    rw [List.filter_eq_nil_iff]
    simpa using hstart
  | @visit c seen _ x hwalk hQ hfound ih =>
    subst hQ
    obtain ⟨hlt, pre, post, rfl, hpre⟩ := above_eq_some_iff.mp hfound
    have hsorted := hxs.sorted
    rw [List.pairwise_append, List.pairwise_cons] at hsorted
    obtain ⟨-, ⟨hpost, -⟩, -⟩ := hsorted
    have hbehind : ∀ y ∈ post, hi x < hi y := by
      intro y hy
      exact (hpost y hy).trans_lt
        (hxs.nonempty y (List.mem_append_right _ (List.mem_cons_of_mem _ hy)))
    -- up to the cursor there is what stands before `x`, and now also `x`
    have hkeep (k : K) (hk : hi x ≤ k ∨ c ≤ k) : pre.filter (fun y => hi y ≤ k) = pre :=
      List.filter_eq_self.mpr fun y hy => decide_eq_true
        (hk.elim ((hpre y hy).trans hlt.le).trans (hpre y hy).trans)
    have hdrop (k : K) (hk : k ≤ hi x) : post.filter (fun y => hi y ≤ k) = [] :=
      List.filter_eq_nil_iff.mpr fun y hy => by simpa using hk.trans_lt (hbehind y hy)
    rw [ih, List.filter_append, List.filter_append, hkeep c (.inr le_rfl),
      hkeep (hi x) (.inl le_rfl), List.filter_cons_of_neg (by simpa using hlt),
      List.filter_cons_of_pos (by simp), hdrop c hlt.le, hdrop (hi x) le_rfl, List.append_nil]

/-- In a collection that does not change, a cursor that finds nothing more visited everything. -/
theorem eq_of_above_eq_none (h : Walk hi (· = xs) c₀ c seen) (hxs : Ordered lo hi xs)
    (hstart : ∀ x ∈ xs, c₀ < hi x) (hend : above hi c xs = none) : seen = xs := by
  rw [h.eq_filter hxs hstart, List.filter_eq_self]
  simpa using above_eq_none.mp hend

end Walk

/-! ## Sweeps -/

variable (lo hi)

/-- A cursor came from `c₀` to `c`, and swept each range of `seen` from the cursor on. -/
inductive Sweep (Q : List α → Prop) (c₀ : K) : K → List (α × K) → Prop
  | start : Sweep Q c₀ c₀ []
  | visit {c : K} {seen : List (α × K)} {xs : List α} {x : α} :
      Sweep Q c₀ c seen → Q xs → above hi c xs = some x →
        Sweep Q c₀ (hi x) (seen ++ [(x, c)])

/-- The place is swept. -/
def Sweeps (p : α × K) (a : K) : Prop := max (lo p.1) p.2 ≤ a ∧ a < hi p.1

variable {lo hi}

namespace Sweep

variable {swept : List (α × K)} {a : K}

/-- A sweep is a walk. -/
theorem walk (h : Sweep hi Q c₀ c swept) : Walk hi Q c₀ c (swept.map Prod.fst) := by
  induction h with
  | start => exact .start
  | visit _ hxs hfound ih =>
    rw [List.map_append]
    exact ih.visit hxs hfound

/-- A sweep over collections of a more general kind. -/
theorem mono {Q' : List α → Prop} (h : Sweep hi Q c₀ c swept) (hQ : ∀ xs, Q xs → Q' xs) :
    Sweep hi Q' c₀ c swept := by
  induction h with
  | start => exact .start
  | visit _ hxs hfound ih => exact ih.visit (hQ _ hxs) hfound

/-- What is swept is not above the cursor. -/
theorem le (h : Sweep hi Q c₀ c swept) : ∀ p ∈ swept, hi p.1 ≤ c := by
  intro p hp
  exact (h.walk.le.2 p.1 (List.mem_map_of_mem hp)).2

/-- What is swept later is above what is swept before. -/
theorem pairwise (h : Sweep hi Q c₀ c swept) : swept.Pairwise fun p q => hi p.1 ≤ q.2 := by
  induction h with
  | start => exact List.Pairwise.nil
  | visit hsweep _ _ ih =>
    rw [List.pairwise_append]
    refine ⟨ih, List.pairwise_singleton _ _, ?_⟩
    intro p hp q hq
    rw [List.mem_singleton.mp hq]
    exact hsweep.le p hp

/-- A place that is in a range of each collection is swept exactly if the cursor is past it. -/
theorem mem_iff (h : Sweep hi Q c₀ c swept) (hstart : c₀ ≤ a)
    (hQ : ∀ xs, Q xs → Ordered lo hi xs ∧ ∃ v ∈ xs, lo v ≤ a ∧ a < hi v) :
    (∃ p ∈ swept, Sweeps lo hi p a) ↔ a < c := by
  induction h with
  | start => simpa using hstart
  | @visit c swept xs x hsweep hxs hfound ih =>
    have hlt := (mem_and_lt_of_above hfound).2
    have hsplit : (∃ p ∈ swept ++ [(x, c)], Sweeps lo hi p a) ↔
        (∃ p ∈ swept, Sweeps lo hi p a) ∨ Sweeps lo hi (x, c) a := by
      simp [or_and_right, exists_or]
    rw [hsplit, ih]
    constructor
    · rintro (hold | hnew)
      · exact hold.trans hlt
      · exact hnew.2
    · intro ha
      rcases lt_or_ge a c with hbelow | habove
      · exact .inl hbelow
      · -- the range that has the place ends above the cursor, and so it is the one that is found
        obtain ⟨hordered, v, hv, hvlo, hvhi⟩ := hQ xs hxs
        rcases eq_or_le_of_above hordered hv hfound (habove.trans_lt hvhi) with rfl | hle
        · exact .inr ⟨max_le hvlo habove, ha⟩
        · exact absurd (ha.trans_le hle) (not_lt.mpr hvlo)

/-- In a collection that does not change, all of each range is swept. -/
theorem le_lo (h : Sweep hi (· = xs) c₀ c swept) (hxs : Ordered lo hi xs)
    (hstart : ∀ x ∈ xs, c₀ ≤ lo x) :
    (c = c₀ ∨ ∃ x ∈ xs, hi x = c) ∧ ∀ p ∈ swept, p.2 ≤ lo p.1 := by
  induction h with
  | start => exact ⟨.inl rfl, by simp⟩
  | @visit c swept _ x hsweep hQ hfound ih =>
    subst hQ
    obtain ⟨hx, hlt⟩ := mem_and_lt_of_above hfound
    refine ⟨.inr ⟨x, hx, rfl⟩, ?_⟩
    intro p hp
    rcases List.mem_append.mp hp with hold | hnew
    · exact ih.2 p hold
    · rw [List.mem_singleton.mp hnew]
      rcases ih.1 with rfl | ⟨y, hy, rfl⟩
      · exact hstart x hx
      · exact hxs.le_lo hy hx hlt

/-- A place that is swept is swept once. -/
theorem existsUnique (h : Sweep hi Q c₀ c swept) (hmem : ∃ p ∈ swept, Sweeps lo hi p a) :
    ∃! i : ℕ, ∃ p, swept[i]? = some p ∧ Sweeps lo hi p a := by
  obtain ⟨p, hp, ha⟩ := hmem
  obtain ⟨i, hi'⟩ := List.mem_iff_getElem?.mp hp
  have hpairwise := List.pairwise_iff_getElem.mp h.pairwise
  have habove {i j : ℕ} {p q : α × K} (hij : i < j) (hp : swept[i]? = some p)
      (hq : swept[j]? = some q) (hpa : Sweeps lo hi p a) (hqa : Sweeps lo hi q a) : False := by
    obtain ⟨hi', rfl⟩ := List.getElem?_eq_some_iff.mp hp
    obtain ⟨hj, rfl⟩ := List.getElem?_eq_some_iff.mp hq
    have hle : hi swept[i].1 ≤ a :=
      (hpairwise i j hi' hj hij).trans ((le_max_right _ _).trans hqa.1)
    exact absurd hpa.2 (not_lt.mpr hle)
  refine ⟨i, ⟨p, hi', ha⟩, ?_⟩
  rintro j ⟨q, hq, hqa⟩
  rcases Nat.lt_trichotomy j i with hlt | heq | hgt
  · exact (habove hlt hq hi' hqa ha).elim
  · exact heq
  · exact (habove hgt hi' hq ha hqa).elim

end Sweep

end KernelPortfolio.Cursor
