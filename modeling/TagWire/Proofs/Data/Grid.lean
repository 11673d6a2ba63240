import TagWire.Data.Height

/-!
# Rectangular data

A value has a shape if at each level of it all lists have the length that the shape gives. `Data.grid` finds
the shape and the leaves of such values and of no others, and `Data.nest` puts the leaves together again.
-/

namespace TagWire.Data

/-- At each level of the shape there are only lists, of the length that the shape gives. -/
def HasShape : List Nat → Data → Prop
  | [], _ => True
  | n :: shape, d => ∃ items, d.items? = some items ∧ items.length = n ∧ ∀ x ∈ items, HasShape shape x

/-- What lies below a number of levels of lists. -/
def leavesAt : Nat → Data → List Data
  | 0, d => [d]
  | depth + 1, d => (d.items?.getD []).flatMap (leavesAt depth)

/-- A value with a number of levels of lists rebuilt as plain lists, and what lies below them changed. -/
def mapLeaves (f : Data → Data) : Nat → Data → Data
  | 0, d => f d
  | depth + 1, d => list ((d.items?.getD []).map (mapLeaves f depth))

/-- Below an empty level no list is met, and the lengths there count as 0. -/
def Settled (shape : List Nat) : Prop := shape.Pairwise fun m n => m = 0 → n = 0

/-! ## Walks -/

theorem items?_of_mem_items {a : NumArray} {x : Data} (h : x ∈ a.items) : x.items? = Option.none := by
  cases a <;> simp only [NumArray.items, List.mem_map] at h <;> obtain ⟨_, _, rfl⟩ := h <;> rfl

theorem walkAll_of_scalars {depth level : Nat} {g : Grid} {items : List Data}
    (h : ∀ x ∈ items, x.items? = Option.none) :
    walkAll depth level g items = if items.isEmpty then .ok g else .error (.notAList level) := by
  cases items with
  | nil => rfl
  | cons x xs =>
    have hx := h x (by simp)
    cases x <;> simp_all [walkAll, walk, items?]

theorem walk_of_none {depth level : Nat} {g : Grid} {d : Data} (h : d.items? = Option.none) :
    d.walk depth level g = .error (.notAList level) := by
  cases d <;> simp_all [walk, items?]

/-- All kinds of lists are walked through in the same way. -/
theorem walk_of_items {depth level : Nat} {g : Grid} {d : Data} {items : List Data} (h : d.items? = some items) :
    d.walk depth level g = (g.meet level items.length).bind fun g =>
      if level + 1 = depth then .ok (g.addLeaves items) else walkAll depth (level + 1) g items := by
  cases d with
  | list xs =>
    cases h
    rw [walk]
    cases g.meet level items.length <;> rfl
  | array a =>
    cases h
    simp only [walk, items?, walkAll_of_scalars fun x => items?_of_mem_items]
    cases g.meet level a.items.length <;> rfl
  | valueArray xs unit =>
    cases h
    have hs : ∀ x ∈ xs.map fun x => value x unit, x.items? = Option.none := by
      intro x hx
      obtain ⟨_, _, rfl⟩ := List.mem_map.1 hx
      rfl
    simp only [walk, items?, walkAll_of_scalars hs]
    cases g.meet level (xs.map fun x => value x unit).length <;> rfl
  | _ => cases h

/-! ## What a walk finds -/

/-- A grid that a walk at a level can have. -/
structure Reached (depth level : Nat) (g : Grid) : Prop where
  level_le : level ≤ g.shape.length
  length_le : g.shape.length ≤ depth
  above : ∀ n ∈ g.shape.take level, n ≠ 0
  settled : Settled g.shape

/-- What a walk at a level does to a grid: it adds to the shape and to the leaves, and any shape that goes on
from the one it leaves behind satisfies a condition from the level on. -/
structure Walked (depth level : Nat) (g g' : Grid) (found : List Data) (fits : List Nat → Prop) : Prop where
  shape_le : g.shape <+: g'.shape
  reached : Reached depth level g'
  leaves : g'.leaves = g.leaves ++ found
  fits : ∀ s, s.length = depth → g'.shape <+: s → fits (s.drop level)

theorem Walked.trans {depth level : Nat} {g₁ g₂ g₃ : Grid} {xs ys : List Data} {p q : List Nat → Prop}
    (h₁ : Walked depth level g₁ g₂ xs p) (h₂ : Walked depth level g₂ g₃ ys q) :
    Walked depth level g₁ g₃ (xs ++ ys) fun s => p s ∧ q s where
  shape_le := h₁.shape_le.trans h₂.shape_le
  reached := h₂.reached
  leaves := by rw [h₂.leaves, h₁.leaves, List.append_assoc]
  fits s hs hp := ⟨h₁.fits s hs (h₂.shape_le.trans hp), h₂.fits s hs hp⟩

theorem Settled.snoc {shape : List Nat} {n : Nat} (h : Settled shape) (hs : ∀ m ∈ shape, m ≠ 0) :
    Settled (shape ++ [n]) := by
  refine List.pairwise_append.2 ⟨h, List.pairwise_singleton _ _, ?_⟩
  intro m hm n _ h0
  exact absurd h0 (hs m hm)

/-- The grid after a list is met, and the length that it has at the level of the list. -/
theorem Reached.meet {depth level length : Nat} {g g' : Grid} (hr : Reached depth level g) (hl : level < depth)
    (h : g.meet level length = .ok g') :
    Reached depth level g' ∧ g.shape <+: g'.shape ∧ g'.leaves = g.leaves ∧ g'.shape[level]? = some length := by
  unfold Grid.meet at h
  cases hf : g.shape[level]? with
  | none =>
    have hle : level = g.shape.length := Nat.le_antisymm hr.level_le (List.getElem?_eq_none_iff.1 hf)
    have ha : ∀ n ∈ g.shape, n ≠ 0 := by simpa [hle] using hr.above
    simp only [hf, Except.ok.injEq] at h
    subst h
    refine ⟨⟨by simp [hle], by simp; omega, ?_, hr.settled.snoc ha⟩, List.prefix_append _ _, rfl, by simp [hle]⟩
    rw [hle, List.take_left]
    exact ha
  | some first =>
    simp only [hf] at h
    split at h
    · cases h
      exact ⟨hr, List.prefix_rfl, rfl, by simp_all⟩
    · cases h

theorem getElem?_of_extends {s t : List Nat} {i n : Nat} (h : s <+: t) (hi : s[i]? = some n) : t[i]? = some n := by
  obtain ⟨u, rfl⟩ := h
  rw [List.getElem?_append_left (List.getElem?_eq_some_iff.1 hi).1, hi]

theorem drop_of_getElem? {s : List Nat} {i n : Nat} (h : s[i]? = some n) : s.drop i = n :: s.drop (i + 1) := by
  obtain ⟨hi, rfl⟩ := List.getElem?_eq_some_iff.1 h
  exact List.drop_eq_getElem_cons hi

theorem Reached.descend {depth level length : Nat} {g : Grid} (hr : Reached depth level g)
    (h : g.shape[level]? = some length) (h0 : length ≠ 0) : Reached depth (level + 1) g where
  level_le := (List.getElem?_eq_some_iff.1 h).1
  length_le := hr.length_le
  above := by
    obtain ⟨hi, rfl⟩ := List.getElem?_eq_some_iff.1 h
    intro n hn
    rw [List.take_succ_eq_append_getElem hi] at hn
    rcases List.mem_append.1 hn with hn | hn
    · exact hr.above n hn
    · rw [List.mem_singleton.1 hn]
      exact h0
  settled := hr.settled

theorem Reached.ascend {depth level : Nat} {g : Grid} (hr : Reached depth (level + 1) g) : Reached depth level g where
  level_le := Nat.le_of_succ_le hr.level_le
  length_le := hr.length_le
  above n hn := hr.above n (List.take_subset_take_left _ (Nat.le_succ _) hn)
  settled := hr.settled

theorem walkAll_walked {depth level k : Nat}
    (ih : ∀ {d g g'}, Reached depth level g → walk depth level g d = .ok g' →
      Walked depth level g g' (leavesAt k d) fun s => HasShape s d) :
    ∀ {ds : List Data} {g g' : Grid}, Reached depth level g → walkAll depth level g ds = .ok g' →
      Walked depth level g g' (ds.flatMap (leavesAt k)) fun s => ∀ x ∈ ds, HasShape s x := by
  intro ds
  induction ds with
  | nil =>
    intro g g' hr h
    cases h
    exact ⟨List.prefix_rfl, hr, by simp, fun _ _ _ x hx => by cases hx⟩
  | cons d ds ihs =>
    intro g g' hr h
    unfold walkAll at h
    split at h
    · cases h
    · rename_i g₁ h₁
      have hw := ih hr h₁
      have hws := hw.trans (ihs hw.reached h)
      refine ⟨hws.shape_le, hws.reached, by simpa using hws.leaves, ?_⟩
      intro s hs hp x hx
      obtain ⟨hd, hds⟩ := hws.fits s hs hp
      rcases List.mem_cons.1 hx with rfl | hx
      · exact hd
      · exact hds x hx

/-- A walk finds the leaves of a value, and a shape that the value has. -/
theorem walk_walked (k : Nat) : ∀ {level : Nat} {d : Data} {g g' : Grid}, Reached (level + k + 1) level g →
    d.walk (level + k + 1) level g = .ok g' →
    Walked (level + k + 1) level g g' (leavesAt (k + 1) d) fun s => HasShape s d := by
  induction k with
  | zero =>
    intro level d g g' hr h
    cases hi : d.items? with
    | none => rw [walk_of_none hi] at h; cases h
    | some items =>
      rw [walk_of_items hi] at h
      cases hm : g.meet level items.length with
      | error e => rw [hm] at h; cases h
      | ok g₁ =>
        rw [hm] at h
        simp only [Except.bind, ite_true, Except.ok.injEq, Nat.add_zero] at h
        subst h
        obtain ⟨hr₁, hp₁, hl₁, hlen⟩ := hr.meet (by omega) hm
        refine ⟨hp₁, ⟨hr₁.level_le, hr₁.length_le, hr₁.above, hr₁.settled⟩, ?_, ?_⟩
        · simp [Grid.addLeaves, hl₁, leavesAt, hi, List.flatMap_singleton']
        · intro s _ hp
          rw [drop_of_getElem? (getElem?_of_extends hp hlen)]
          have he : s.drop (level + 1) = [] := List.drop_eq_nil_iff.2 (by omega)
          exact ⟨items, hi, rfl, fun x _ => by rw [he]; trivial⟩
  | succ k ih =>
    intro level d g g' hr h
    cases hi : d.items? with
    | none => rw [walk_of_none hi] at h; cases h
    | some items =>
      rw [walk_of_items hi] at h
      cases hm : g.meet level items.length with
      | error e => rw [hm] at h; cases h
      | ok g₁ =>
        rw [hm] at h
        simp only [Except.bind, show ¬ level + 1 = level + (k + 1) + 1 by omega, ite_false] at h
        obtain ⟨hr₁, hp₁, hl₁, hlen⟩ := hr.meet (by omega) hm
        have hd : leavesAt (k + 1 + 1) d = items.flatMap (leavesAt (k + 1)) := by simp [leavesAt, hi]
        -- an empty list ends the walk, and a list with items leads one level down
        by_cases h0 : items.length = 0
        · rw [List.length_eq_zero_iff.1 h0] at h hd
          cases h
          refine ⟨hp₁, hr₁, by simp [hl₁, hd], ?_⟩
          intro s _ hp
          rw [drop_of_getElem? (getElem?_of_extends hp hlen)]
          exact ⟨items, hi, rfl, by rw [List.length_eq_zero_iff.1 h0]; simp⟩
        · have e : level + (k + 1) + 1 = level + 1 + k + 1 := by omega
          rw [e] at h hr₁ ⊢
          have hw := walkAll_walked ih (hr₁.descend hlen h0) h
          refine ⟨hp₁.trans hw.shape_le, hw.reached.ascend, by rw [hw.leaves, hl₁, hd], ?_⟩
          intro s hs hp
          rw [drop_of_getElem? (getElem?_of_extends (hw.shape_le.trans hp) hlen)]
          exact ⟨items, hi, rfl, hw.fits s hs hp⟩

/-- The shape of a grid has the depth asked for, and the value has that shape. -/
theorem grid_spec {d : Data} {k : Nat} {g : Grid} (h : d.grid (k + 1) = .ok g) :
    g.shape.length = k + 1 ∧ HasShape g.shape d ∧ g.leaves = leavesAt (k + 1) d ∧ Settled g.shape := by
  unfold grid at h
  cases hw : d.walk (k + 1) 0 {} with
  | error e => simp [hw, Except.map] at h
  | ok g₁ =>
    simp only [hw, Except.map, Except.ok.injEq] at h
    subst h
    have hr : Reached (0 + k + 1) 0 {} := ⟨by simp, by simp, by simp, List.Pairwise.nil⟩
    have hw₁ := walk_walked k hr (by simpa using hw)
    have hlen : (g₁.resize (k + 1)).shape.length = k + 1 := by simp [Grid.resize]
    have hp : g₁.shape <+: (g₁.resize (k + 1)).shape := by
      have := hw₁.reached.length_le
      exact List.prefix_take_iff.2 ⟨List.prefix_append _ _, by omega⟩
    refine ⟨hlen, by simpa using hw₁.fits _ (by omega) hp, hw₁.leaves, ?_⟩
    refine List.Pairwise.sublist (List.take_sublist _ _) (List.pairwise_append.2 ⟨hw₁.reached.settled, ?_, ?_⟩)
    · exact List.pairwise_replicate.2 (Or.inr fun _ => rfl)
    · intro m _ n hn _
      exact List.eq_of_mem_replicate hn

/-! ## Every value of a shape is a grid -/

theorem meet_of_extends {level length : Nat} {g : Grid} {s : List Nat} (hg : g.shape <+: s)
    (hl : level ≤ g.shape.length) (hs : s[level]? = some length) :
    ∃ g', g.meet level length = .ok g' ∧ g.shape <+: g'.shape ∧ g'.shape <+: s ∧ level < g'.shape.length := by
  unfold Grid.meet
  cases hf : g.shape[level]? with
  | none =>
    have hle : level = g.shape.length := Nat.le_antisymm hl (List.getElem?_eq_none_iff.1 hf)
    refine ⟨_, rfl, List.prefix_append _ _, ?_, by simp [hle]⟩
    obtain ⟨t, rfl⟩ := hg
    have ht : t[0]? = some length := by
      rw [List.getElem?_append_right (by omega)] at hs
      simpa [hle] using hs
    obtain ⟨u, rfl⟩ : ∃ u, t = length :: u := by cases t <;> simp_all
    exact ⟨u, by simp⟩
  | some first =>
    have he : some first = some length := (getElem?_of_extends hg hf).symm.trans hs
    cases he
    exact ⟨g, by simp, List.prefix_rfl, hg, (List.getElem?_eq_some_iff.1 hf).1⟩

theorem walkAll_of_hasShape {depth level : Nat} {s t : List Nat}
    (ih : ∀ {d g}, HasShape t d → g.shape <+: s → level ≤ g.shape.length →
      ∃ g', walk depth level g d = .ok g' ∧ g.shape <+: g'.shape ∧ g'.shape <+: s) :
    ∀ {ds : List Data} {g : Grid}, (∀ x ∈ ds, HasShape t x) → g.shape <+: s → level ≤ g.shape.length →
      ∃ g', walkAll depth level g ds = .ok g' ∧ g.shape <+: g'.shape ∧ g'.shape <+: s := by
  intro ds
  induction ds with
  | nil =>
    intro g _ hg _
    exact ⟨g, rfl, List.prefix_rfl, hg⟩
  | cons d ds ihs =>
    intro g hd hg hl
    obtain ⟨g₁, h₁, hp₁, hs₁⟩ := ih (hd d (by simp)) hg hl
    obtain ⟨g₂, h₂, hp₂, hs₂⟩ :=
      ihs (fun x hx => hd x (by simp [hx])) hs₁ (Nat.le_trans hl hp₁.length_le)
    exact ⟨g₂, by simp [walkAll, h₁, h₂], hp₁.trans hp₂, hs₂⟩

theorem walk_of_hasShape {s : List Nat} (k : Nat) : ∀ {level : Nat} {d : Data} {g : Grid},
    s.length = level + k + 1 → HasShape (s.drop level) d → g.shape <+: s → level ≤ g.shape.length →
    ∃ g', d.walk (level + k + 1) level g = .ok g' ∧ g.shape <+: g'.shape ∧ g'.shape <+: s := by
  induction k with
  | zero =>
    intro level d g hs hd hg hl
    have hlt : level < s.length := by omega
    rw [List.drop_eq_getElem_cons hlt] at hd
    obtain ⟨items, hi, hn, _⟩ := hd
    obtain ⟨g₁, hm, hp₁, hs₁, _⟩ := meet_of_extends hg hl (List.getElem?_eq_some_iff.2 ⟨hlt, hn.symm⟩)
    refine ⟨g₁.addLeaves items, ?_, hp₁, hs₁⟩
    rw [walk_of_items hi, hm]
    simp [Except.bind]
  | succ k ih =>
    intro level d g hs hd hg hl
    have hlt : level < s.length := by omega
    rw [List.drop_eq_getElem_cons hlt] at hd
    obtain ⟨items, hi, hn, hx⟩ := hd
    obtain ⟨g₁, hm, hp₁, hs₁, hl₁⟩ := meet_of_extends hg hl (List.getElem?_eq_some_iff.2 ⟨hlt, hn.symm⟩)
    have e : level + (k + 1) + 1 = level + 1 + k + 1 := by omega
    obtain ⟨g₂, h₂, hp₂, hs₂⟩ := walkAll_of_hasShape (ih (by omega)) hx hs₁ hl₁
    refine ⟨g₂, ?_, hp₁.trans hp₂, hs₂⟩
    rw [walk_of_items hi, hm, e]
    simp only [Except.bind, show ¬ level + 1 = level + 1 + k + 1 by omega, ite_false, h₂]

theorem Settled.tail {n : Nat} {s : List Nat} (h : Settled (n :: s)) : Settled s := (List.pairwise_cons.1 h).2

theorem Settled.eq_replicate {s : List Nat} (h : Settled (0 :: s)) : s = List.replicate s.length 0 :=
  List.eq_replicate_of_mem fun n hn => (List.pairwise_cons.1 h).1 n hn rfl

theorem HasShape.unique : ∀ {s t : List Nat} {d : Data}, HasShape s d → HasShape t d → s.length = t.length →
    Settled s → Settled t → s = t
  | [], [], _, _, _, _, _, _ => rfl
  | m :: s, n :: t, d, ⟨items, hi, hm, hs⟩, ⟨items', hi', hn, ht⟩, hl, zs, zt => by
    obtain rfl : items = items' := Option.some.inj (hi.symm.trans hi')
    subst hm hn
    have hl' : s.length = t.length := by simpa using hl
    cases items with
    | nil => rw [zs.eq_replicate, zt.eq_replicate, hl']
    | cons x xs => rw [HasShape.unique (hs x (by simp)) (ht x (by simp)) hl' zs.tail zt.tail]

theorem grid_of_hasShape {d : Data} {k : Nat} {s : List Nat} (hl : s.length = k + 1) (hd : HasShape s d)
    (hs : Settled s) : d.grid (k + 1) = .ok ⟨s, leavesAt (k + 1) d⟩ := by
  obtain ⟨g', hw, _, _⟩ := walk_of_hasShape (g := {}) k (show s.length = 0 + k + 1 by omega) hd List.nil_prefix
    (Nat.le_refl 0)
  have hg : d.grid (k + 1) = .ok (g'.resize (k + 1)) := by
    rw [show 0 + k + 1 = k + 1 by omega] at hw
    simp [grid, hw, Except.map]
  obtain ⟨hl', hd', hleaves, hs'⟩ := grid_spec hg
  have he : (g'.resize (k + 1)).shape = s := hd'.unique hd (hl'.trans hl.symm) hs' hs
  rw [hg, ← he, ← hleaves]

/-! ## Cells -/

theorem foldl_mul (s : List Nat) (n : Nat) : s.foldl (· * ·) n = n * s.foldl (· * ·) 1 := by
  induction s generalizing n with
  | nil => simp
  | cons m s ih => rw [List.foldl_cons, List.foldl_cons, ih, ih (1 * m), Nat.one_mul, Nat.mul_assoc]

@[simp] theorem cells_nil : cells [] = 1 := rfl

@[simp] theorem cells_cons (n : Nat) (s : List Nat) : cells (n :: s) = n * cells s := by
  rw [cells, List.foldl_cons, foldl_mul, Nat.one_mul, cells]

theorem cells_append (s t : List Nat) : cells (s ++ t) = cells s * cells t := by
  induction s with
  | nil => simp
  | cons n s ih => rw [List.cons_append, cells_cons, ih, cells_cons, Nat.mul_assoc]

theorem cells_eq_zero_iff {s : List Nat} : cells s = 0 ↔ 0 ∈ s := by
  induction s with
  | nil => simp
  | cons n s ih => rw [cells_cons, Nat.mul_eq_zero, ih, List.mem_cons, eq_comm (a := n)]

theorem HasShape.length_leavesAt : ∀ {s : List Nat} {d : Data}, HasShape s d →
    (leavesAt s.length d).length = cells s
  | [], _, _ => rfl
  | n :: s, d, ⟨items, hi, hn, hx⟩ => by
    have hc : ∀ x ∈ items, (leavesAt s.length x).length = cells s := fun x h => (hx x h).length_leavesAt
    simp only [List.length_cons, leavesAt, hi, Option.getD_some, List.length_flatMap, cells_cons]
    rw [List.map_congr_left hc, ← hn, List.map_const', List.sum_replicate_nat]

/-! ## Putting lists together -/

theorem splitInto_flatten {α : Type} {length : Nat} : ∀ {pieces acc : List (List α)},
    (∀ p ∈ pieces, p.length = length) →
    splitInto length pieces.length pieces.flatten acc = acc.reverse ++ pieces
  | [], acc, _ => by simp [splitInto]
  | p :: pieces, acc, h => by
    have hp : p.length = length := h p (by simp)
    rw [List.length_cons, splitInto, List.flatten_cons, List.drop_left' hp, List.take_left' hp,
      splitInto_flatten fun q hq => h q (by simp [hq])]
    simp

/-- The leaves of a value, changed one by one, are put together to the value with these leaves. -/
theorem HasShape.nest_leavesAt (f : Data → Data) : ∀ {s : List Nat} {d : Data}, s ≠ [] → HasShape s d →
    nest s ((leavesAt s.length d).map f) = mapLeaves f s.length d
  | [], _, h, _ => absurd rfl h
  | [n], d, _, ⟨items, hi, _, _⟩ => by
    simp [nest, leavesAt, mapLeaves, hi, List.flatMap_singleton']
  | n :: m :: s, d, _, ⟨items, hi, hn, hx⟩ => by
    let pieces := items.map fun x => (leavesAt (m :: s).length x).map f
    have hp : ∀ p ∈ pieces, p.length = cells (m :: s) := by
      intro p hp
      obtain ⟨x, hxi, rfl⟩ := List.mem_map.1 hp
      rw [List.length_map, (hx x hxi).length_leavesAt]
    have hl : (leavesAt (n :: m :: s).length d).map f = pieces.flatten := by
      simp only [List.length_cons, leavesAt, hi, Option.getD_some, List.map_flatMap, pieces]
      rw [List.flatMap_def]
    have hlen : n = pieces.length := by simp [pieces, hn]
    rw [hl, hlen, nest, splitInto_flatten hp, List.reverse_nil, List.nil_append, List.map_map]
    simp only [List.length_cons, mapLeaves, hi, Option.getD_some]
    congr 1
    refine List.map_congr_left fun x hxi => ?_
    exact nest_leavesAt f (by simp) (hx x hxi)

/-! ## Grids -/

variable {d : Data} {k : Nat} {g : Grid}

theorem length_leaves (h : d.grid (k + 1) = .ok g) : g.leaves.length = cells g.shape := by
  obtain ⟨hl, hd, hx, _⟩ := grid_spec h
  rw [hx, ← hl, hd.length_leavesAt]

theorem nest_leaves (f : Data → Data) (h : d.grid (k + 1) = .ok g) :
    nest g.shape (g.leaves.map f) = mapLeaves f (k + 1) d := by
  obtain ⟨hl, hd, hx, _⟩ := grid_spec h
  have hne : g.shape ≠ [] := by
    intro he
    rw [he] at hl
    cases hl
  rw [hx, ← hl, hd.nest_leavesAt f hne]

theorem leavesAt_mapLeaves (f : Data → Data) : ∀ (k : Nat) (d : Data),
    leavesAt k (mapLeaves f k d) = (leavesAt k d).map f
  | 0, _ => rfl
  | k + 1, d => by
    simp only [leavesAt, mapLeaves, items?, Option.getD_some, List.flatMap_map, List.map_flatMap]
    rw [funext (leavesAt_mapLeaves f k)]

theorem HasShape.mapLeaves (f : Data → Data) : ∀ {s : List Nat} {d : Data}, HasShape s d →
    HasShape s (mapLeaves f s.length d)
  | [], _, _ => trivial
  | n :: s, d, ⟨items, hi, hn, hx⟩ => by
    refine ⟨items.map (Data.mapLeaves f s.length), ?_, by simpa using hn, ?_⟩
    · rw [List.length_cons, Data.mapLeaves, hi]
      rfl
    intro x hxm
    obtain ⟨y, hy, rfl⟩ := List.mem_map.1 hxm
    exact (hx y hy).mapLeaves f

/-- Changing the leaves of a grid keeps its shape. -/
theorem grid_mapLeaves (f : Data → Data) (h : d.grid (k + 1) = .ok g) :
    (mapLeaves f (k + 1) d).grid (k + 1) = .ok ⟨g.shape, g.leaves.map f⟩ := by
  obtain ⟨hl, hd, hx, hs⟩ := grid_spec h
  have hm := hd.mapLeaves f
  rw [hl] at hm
  rw [grid_of_hasShape hl hm hs, leavesAt_mapLeaves, hx]

/-! ## What lists pass on to their items -/

section

variable {P : Data → Prop} {q : Nat → Prop}

/-- A property of data that lists pass on to their items, and a property of their lengths. -/
def PassesOn (P : Data → Prop) (q : Nat → Prop) : Prop :=
  ∀ {d items}, d.items? = some items → P d → q items.length ∧ ∀ x ∈ items, P x

/-- The lengths of a grid have one property, and its leaves have another. -/
structure Consists (P : Data → Prop) (q : Nat → Prop) (g : Grid) : Prop where
  shape : ∀ n ∈ g.shape, q n
  leaves : ∀ x ∈ g.leaves, P x

theorem Consists.meet {g g' : Grid} {level n : Nat} (hg : Consists P q g) (hn : q n) (h : g.meet level n = .ok g') :
    Consists P q g' := by
  unfold Grid.meet at h
  split at h
  · cases h
    refine ⟨fun m hm => ?_, hg.leaves⟩
    rcases List.mem_append.1 hm with hm | hm
    · exact hg.shape m hm
    · rw [List.mem_singleton.1 hm]
      exact hn
  · split at h
    · cases h
      exact hg
    · cases h

theorem Consists.addLeaves {g : Grid} {items : List Data} (hg : Consists P q g) (hi : ∀ x ∈ items, P x) :
    Consists P q (g.addLeaves items) := by
  refine ⟨hg.shape, fun x hx => ?_⟩
  rcases List.mem_append.1 hx with hx | hx
  · exact hg.leaves x hx
  · exact hi x hx

theorem consists_walkAll {depth level : Nat} : ∀ {ds : List Data} {g g' : Grid},
    (∀ x ∈ ds, ∀ {g g'}, Consists P q g → x.walk depth level g = .ok g' → Consists P q g') →
    Consists P q g → walkAll depth level g ds = .ok g' → Consists P q g'
  | [], g, g', _, hg, h => by
    cases h
    exact hg
  | d :: ds, g, g', ih, hg, h => by
    obtain ⟨ihd, ihds⟩ := List.forall_mem_cons.1 ih
    unfold walkAll at h
    split at h
    · cases h
    · rename_i g₁ h₁
      exact consists_walkAll ihds (ihd hg h₁) h

theorem consists_walk {depth : Nat} (hP : PassesOn P q) : ∀ (n : Nat) {level : Nat} {d : Data} {g g' : Grid},
    d.height ≤ n → P d → Consists P q g → d.walk depth level g = .ok g' → Consists P q g'
  | 0, _, d, _, _, hn, _, _, h => absurd (height_pos_of_walk h) (by omega)
  | n + 1, level, d, g, g', hn, hd, hg, h => by
    cases hi : d.items? with
    | none =>
      rw [walk_of_none hi] at h
      cases h
    | some items =>
      rw [walk_of_items hi] at h
      obtain ⟨hq, hx⟩ := hP hi hd
      have hlt := heightAll_items hi
      cases hm : g.meet level items.length with
      | error e =>
        rw [hm] at h
        cases h
      | ok g₁ =>
        rw [hm] at h
        simp only [Except.bind] at h
        split at h
        · cases h
          exact (hg.meet hq hm).addLeaves hx
        · refine consists_walkAll (fun x hxi g g' hg hw => ?_) (hg.meet hq hm) h
          have hle := height_le_of_mem hxi
          exact consists_walk hP n (by omega) (hx x hxi) hg hw

/-- What lists pass on to their items holds of all lengths and leaves of a grid. -/
theorem consists_grid {d : Data} {depth : Nat} {g : Grid} (hP : PassesOn P q) (h0 : q 0) (hd : P d)
    (h : d.grid depth = .ok g) : Consists P q g := by
  unfold grid at h
  cases hw : d.walk depth 0 {} with
  | error e => simp [hw, Except.map] at h
  | ok g₁ =>
    simp only [hw, Except.map, Except.ok.injEq] at h
    subst h
    have hc : Consists P q {} := ⟨fun _ hn => (by cases hn), fun _ hx => by cases hx⟩
    have hg := consists_walk hP _ (Nat.le_refl _) hd hc hw
    refine ⟨fun n hn => ?_, hg.leaves⟩
    rcases List.mem_append.1 (List.mem_of_mem_take hn) with hn | hn
    · exact hg.shape n hn
    · rw [List.eq_of_mem_replicate hn]
      exact h0

end

end TagWire.Data
