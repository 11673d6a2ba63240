import TagWire.Proofs.Typing.Completeness
import TagWire.Proofs.Wire.Normal

/-!
# Least upper bounds

The join of two types is the least type above both. So the type that the items of a list are joined to is the least one
above the types of all items. Which one that is does not depend on the order of the items, and neither does whether
there is one.
-/

namespace TagWire

namespace Ty

section

variable {start start' : Ty → Prop} {payloads payloads' : Prop}

mutual

theorem Fills.antisymm {a b : Ty} (h : Fills start payloads a b) (h' : Fills start' payloads' b a) : a = b := by
  match h, h' with
  | .refl, _ => rfl
  | _, .refl => rfl
  | .cluster hs, .cluster hs' => rw [hs.antisymm hs']
  | .elem h, .elem h' => rw [h.antisymm h']
  | .payload h, .payload h' => rw [h.antisymm h']

theorem FillsAll.antisymm {as bs : List Ty} (h : FillsAll start payloads as bs) (h' : FillsAll start' payloads' bs as) :
    as = bs := by
  match h, h' with
  | .nil, .nil => rfl
  | .cons h hs, .cons h' hs' => rw [h.antisymm h', hs.antisymm hs']

end

end

/-! ## The join of two types -/

section

variable {a b c u : Ty}

theorem below_of_unify (h : a.unify b = some c) : Below a c ∧ Below b c :=
  ⟨(unify_joins h).left, (unify_joins h).symm.left⟩

theorem unify_below (h : a.unify b = some c) (ha : Below a u) (hb : Below b u) : Below c u := by
  obtain ⟨c', hc', hcu⟩ := exists_unify u ha hb
  cases h.symm.trans hc'
  exact hcu

theorem exists_unify_iff : (∃ c, a.unify b = some c) ↔ ∃ u, Below a u ∧ Below b u := by
  constructor
  · rintro ⟨c, hc⟩
    exact ⟨c, below_of_unify hc⟩
  · rintro ⟨u, ha, hb⟩
    obtain ⟨c, hc, -⟩ := exists_unify u ha hb
    exact ⟨c, hc⟩

/-- The join is the least type above both. -/
theorem unify_eq_some_iff : a.unify b = some c ↔ (Below a c ∧ Below b c) ∧ ∀ u, Below a u → Below b u → Below c u := by
  constructor
  · intro h
    exact ⟨below_of_unify h, fun u => unify_below h⟩
  · rintro ⟨⟨ha, hb⟩, hl⟩
    obtain ⟨c', hc', hc⟩ := exists_unify c ha hb
    -- the join that there is and the least type are below each other
    obtain ⟨ha', hb'⟩ := below_of_unify hc'
    rwa [hc.antisymm (hl c' ha' hb')] at hc'

theorem unify_comm : a.unify b = b.unify a := by
  refine Option.ext fun c => ?_
  rw [unify_eq_some_iff, unify_eq_some_iff, and_comm (a := Below a c)]
  simp only [imp.swap (a := Below a _)]

theorem unify_self : a.unify a = some a :=
  unify_eq_some_iff.2 ⟨⟨.refl, .refl⟩, fun _ h _ => h⟩

end

/-- Two types have a join if any type is above both, and then it is the least such type. -/
theorem unify_least_upper_bound (a b : Ty) :
    ((∃ c, a.unify b = some c) ↔ ∃ u, Below a u ∧ Below b u) ∧
    (∀ c, a.unify b = some c → (Below a c ∧ Below b c) ∧ ∀ u, Below a u → Below b u → Below c u) :=
  ⟨exists_unify_iff, fun _ => unify_eq_some_iff.1⟩

/-- Each of the two types leaves open what the other one decides. Their join `(*v[m]*2_Ei)` still has unknown elements,
and so it is below `(*v[m]*2bEi)`. -/
theorem unify_least_upper_bound_halves :
    let a : Ty := .cluster [.list .none 1, .list .none 2, .error (some .int)]
    let b : Ty := .cluster [.list (some (.value (.named "m"))) 1, .list .none 2, .error .none]
    let c : Ty := .cluster [.list (some (.value (.named "m"))) 1, .list .none 2, .error (some .int)]
    let u : Ty := .cluster [.list (some (.value (.named "m"))) 1, .list (some .bool) 2, .error (some .int)]
    (∃ u, Below a u ∧ Below b u) ∧ a.unify b = some c ∧ (Below a c ∧ Below b c) ∧ Below a u ∧ Below b u ∧ Below c u := by
  intro a b c u
  have hc : a.unify b = some c := rfl
  have ha : Below a u :=
    .cluster (.cons (.unknown trivial .refl) (.cons (.unknown trivial .refl) (.cons .refl .nil)))
  have hb : Below b u := .cluster (.cons .refl (.cons (.unknown trivial .refl) (.cons (.bare trivial) .nil)))
  obtain ⟨hiff, hleast⟩ := unify_least_upper_bound a b
  exact ⟨hiff.1 ⟨c, hc⟩, hc, (hleast c hc).1, ha, hb, (hleast c hc).2 u ha hb⟩

/-! ## The common type of items -/

/-- A type is above the types of some items. -/
def Bounds (fit : Data → Except FlattenError Ty) (ds : List Data) (t : Ty) : Prop :=
  ∀ d ∈ ds, ∃ u, fit d = .ok u ∧ Below u t

variable {fit : Data → Except FlattenError Ty} {ds : List Data} {t : Ty}

/-- Items have a common type unless there are none of them, and it is the least type above theirs. -/
theorem joinItems_eq_some_iff : joinItems fit .none ds = .ok (some t) ↔
    ds ≠ [] ∧ Bounds fit ds t ∧ ∀ v, Bounds fit ds v → Below t v := by
  have bounds : ∀ {r}, joinItems fit .none ds = .ok r → ∀ d ∈ ds, ∃ u, fit d = .ok u ∧ ∃ v ∈ r, Below u v :=
    fun h => (joinItems_below h).2
  have least : ∀ {v}, Bounds fit ds v → ∃ r, joinItems fit .none ds = .ok r ∧ ∀ u ∈ r, Below u v :=
    fun hv => exists_joinItems (a := .none) hv fun _ hn => by cases hn
  constructor
  · intro h
    refine ⟨?_, fun d hd => ?_, fun v hv => ?_⟩
    · rintro rfl
      rw [joinItems] at h
      cases h
    · obtain ⟨u, hu, _, ⟨⟩, hut⟩ := bounds h d hd
      exact ⟨u, hu, hut⟩
    · obtain ⟨r, hr, hrv⟩ := least hv
      cases h.symm.trans hr
      exact hrv t rfl
  · rintro ⟨hne, ht, hl⟩
    obtain ⟨r, hr, hrt⟩ := least ht
    obtain ⟨d, hd⟩ := List.exists_mem_of_ne_nil ds hne
    obtain ⟨_, _, w, rfl, _⟩ := bounds hr d hd
    -- the common type that there is and the least one are below each other
    have hw : Bounds fit ds w := by
      intro x hx
      obtain ⟨u, hu, _, ⟨⟩, huw⟩ := bounds hr x hx
      exact ⟨u, hu, huw⟩
    rwa [(hrt w rfl).antisymm (hl w hw)] at hr

theorem joinItems_eq_none_iff : joinItems fit .none ds = .ok .none ↔ ds = [] := by
  constructor
  · intro h
    refine List.eq_nil_iff_forall_not_mem.2 fun d hd => ?_
    obtain ⟨_, _, _, hn, _⟩ := (joinItems_below h).2 d hd
    cases hn
  · rintro rfl
    rw [joinItems]

theorem joinItems_congr {ds' : List Data} (h : ∀ d, d ∈ ds ↔ d ∈ ds') {r : Option Ty} :
    joinItems fit .none ds = .ok r ↔ joinItems fit .none ds' = .ok r := by
  have hnil : ds = [] ↔ ds' = [] := by simp only [List.eq_nil_iff_forall_not_mem, h]
  have hbounds : ∀ v, Bounds fit ds v ↔ Bounds fit ds' v := fun v => forall_congr' fun d => by rw [h d]
  cases r with
  | none => rw [joinItems_eq_none_iff, joinItems_eq_none_iff, hnil]
  | some t => simp only [joinItems_eq_some_iff, hbounds, ne_eq, hnil]

end Ty

namespace Hint

variable {units : Units} {xs ys : List Data} {h : Hint} {t : Ty}

theorem fit_listOf : (list (some h) 1).fit units (.list xs) = .ok t ↔
    ∃ e, joinItems (h.fit units) Option.none xs = .ok e ∧ t = .list e 1 := by
  have hg : (Data.list xs).grid 1 = .ok ⟨[xs.length], xs⟩ := Ty.grid_gathered rfl
  rw [fit_list]
  constructor
  · rintro ⟨g, e, hg', he, rfl⟩
    cases hg.symm.trans hg'
    exact ⟨e, he, rfl⟩
  · rintro ⟨e, he, rfl⟩
    exact ⟨_, e, hg, he, rfl⟩

end Hint

/-- What a list is accepted as under a hint for its items does not depend on the order of the items. -/
theorem resolve_list_perm {units : Units} {xs ys : List Data} {h : Hint} {t : Ty} (hp : xs.Perm ys) :
    resolve units (.list xs) [.list (some h) 1] = .ok t ↔ resolve units (.list ys) [.list (some h) 1] = .ok t := by
  have hj : ∀ r, joinItems (h.fit units) none xs = .ok r ↔ joinItems (h.fit units) none ys = .ok r :=
    fun r => Ty.joinItems_congr fun d => hp.mem_iff
  have hf : ∀ u, (Hint.list (some h) 1).fit units (.list xs) = .ok u ↔
      (Hint.list (some h) 1).fit units (.list ys) = .ok u := by
    intro u
    simp only [Hint.fit_listOf, hj]
  simp only [resolve, Hint.accept_eq_ok, hf]

/-- One tuple leaves open what lengths are in, and the other one what its error carries. The tag of the type is
`*(*v[m]Ei)`, and that of the hint `*(*?E?)`. -/
theorem resolve_list_perm_halves :
    let x : Data := .tuple [.list [], .error 3 "x" (some (.int 7))]
    let y : Data := .tuple [.list [.value default "m"], .error 4 "y" none]
    let h : Hint := .cluster [.list (some .wildcard) 1, .error (some .wildcard)]
    let t : Ty := .list (some (.cluster [.list (some (.value (.named "m"))) 1, .error (some .int)])) 1
    [x, y].Perm [y, x] ∧ resolve .exact (.list [x, y]) [.list (some h) 1] = .ok t ∧
      resolve .exact (.list [y, x]) [.list (some h) 1] = .ok t := by
  intro x y h t
  have hp : [x, y].Perm [y, x] := .swap y x []
  have hr : resolve .exact (.list [x, y]) [.list (some h) 1] = .ok t := rfl
  exact ⟨hp, hr, (resolve_list_perm hp).1 hr⟩

end TagWire
