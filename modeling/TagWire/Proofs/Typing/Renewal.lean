import TagWire.Proofs.Typing.Nearness
import TagWire.Proofs.Wire.Normal

/-!
# Types of normal forms

A value and its normal form under a type that its own type grows into have near types of their own. Lists are compared
row by row, because the rows of a list count as its dimensions.
-/

namespace TagWire

/-! ## Scalars -/

namespace Ty

/-- The types of values without parts. -/
def isScalar : Ty → Bool
  | cluster _ | list _ _ | error (some _) => false
  | _ => true

variable {t u : Ty} {d : Data}

theorem Vaguer.eq_scalar (h : Vaguer u t) (hu : u.isScalar = true) : t = u := by
  cases h with
  | refl => rfl
  | bare hf => exact hf.elim
  | _ => cases hu

theorem isScalar_of_number (h : t.isNumber = true) : t.isScalar = true := by
  cases t <;> first | rfl | cases h

theorem infer_ofValue (x : Double) (l : String) : (Data.ofValue x l).infer = .ok (.value (.ofLabel l)) := by
  unfold Data.ofValue
  by_cases h : l = ""
  · rw [if_pos h, h]
    rfl
  · rw [if_neg h]
    rfl

theorem infer_ofComplex (z : Complex) (l : String) : (Data.ofComplex z l).infer = .ok (.complex (.ofLabel l)) := by
  unfold Data.ofComplex
  by_cases h : l = ""
  · rw [if_pos h, h]
    rfl
  · rw [if_neg h]
    rfl

theorem infer_norm_scalar (ht : t.isScalar = true) (hd : t.Holds d) : (t.norm d).infer = .ok t := by
  match t, hd with
  | none, hd =>
    rw [Holds] at hd
    subst hd
    rfl
  | bool, ⟨_, hd⟩ | time, ⟨_, hd⟩ =>
    subst hd
    rfl
  | int, ⟨n, hn, hr⟩ =>
    rw [norm, hn, Option.map_some, Option.getD_some, Data.infer, toInt_ofInt_of_int hr.1 hr.2, if_pos hr.2]
  | word, ⟨n, hn, hr⟩ =>
    rw [norm, hn]
    rfl
  | str, ⟨xs, hx⟩ =>
    rw [norm, hx]
    rfl
  | value u, ⟨x, l, hx, hu⟩ =>
    rw [norm, hx, Option.map_some, Option.getD_some, hu, UnitMark.label_ofLabel, infer_ofValue]
  | complex u, ⟨z, l, hz, hu⟩ =>
    rw [norm, hz, Option.map_some, Option.getD_some, hu, UnitMark.label_ofLabel, infer_ofComplex]
  | error .none, ⟨_, _, hd⟩ =>
    subst hd
    simp [norm, Data.infer]

/-! ## Lists -/

theorem listAround_of_lt {a : Option Ty} {depth : Nat} (h : depth < 9) : (list a depth).listAround = list a (depth + 1) :=
  if_pos h

theorem listAround_of_not_lt (h : ∀ a depth, t = list a depth → 9 ≤ depth) : t.listAround = list (some t) 1 := by
  unfold Ty.listAround
  split
  · exact if_neg (Nat.not_lt.2 (h _ _ rfl))
  · rfl

/-- A list of lists has one dimension more, as long as there is room for it. -/
theorem listAround_cases (t : Ty) : (∃ a depth, depth < 9 ∧ t = list a depth ∧ t.listAround = list a (depth + 1)) ∨
    (∀ a depth, t = list a depth → 9 ≤ depth) ∧ t.listAround = list (some t) 1 := by
  by_cases h : ∃ a depth, depth < 9 ∧ t = list a depth
  · obtain ⟨a, depth, hlt, rfl⟩ := h
    exact .inl ⟨a, depth, hlt, rfl, listAround_of_lt hlt⟩
  · have hn : ∀ a depth, t = list a depth → 9 ≤ depth := fun a depth ht =>
      Nat.le_of_not_lt fun hlt => h ⟨a, depth, hlt, ht⟩
    exact .inr ⟨hn, listAround_of_not_lt hn⟩

theorem isNumber_of_gather {e : Ty} {xs : List Data} {a : Data} (h : e.gather? xs = some a) : e.isNumber = true := by
  unfold gather? at h
  split at h <;> first | rfl | cases h

/-- An array knows what its items would be, even if it has none. -/
theorem infer_gather {e : Ty} {xs : List Data} {a : Data} (he : e.UnitsGiven) (h : e.gather? xs = some a) :
    a.infer = .ok (.list (some e) 1) := by
  match e, h with
  | int, h | word, h | complex .dimensionless, h =>
    cases h
    rfl
  | complex .unspecified, _ => exact absurd rfl he.1
  | value u, h =>
    cases h
    have hu : value u = value (.ofLabel u.label) := congrArg value (ofLabel_label he)
    rw [hu]
    generalize u.label = l
    unfold Data.ofValues
    by_cases hl : l = ""
    · rw [if_pos hl, hl]
      rfl
    · rw [if_neg hl]
      rfl

/-- The normal form of what lies below the dimensions of a list. -/
def normElem : Option Ty → Data → Data
  | some e => e.norm
  | .none => id

theorem holds_leaves {b : Option Ty} {depth : Nat} (hm : 1 ≤ depth) (h : (list b depth).Holds d) :
    ∀ y ∈ d.leavesAt depth, ∃ e ∈ b, e.Holds y := by
  intro y hy
  cases b with
  | none =>
    obtain ⟨g, hg, hl⟩ := h
    rw [← grid_leavesAt hm hg, hl] at hy
    cases hy
  | some e =>
    obtain ⟨g, hg, hx⟩ := h
    rw [← grid_leavesAt hm hg] at hy
    exact ⟨e, rfl, hx y hy⟩

end Ty

open Ty (Vaguer ElemVaguer AllVaguer Near NearElem NearAll normElem)

/-! ## Values and their normal forms -/

namespace Data

/-- The type that a value has on its own is found again, up to numbers, in normal forms of the value. -/
structure Renews (d : Data) : Prop where
  norm {u t : Ty} : d.infer = .ok u → Vaguer u t → t.Plain → t.Holds d → ∃ v, (t.norm d).infer = .ok v ∧ Near t u v
  /-- Rows of a list have their dimensions from the list. -/
  rows {a b : Option Ty} {depth : Nat} : d.infer = .ok (.list a depth) → ElemVaguer a b → (∀ e ∈ b, e.Plain) →
    (∀ y ∈ d.leavesAt depth, ∃ e ∈ b, e.Holds y) →
    ∃ a', (d.mapLeaves (normElem b) depth).infer = .ok (.list a' depth) ∧ NearElem b a a'

variable {d x : Data} {ds xs : List Data}

theorem renews_scalar {u : Ty} (h : d.infer = .ok u) (hu : u.isScalar = true) : d.Renews where
  norm h' hv _ hd := by
    cases h.symm.trans h'
    obtain rfl := hv.eq_scalar hu
    exact ⟨_, Ty.infer_norm_scalar hu hd, .refl⟩
  rows h' := by
    cases h.symm.trans h'
    cases hu

/-- A list is its rows, or they are numbers in an array. -/
theorem renews_list (hl : ∀ u, d.infer = .ok u → ∃ a depth, u = .list a depth)
    (hr : ∀ {a b depth}, d.infer = .ok (.list a depth) → ElemVaguer a b → (∀ e ∈ b, e.Plain) →
      (∀ y ∈ d.leavesAt depth, ∃ e ∈ b, e.Holds y) →
      ∃ a', (d.mapLeaves (normElem b) depth).infer = .ok (.list a' depth) ∧ NearElem b a a') : d.Renews where
  norm {u t} h hv ht hd := by
    obtain ⟨a, depth, rfl⟩ := hl u h
    obtain ⟨b, rfl, hab⟩ := Ty.vaguer_list hv
    cases b with
    | none =>
      obtain ⟨a', ha', hn⟩ := hr h hab (fun _ he => by cases he) (Ty.holds_leaves ht hd)
      exact ⟨_, by rw [Ty.norm]; exact ha', .list hn⟩
    | some e =>
      rcases Ty.norm_list e d depth with ⟨rfl, x, hx, hn⟩ | ⟨_, hn⟩
      · have he := Ty.isNumber_of_gather hx
        rw [hn, Ty.infer_gather (Ty.Plain.unitsGiven e ht.2) hx]
        refine ⟨_, rfl, .list (.number he (Ty.number_of_elemVaguer hab he) ?_)⟩
        rintro _ ⟨⟩
        rfl
      · obtain ⟨a', ha', hn'⟩ := hr h hab (by rintro _ ⟨⟩; exact ht.2) (Ty.holds_leaves ht.1 hd)
        exact ⟨_, by rw [hn]; exact ha', .list hn'⟩
  rows := hr

theorem renews_emptyList : (list []).Renews := by
  refine renews_list (fun u h => ?_) fun h _ _ _ => ?_
  · cases h
    exact ⟨_, _, rfl⟩
  · cases h
    exact ⟨Option.none, rfl, .unknown⟩

theorem infer_mapLeaves_cons (f : Data → Data) (depth : Nat) :
    ((list (x :: xs)).mapLeaves f (depth + 1)).infer = (x.mapLeaves f depth).infer >>= fun t => .ok t.listAround := rfl

/-- The first row of a list decides. -/
theorem renews_cons (hx : x.Renews) : (list (x :: xs)).Renews := by
  have first : ∀ depth, ∀ y ∈ x.leavesAt depth, y ∈ (list (x :: xs)).leavesAt (depth + 1) := fun _ y hy =>
    List.mem_append_left _ hy
  refine renews_list (fun u h => ?_) fun {a b depth} h hab hb hy => ?_
  · obtain ⟨s, _, rfl⟩ := infer_list.1 h
    rcases s.listAround_cases with ⟨a, depth, _, _, hs⟩ | ⟨_, hs⟩ <;> exact ⟨_, _, hs⟩
  obtain ⟨s, hs, hl⟩ := infer_list.1 h
  rcases s.listAround_cases with ⟨a', k, hk, rfl, hl'⟩ | ⟨hn, hl'⟩
  · -- the rows are lists, and have one dimension less
    cases hl.trans hl'
    obtain ⟨c, hc, hnear⟩ := hx.rows hs hab hb fun y hyx => hy y (first k y hyx)
    refine ⟨c, ?_, hnear⟩
    rw [infer_mapLeaves_cons, hc, ← Ty.listAround_of_lt hk]
    rfl
  · -- the rows are the elements
    cases hl.trans hl'
    obtain ⟨e, he, hse⟩ := hab s rfl
    cases he
    obtain ⟨_, ⟨⟩, hxe⟩ := hy x (first 0 x List.mem_cons_self)
    obtain ⟨v, hv, hnear⟩ := hx.norm hs hse (hb e rfl) hxe
    have hlv : v.listAround = .list (some v) 1 := by
      refine Ty.listAround_of_not_lt fun c k hvk => ?_
      subst hvk
      obtain ⟨c', rfl⟩ := Ty.near_list_right hnear
      exact hn c' k rfl
    refine ⟨some v, ?_, .known hnear⟩
    rw [infer_mapLeaves_cons, mapLeaves, ← hlv]
    show (e.norm x).infer >>= _ = _
    rw [hv]
    rfl

/-- The items of an array are numbers, but no list without items is. -/
theorem renews_items {e : Ty} (he : e.isNumber = true) (hi : d.items? = some xs) (h : d.infer = .ok (.list (some e) 1)) :
    d.Renews := by
  refine renews_list (fun u h' => ?_) fun {a b depth} h' hab hb hy => ?_
  · cases h.symm.trans h'
    exact ⟨_, _, rfl⟩
  cases h.symm.trans h'
  obtain ⟨e', he', hee⟩ := hab e rfl
  cases he'
  obtain rfl := hee.eq_scalar (Ty.isScalar_of_number he)
  have hl : d.leavesAt 1 = xs := Ty.leavesAt_one hi
  have hm : d.mapLeaves (normElem (some e')) 1 = list (xs.map e'.norm) := by
    rw [mapLeaves, hi]
    rfl
  rw [hm]
  cases xs with
  | nil =>
    -- this is where the kind of an empty array is lost
    exact ⟨Option.none, rfl, .number he (by rintro _ ⟨⟩; rfl) (by rintro _ ⟨⟩)⟩
  | cons y ys =>
    obtain ⟨_, ⟨⟩, hye⟩ := hy y (hl ▸ List.mem_cons_self)
    refine ⟨some e', ?_, .refl⟩
    rw [List.map_cons, infer, Ty.infer_norm_scalar (Ty.isScalar_of_number he) hye]
    refine congrArg Except.ok (Ty.listAround_of_not_lt ?_)
    rintro c k rfl
    cases he

theorem renews_payload {code : Int32} {message : String} (hx : x.Renews) : (error code message (some x)).Renews where
  norm {u t} h hv ht hd := by
    obtain ⟨s, hs, rfl⟩ := infer_payload.1 h
    obtain ⟨p, rfl, hsp⟩ := Ty.vaguer_error hv
    obtain ⟨_, _, _, ⟨⟩, hp⟩ := hd
    obtain ⟨v, hv, hn⟩ := hx.norm hs hsp ht (hp x rfl)
    rw [Ty.norm]
    exact ⟨_, infer_payload.2 ⟨v, hv, rfl⟩, .payload hn⟩
  rows h := by
    obtain ⟨_, _, ⟨⟩⟩ := infer_payload.1 h

theorem exists_inferAll_norm : ∀ {ds : List Data} {us ts : List Ty}, (∀ d ∈ ds, d.Renews) → inferAll ds = .ok us →
    AllVaguer us ts → Ty.AllPlain ts → Ty.AllHold ts ds →
    ∃ vs, inferAll (Ty.normMembers ts ds) = .ok vs ∧ NearAll ts us vs
  | [], us, ts, _, h, hv, _, hd => by
    cases h
    cases hv
    exact ⟨[], by simp [Ty.normMembers, inferAll], .nil⟩
  | d :: ds, us, ts, hr, h, hv, ht, hd => by
    obtain ⟨u, us, hu, hus, rfl⟩ := inferAll_cons.1 h
    obtain ⟨hr, hrs⟩ := List.forall_mem_cons.1 hr
    cases hv with
    | cons hv hvs =>
      obtain ⟨v, hv', hn⟩ := hr.norm hu hv ht.1 hd.1
      obtain ⟨vs, hvs', hns⟩ := exists_inferAll_norm hrs hus hvs ht.2 hd.2
      rw [Ty.normMembers]
      exact ⟨v :: vs, inferAll_cons.2 ⟨v, vs, hv', hvs', rfl⟩, .cons hn hns⟩

theorem renews_emptyTuple : (tuple []).Renews where
  norm h := by cases h
  rows h := by cases h

theorem renews_tuple (hr : ∀ y ∈ x :: xs, y.Renews) : (tuple (x :: xs)).Renews where
  norm {u t} h hv ht hd := by
    obtain ⟨us, hus, ha, rfl⟩ := infer_tuple.1 h
    obtain ⟨ts, rfl, hvs⟩ := Ty.vaguer_cluster hv
    obtain ⟨_, ⟨⟩, hds⟩ := hd
    obtain ⟨vs, hvs', hn⟩ := exists_inferAll_norm hr hus hvs ht hds
    have hnear : Near (.cluster ts) (.cluster us) (.cluster vs) := .cluster hn
    match ts, hds with
    | t :: ts, _ =>
      rw [Ty.norm]
      rw [Ty.normMembers] at hvs' ⊢
      exact ⟨.cluster vs, infer_tuple.2 ⟨vs, hvs', hnear.printsAmbiguously.trans ha, rfl⟩, hnear⟩
  rows h := by
    obtain ⟨_, _, _, ⟨⟩⟩ := infer_tuple.1 h

mutual

theorem renews : (d : Data) → d.Renews
  | list (x :: xs) => renews_cons (renews x)
  | list [] => renews_emptyList
  | tuple (x :: xs) => renews_tuple (allRenew (x :: xs))
  | tuple [] => renews_emptyTuple
  | error _ _ (some p) => renews_payload (renews p)
  | array a => by cases a <;> exact renews_items rfl rfl rfl
  | valueArray _ _ => renews_items rfl rfl rfl
  | int n => by
    refine renews_scalar rfl ?_
    split <;> rfl
  | none | bool _ | word _ | bytes _ | text _ | time _ | float _ | complex _ | value _ _ | complexValue _ _
  | error _ _ .none => renews_scalar rfl rfl

theorem allRenew : (ds : List Data) → ∀ d ∈ ds, d.Renews
  | [], _, h => by cases h
  | d :: ds, x, h => by
    rcases List.mem_cons.1 h with hx | h
    · exact hx ▸ renews d
    · exact allRenew ds x h

end

end Data

end TagWire
