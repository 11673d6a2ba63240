import TagWire.Proofs.Typing.Renewal

/-!
# Refinement by normal forms

Unknown elements that a value fills in are filled in alike by its normal form: the items that decide are the same ones,
and whatever they leave open beyond that are the elements of lists of numbers.
-/

namespace TagWire

/-! ## Leaves of normal forms -/

namespace Ty

theorem map_filterMap_eq_map {α : Type} {view : Data → Option α} {f : α → Data} {g : Data → Data} {xs : List Data}
    (h : ∀ x ∈ xs, (view x).map f = some (g x)) : (xs.filterMap view).map f = xs.map g := by
  rw [List.map_filterMap, List.filterMap_congr h, ← List.filterMap_eq_map]
  rfl

/-- The items of an array that was gathered are normal forms. -/
theorem items?_gather {e : Ty} {xs : List Data} {a : Data} (ha : e.gather? xs = some a) (h : ∀ x ∈ xs, e.Holds x) :
    a.items? = some (xs.map e.norm) := by
  match e, ha with
  | int, ha =>
    cases ha
    rw [Data.items?, NumArray.items, List.map_map]
    refine congrArg some (map_filterMap_eq_map fun x hx => ?_)
    obtain ⟨n, hn, hr⟩ := h x hx
    have he : (Int32.ofInt n).toInt64 = Int64.ofInt n := by
      rw [← Int64.toInt_inj, toInt_ofInt_of_item hr.1 hr.2, toInt_ofInt_of_int hr.1 hr.2]
    rw [norm, hn, Option.map_some, Option.map_some, Option.getD_some, Function.comp_apply, he]
  | word, ha =>
    cases ha
    rw [Data.items?, NumArray.items, List.map_map, List.map_map]
    refine congrArg some (map_filterMap_eq_map fun x hx => ?_)
    obtain ⟨n, hn, hr⟩ := h x hx
    have he : (UInt32.ofNat n.toNat).toUInt64 = UInt64.ofNat n.toNat := by
      have h₁ := toNat_ofNat_of_item hr.1 hr.2
      have h₂ := toNat_ofNat_of_word hr.1 hr.2
      rw [← UInt64.toNat_inj]
      omega
    rw [norm, hn, Option.map_some, Option.map_some, Option.getD_some, Function.comp_apply, Function.comp_apply, he]
  | value u, ha =>
    cases ha
    rw [items?_ofValues, List.map_map]
    refine congrArg some (map_filterMap_eq_map fun x hx => ?_)
    obtain ⟨y, l, hy, hu⟩ := h x hx
    rw [norm, hy, Option.map_some, Option.map_some, Option.getD_some, Function.comp_apply]
  | complex .dimensionless, ha | complex .unspecified, ha =>
    cases ha
    rw [Data.items?, NumArray.items, List.map_map]
    refine congrArg some (map_filterMap_eq_map fun x hx => ?_)
    obtain ⟨z, l, hz, hu⟩ := h x hx
    rw [norm, hz]
    rfl

theorem grid_norm_list {e : Ty} {d : Data} {depth : Nat} {g : Grid} (hm : 1 ≤ depth) (hg : d.grid depth = .ok g)
    (hx : ∀ x ∈ g.leaves, e.Holds x) :
    ((list (some e) depth).norm d).grid depth = .ok ⟨g.shape, g.leaves.map e.norm⟩ := by
  rcases norm_list e d depth with ⟨rfl, a, ha, hn⟩ | ⟨_, hn⟩
  · rw [← grid_leavesAt hm hg] at ha
    rw [hn, grid_gathered (items?_gather ha hx), List.length_map, shape_of_grid_one hg]
  · rw [hn, grid_norm hm hg]

end Ty

open Ty (Vaguer ElemVaguer AllVaguer Near NearElem NearAll)

/-! ## Refining -/

/-- What specializing does to a value of a type on the way to that type it does to the normal form of the value, too. -/
def Ty.Follows (t : Ty) : Prop := ∀ {d u u' v}, t.Holds d → t.Holds (t.norm d) → Near t u u' → specialize d u = .ok v →
  Vaguer v t → ∃ v', specialize (t.norm d) u' = .ok v' ∧ Near t v v'

def Ty.AllFollow (ts : List Ty) : Prop := ∀ {ds us us' vs}, AllHold ts ds → AllHold ts (normMembers ts ds) →
  NearAll ts us us' → specializeAll ds us = .ok vs → AllVaguer vs ts →
  ∃ vs', specializeAll (normMembers ts ds) us' = .ok vs' ∧ NearAll ts vs vs'

theorem exists_refine_norm {e : Ty} (he : e.Plain) (follows : e.Follows) : ∀ {xs : List Data} {a a' r : Option Ty},
    (∀ x ∈ xs, e.Holds x) → (∀ x ∈ xs, e.Holds (e.norm x)) → NearElem (some e) a a' → refine a xs = .ok r →
    ElemVaguer r (some e) → ∃ r', refine a' (xs.map e.norm) = .ok r' ∧ NearElem (some e) r r'
  | [], a, a', r, _, _, hn, h, _ => by
    rw [refine] at h
    cases h
    exact ⟨a', by rw [List.map_nil, refine], hn⟩
  | x :: xs, a, a', r, hx, hx', hn, h, hre => by
    obtain ⟨hx, hxs⟩ := List.forall_mem_cons.1 hx
    obtain ⟨hx', hxs'⟩ := List.forall_mem_cons.1 hx'
    obtain ⟨t, u, ht, hu, hr⟩ := refine_cons.1 h
    obtain ⟨w, hw, huw⟩ := refine_grows hr
    obtain ⟨_, ⟨⟩, hwe⟩ := hre w hw
    have hue : Vaguer u e := huw.trans hwe
    have hte : Vaguer t e := (Ty.specialize_fills hu).vaguer.trans hue
    -- the element type so far, or the type of the first item if there is none
    have hfirst : ∃ t', (a' = some t' ∨ a' = none ∧ (e.norm x).infer = .ok t') ∧ Near e t t' := by
      cases hn with
      | known hn =>
        rcases ht with ⟨⟨⟩⟩ | ⟨⟨⟩, _⟩
        exact ⟨_, .inl rfl, hn⟩
      | unknown =>
        rcases ht with ⟨⟨⟩⟩ | ⟨_, hi⟩
        obtain ⟨t', hi', hn⟩ := (Data.renews x).norm hi hte he hx
        exact ⟨t', .inr ⟨rfl, hi'⟩, hn⟩
      | number hn _ ha' =>
        obtain rfl := hte.eq_number hn
        refine ⟨t, ?_, .refl⟩
        cases a' with
        | none => exact .inr ⟨rfl, Ty.infer_norm_scalar (Ty.isScalar_of_number hn) hx⟩
        | some t' => exact .inl (congrArg some (ha' t' rfl))
    obtain ⟨t', ht', hnear⟩ := hfirst
    obtain ⟨u', hu', hnear'⟩ := follows hx hx' hnear hu hue
    obtain ⟨r', hr', hnr⟩ := exists_refine_norm he follows hxs hxs' (.known hnear') hr hre
    exact ⟨r', refine_cons.2 ⟨t', u', ht', hu', hr'⟩, hnr⟩

/-! ## Specializing -/

namespace Ty

variable {t u v : Ty}

theorem near_scalar (h : Near t u v) (ht : t.isScalar = true) : u = t ∧ v = t := by
  cases h with
  | refl => exact ⟨rfl, rfl⟩
  | _ => cases ht

theorem near_emptyList {depth : Nat} (h : Near (list .none depth) u v) :
    u = list .none depth ∧ v = list .none depth := by
  obtain ⟨a, b, rfl, rfl, ⟨⟩⟩ := near_list h
  exact ⟨rfl, rfl⟩

/-- Nothing is filled in where there is only one type to start from. -/
theorem follows_self (h : ∀ {u v}, Near t u v → u = t ∧ v = t) : t.Follows := by
  intro d u u' v hd hd' hn hs _
  obtain ⟨rfl, rfl⟩ := h hn
  cases (specialize_of_holds _ hd).symm.trans hs
  exact ⟨_, specialize_of_holds _ hd', .refl⟩

theorem follows_cluster {ts : List Ty} (follow : AllFollow ts) : (cluster ts).Follows := by
  intro d u u' v hd hd' hn hs hv
  obtain ⟨us, us', rfl, rfl, hns⟩ := near_cluster hn
  obtain ⟨ds, rfl, hds⟩ := hd
  rw [norm] at hd' ⊢
  obtain ⟨_, ⟨⟩, hds'⟩ := hd'
  obtain ⟨vs, hvs, rfl⟩ := (specialize_cluster (hds.length_eq.trans hns.length_eq.1.symm)).1 hs
  obtain ⟨_, ⟨⟩, hvts⟩ := vaguer_cluster hv
  obtain ⟨vs', hvs', hnvs⟩ := follow hds hds' hns hvs hvts
  exact ⟨_, (specialize_cluster (hds'.length_eq.trans hns.length_eq.2.symm)).2 ⟨vs', hvs', rfl⟩, .cluster hnvs⟩

theorem follows_list {e : Ty} {depth : Nat} (hm : 1 ≤ depth) (he : e.Plain) (follows : e.Follows) :
    (list (some e) depth).Follows := by
  intro d u u' v hd hd' hn hs hv
  obtain ⟨a, b, rfl, rfl, hne⟩ := near_list hn
  obtain ⟨g, r, hg, hr, rfl⟩ := exists_refine hd ((specialize_fills hs).vaguer.trans hv) hs
  obtain ⟨_, ⟨⟩, hre⟩ := vaguer_list hv
  have hx : ∀ x ∈ g.leaves, e.Holds x := by
    obtain ⟨_, hg', hx⟩ := hd
    cases hg.symm.trans hg'
    exact hx
  have hg' := grid_norm_list hm hg hx
  have hx' : ∀ x ∈ g.leaves, e.Holds (e.norm x) := by
    obtain ⟨_, hg'', hx'⟩ := hd'
    cases hg'.symm.trans hg''
    exact fun x hxg => hx' _ (List.mem_map_of_mem hxg)
  obtain ⟨r', hr', hnr⟩ := exists_refine_norm he follows hx hx' hne hr hre
  exact ⟨_, specialize_of_refine hd' hg' hr' hnr.right.list, .list hnr⟩

theorem follows_error {p : Ty} (follows : p.Follows) : (error (some p)).Follows := by
  intro d u u' v hd hd' hn hs hv
  obtain ⟨q, q', rfl, rfl, hnq⟩ := near_error hn
  obtain ⟨code, message, _ | x, rfl, hx⟩ := hd
  · -- an error without a payload says nothing about the type of payloads
    cases specialize_bareError.symm.trans hs
    exact ⟨_, specialize_bareError, hn⟩
  · obtain ⟨w, hw, rfl⟩ := specialize_payload.1 hs
    obtain ⟨_, ⟨⟩, hwp⟩ := vaguer_error hv
    rw [norm] at hd' ⊢
    obtain ⟨_, _, _, ⟨⟩, hx'⟩ := hd'
    obtain ⟨w', hw', hnw⟩ := follows (hx x rfl) (hx' _ rfl) hnq hw hwp
    exact ⟨_, specialize_payload.2 ⟨w', hw', rfl⟩, .payload hnw⟩

theorem allFollow_nil : AllFollow [] := by
  intro ds us us' vs hds hds' hns hs _
  cases hns
  match ds, hds with
  | [], _ =>
    rw [specializeAll] at hs
    · cases hs
      exact ⟨[], specializeAll_of_allConform [] (Ty.AllHold.allConform [] hds'), .nil⟩
    · simp

theorem allFollow_cons {ts : List Ty} (follows : t.Follows) (follow : AllFollow ts) : AllFollow (t :: ts) := by
  intro ds us us' vs hds hds' hns hs hv
  match ds, hds, hns with
  | d :: ds, ⟨hd, hds⟩, .cons hn hns =>
    obtain ⟨w, ws, hw, hws, rfl⟩ := specializeAll_cons.1 hs
    rw [normMembers] at hds' ⊢
    cases hv with
    | cons hv hvs =>
      obtain ⟨w', hw', hnw⟩ := follows hd hds'.1 hn hw hv
      obtain ⟨ws', hws', hnws⟩ := follow hds hds'.2 hns hws hvs
      exact ⟨w' :: ws', specializeAll_cons.2 ⟨w', ws', hw', hws', rfl⟩, .cons hnw hnws⟩

mutual

theorem follows : (t : Ty) → t.Plain → t.Follows
  | cluster ts, ht => follows_cluster (allFollow ts ht)
  | list (some e) _, ht => follows_list ht.1 ht.2 (follows e ht.2)
  | list .none _, _ => follows_self near_emptyList
  | error (some p), ht => follows_error (follows p ht)
  | none, _ | bool, _ | int, _ | word, _ | str, _ | time, _ | value _, _ | complex _, _ | error .none, _ =>
    follows_self fun hn => near_scalar hn rfl

theorem allFollow : (ts : List Ty) → AllPlain ts → AllFollow ts
  | [], _ => allFollow_nil
  | t :: ts, ht => allFollow_cons (follows t ht.1) (allFollow ts ht.2)

end

end Ty

end TagWire
