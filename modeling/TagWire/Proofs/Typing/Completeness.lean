import TagWire.Proofs.Typing.Acceptance

/-!
# Written values are accepted

A value that is written under a type fits every hint that the type is an instance of. Its items may get types that
leave different things open, but all of them are below the one type, and such types have a join. What is still open in
the end the hint fills in: a hint that is the type itself gives the type back, and any other one gives a type of the
same shape.
-/

namespace TagWire

namespace Ty

/-! ## Below a type -/

theorem below_list {u e : Ty} {depth : Nat} (h : Below u (list (some e) depth)) :
    u = list .none depth ∨ ∃ a, u = list (some a) depth ∧ Below a e := by
  cases h with
  | refl => exact .inr ⟨e, rfl, .refl⟩
  | elem h => exact .inr ⟨_, rfl, h⟩
  | unknown _ _ => exact .inl rfl

theorem below_error {u p : Ty} (h : Below u (error (some p))) :
    u = error .none ∨ ∃ a, u = error (some a) ∧ Below a p := by
  cases h with
  | refl => exact .inr ⟨p, rfl, .refl⟩
  | payload h => exact .inr ⟨_, rfl, h⟩
  | bare _ => exact .inl rfl

mutual

/-- Two types below one have a join, and it is below the one. -/
theorem exists_unify : (t : Ty) → ∀ {a b}, Below a t → Below b t → ∃ c, a.unify b = some c ∧ Below c t
  | cluster ts, a, b, ha, hb => by
    obtain ⟨as, rfl, has⟩ := ha.eq_cluster
    obtain ⟨bs, rfl, hbs⟩ := hb.eq_cluster
    obtain ⟨cs, hu, hcs⟩ := exists_unifyAll ts has hbs
    exact ⟨cluster cs, by rw [unify, hu, Option.map_some], .cluster hcs⟩
  | list (some e) depth, a, b, ha, hb => by
    rcases below_list ha with rfl | ⟨a', rfl, ha'⟩
    · exact ⟨b, by rcases below_list hb with rfl | ⟨b', rfl, _⟩ <;> rw [unify, if_pos rfl], hb⟩
    · rcases below_list hb with rfl | ⟨b', rfl, hb'⟩
      · exact ⟨_, by rw [unify, if_pos rfl]; simp, ha⟩
      · obtain ⟨c, hu, hc⟩ := exists_unify e ha' hb'
        exact ⟨list (some c) depth, by rw [unify, if_pos rfl, hu, Option.map_some], .elem hc⟩
  | error (some p), a, b, ha, hb => by
    rcases below_error ha with rfl | ⟨a', rfl, ha'⟩
    · exact ⟨b, by rcases below_error hb with rfl | ⟨b', rfl, _⟩ <;> rw [unify], hb⟩
    · rcases below_error hb with rfl | ⟨b', rfl, hb'⟩
      · exact ⟨_, by rw [unify]; simp, ha⟩
      · obtain ⟨c, hu, hc⟩ := exists_unify p ha' hb'
        exact ⟨error (some c), by rw [unify, hu, Option.map_some], .payload hc⟩
  | list .none depth, a, b, ha, hb => by
    cases ha
    cases hb
    exact ⟨_, by rw [unify, if_pos rfl], .refl⟩
  | error .none, a, b, ha, hb => by
    cases ha
    cases hb
    exact ⟨_, by rw [unify], .refl⟩
  | none, a, b, ha, hb | bool, a, b, ha, hb | int, a, b, ha, hb | word, a, b, ha, hb | str, a, b, ha, hb
  | time, a, b, ha, hb | value _, a, b, ha, hb | complex _, a, b, ha, hb => by
    cases ha
    cases hb
    exact ⟨_, by simp [unify], .refl⟩

theorem exists_unifyAll : (ts : List Ty) → ∀ {as bs}, AllBelow as ts → AllBelow bs ts →
    ∃ cs, unifyAll as bs = some cs ∧ AllBelow cs ts
  | [], _, _, .nil, .nil => ⟨[], by rw [unifyAll], .nil⟩
  | t :: ts, _, _, .cons ha has, .cons hb hbs => by
    obtain ⟨c, hu, hc⟩ := exists_unify t ha hb
    obtain ⟨cs, hus, hcs⟩ := exists_unifyAll ts has hbs
    exact ⟨c :: cs, by rw [unifyAll, hu, hus], .cons hc hcs⟩

end

theorem exists_joinItems {fit : Data → Except FlattenError Ty} {e : Ty} : ∀ {ds : List Data} {a : Option Ty},
    (∀ x ∈ ds, ∃ u, fit x = .ok u ∧ Below u e) → (∀ u ∈ a, Below u e) →
    ∃ r, joinItems fit a ds = .ok r ∧ ∀ u ∈ r, Below u e
  | [], a, _, ha => ⟨a, by rw [joinItems], ha⟩
  | d :: ds, .none, hd, _ => by
    obtain ⟨⟨u, hu, hue⟩, hds⟩ := List.forall_mem_cons.1 hd
    have ha : ∀ v ∈ some u, Below v e := by
      rintro _ ⟨⟩
      exact hue
    obtain ⟨r, hr, hre⟩ := exists_joinItems hds ha
    exact ⟨r, joinItems_none.2 ⟨u, hu, hr⟩, hre⟩
  | d :: ds, some t, hd, ha => by
    obtain ⟨⟨u, hu, hue⟩, hds⟩ := List.forall_mem_cons.1 hd
    obtain ⟨v, hv, hve⟩ := exists_unify e (ha t rfl) hue
    have ha' : ∀ w ∈ some v, Below w e := by
      rintro _ ⟨⟩
      exact hve
    obtain ⟨r, hr, hre⟩ := exists_joinItems hds ha'
    exact ⟨r, joinItems_some.2 ⟨u, v, hu, hv, hr⟩, hre⟩

theorem below_listOf {r : Option Ty} {e : Ty} {depth : Nat} (h : ∀ u ∈ r, Below u e) :
    Below (list r depth) (list (some e) depth) := by
  cases r with
  | none => exact .unknown trivial .refl
  | some u => exact .elem (h u rfl)

end Ty

/-! ## Instances of a hint -/

namespace Hint

variable {v : Ty}

/-- Only the hint that is the type itself admits a type that has neither a unit nor parts. -/
theorem admits_scalar {t : Ty} (ht : t ∈ [Ty.none, .bool, .int, .word, .str, .time])
    (h : (ofTy v).admits t = true) : v = t := by
  simp only [List.mem_cons, List.not_mem_nil, or_false] at ht
  cases v with
  | list e _ => cases e <;> rcases ht with rfl | rfl | rfl | rfl | rfl | rfl <;> cases h
  | error p => cases p <;> rcases ht with rfl | rfl | rfl | rfl | rfl | rfl <;> cases h
  | _ => rcases ht with rfl | rfl | rfl | rfl | rfl | rfl <;> first | rfl | cases h

theorem admits_cluster {ts : List Ty} (h : (ofTy v).admits (.cluster ts) = true) :
    ∃ vs, v = .cluster vs ∧ admitsAll (ofTys vs) ts = true := by
  cases v with
  | cluster vs => exact ⟨vs, rfl, h⟩
  | list e _ => cases e <;> cases h
  | error p => cases p <;> cases h
  | _ => cases h

theorem admits_list {e : Ty} {depth : Nat} (h : (ofTy v).admits (.list (some e) depth) = true) :
    ∃ w, v = .list (some w) depth ∧ (ofTy w).admits e = true := by
  cases v with
  | list e _ =>
    cases e with
    | none => cases h
    | some w =>
      simp only [ofTy, admits, Bool.and_eq_true, decide_eq_true_eq] at h
      obtain ⟨rfl, h⟩ := h
      exact ⟨w, rfl, h⟩
  | error p => cases p <;> cases h
  | _ => cases h

theorem admits_emptyList {depth : Nat} (h : (ofTy v).admits (.list Option.none depth) = true) :
    v = .list Option.none depth := by
  cases v with
  | list e _ =>
    cases e with
    | none =>
      simp only [ofTy, admits, decide_eq_true_eq] at h
      rw [h]
    | some w => cases h
  | error p => cases p <;> cases h
  | _ => cases h

theorem admits_error {p : Ty} (h : (ofTy v).admits (.error (some p)) = true) :
    ∃ w, v = .error (some w) ∧ (ofTy w).admits p = true := by
  cases v with
  | list e _ => cases e <;> cases h
  | error p =>
    cases p with
    | none => cases h
    | some w => exact ⟨w, rfl, h⟩
  | _ => cases h

theorem admits_bareError (h : (ofTy v).admits (.error Option.none) = true) : v = .error Option.none := by
  cases v with
  | list e _ => cases e <;> cases h
  | error p =>
    cases p with
    | none => rfl
    | some w => cases h
  | _ => cases h

theorem admits_value {u : UnitMark} (h : (ofTy v).admits (.value u) = true) :
    ∃ w, v = .value w ∧ (w = .unspecified ∨ w = u) := by
  cases v with
  | value w => exact ⟨w, rfl, by simpa [ofTy, admits, covers] using h⟩
  | list e _ => cases e <;> cases h
  | error p => cases p <;> cases h
  | _ => cases h

theorem admits_complex {u : UnitMark} (h : (ofTy v).admits (.complex u) = true) :
    ∃ w, v = .complex w ∧ (w = .unspecified ∨ w = u) := by
  cases v with
  | complex w => exact ⟨w, rfl, by simpa [ofTy, admits, covers] using h⟩
  | list e _ => cases e <;> cases h
  | error p => cases p <;> cases h
  | _ => cases h

end Hint

theorem UnitMark.ofData_of_covers {units : Units} (hu : units.Reflexive) {w : UnitMark} {l : String}
    (h : w = .unspecified ∨ w = .ofLabel l) : w.ofData units l = .ok (.ofLabel l) := by
  unfold ofData
  by_cases hl : l = ""
  · subst hl
    rcases h with rfl | rfl <;> rfl
  · rw [if_neg hl]
    rcases h with rfl | rfl
    · rfl
    · simp only [ofLabel, if_neg hl, hu l, if_true]

namespace Hint

variable {units : Units}

mutual

/-- A value that a type holds fits the hints that the type is an instance of, and gets a type below it. -/
theorem fit_of_holds (hu : units.Reflexive) : (t : Ty) → ∀ {v d}, (ofTy v).admits t = true → t.Holds d →
    ∃ u, (ofTy v).fit units d = .ok u ∧ Ty.Below u t
  | .value m, v, d, hv, ⟨x, l, hx, hm⟩ => by
    obtain ⟨w, rfl, hw⟩ := admits_value hv
    rw [hm] at hw
    exact ⟨.value m, fit_value.2 ⟨x, l, m, hx, hm ▸ UnitMark.ofData_of_covers hu hw, rfl⟩, .refl⟩
  | .complex m, v, d, hv, ⟨z, l, hz, hm⟩ => by
    obtain ⟨w, rfl, hw⟩ := admits_complex hv
    rw [hm] at hw
    exact ⟨.complex m, fit_complex.2 ⟨z, l, m, hz, hm ▸ UnitMark.ofData_of_covers hu hw, rfl⟩, .refl⟩
  | .cluster ts, v, d, hv, ⟨ds, hd, hds⟩ => by
    obtain ⟨vs, rfl, hvs⟩ := admits_cluster hv
    obtain ⟨us, hl, hus, hb⟩ := fitAll_of_allHold hu ts hvs hds
    exact ⟨.cluster us, fit_cluster.2 ⟨ds, us, hd, hl, hus, rfl⟩, .cluster hb⟩
  | .list (some e) depth, v, d, hv, ⟨g, hg, hx⟩ => by
    obtain ⟨w, rfl, hw⟩ := admits_list hv
    obtain ⟨r, hr, hb⟩ := Ty.exists_joinItems (a := Option.none) (fun x hxg => fit_of_holds hu e hw (hx x hxg))
      (fun _ hn => by cases hn)
    exact ⟨.list r depth, fit_list.2 ⟨g, r, hg, hr, rfl⟩, Ty.below_listOf hb⟩
  | .list .none depth, v, d, hv, ⟨g, hg, hl⟩ => by
    obtain rfl := admits_emptyList hv
    exact ⟨_, fit_emptyList.2 ⟨g, hg, hl, rfl⟩, .refl⟩
  | .error (some p), v, d, hv, ⟨code, message, payload, hd, hp⟩ => by
    obtain ⟨w, rfl, hw⟩ := admits_error hv
    cases payload with
    | none => exact ⟨_, fit_error.2 ⟨code, message, .inl ⟨hd, rfl⟩⟩, .bare trivial⟩
    | some q =>
      obtain ⟨u, hq, hb⟩ := fit_of_holds hu p hw (hp q rfl)
      exact ⟨_, fit_error.2 ⟨code, message, .inr ⟨q, u, hd, hq, rfl⟩⟩, .payload hb⟩
  | .error .none, v, d, hv, ⟨code, message, hd⟩ => by
    obtain rfl := admits_bareError hv
    exact ⟨_, fit_bareError.2 ⟨code, message, hd, rfl⟩, .refl⟩
  | .none, v, d, hv, hd => by
    obtain rfl := admits_scalar (by simp) hv
    exact ⟨_, fit_none.2 ⟨hd, rfl⟩, .refl⟩
  | .bool, v, d, hv, hd => by
    obtain rfl := admits_scalar (by simp) hv
    exact ⟨_, fit_bool.2 ⟨hd, rfl⟩, .refl⟩
  | .int, v, d, hv, hd => by
    obtain rfl := admits_scalar (by simp) hv
    exact ⟨_, fit_int.2 ⟨hd, rfl⟩, .refl⟩
  | .word, v, d, hv, hd => by
    obtain rfl := admits_scalar (by simp) hv
    exact ⟨_, fit_word.2 ⟨hd, rfl⟩, .refl⟩
  | .str, v, d, hv, hd => by
    obtain rfl := admits_scalar (by simp) hv
    exact ⟨_, fit_str.2 ⟨hd, rfl⟩, .refl⟩
  | .time, v, d, hv, hd => by
    obtain rfl := admits_scalar (by simp) hv
    exact ⟨_, fit_time.2 ⟨hd, rfl⟩, .refl⟩

theorem fitAll_of_allHold (hu : units.Reflexive) : (ts : List Ty) → ∀ {vs ds}, admitsAll (ofTys vs) ts = true →
    Ty.AllHold ts ds → ∃ us, ds.length = (ofTys vs).length ∧ fitAll units (ofTys vs) ds = .ok us ∧ Ty.AllBelow us ts
  | [], [], [], _, _ => ⟨[], rfl, by simp [ofTys, fitAll], .nil⟩
  | t :: ts, v :: vs, d :: ds, hv, ⟨h, hs⟩ => by
    obtain ⟨hv, hvs⟩ := Bool.and_eq_true_iff.1 hv
    obtain ⟨u, hf, hb⟩ := fit_of_holds hu t hv h
    obtain ⟨us, hl, hfs, hbs⟩ := fitAll_of_allHold hu ts hvs hs
    exact ⟨u :: us, by rw [ofTys, List.length_cons, List.length_cons, hl], fitAll_cons.2 ⟨u, us, hf, hfs, rfl⟩,
      .cons hb hbs⟩

end

end Hint

/-! ## Types with all units -/

namespace Ty

mutual

/-- Every mark says what the unit is: none is left open, and a unit that is named has a name. -/
def UnitsGiven : Ty → Prop
  | value u | complex u => u ≠ .unspecified ∧ u ≠ .named ""
  | cluster ts => AllUnitsGiven ts
  | list (some e) _ => e.UnitsGiven
  | error (some p) => p.UnitsGiven
  | _ => True

def AllUnitsGiven : List Ty → Prop
  | [] => True
  | t :: ts => t.UnitsGiven ∧ AllUnitsGiven ts

end

theorem ofLabel_label {u : UnitMark} (h : u ≠ .unspecified ∧ u ≠ .named "") : u = .ofLabel u.label := by
  cases u with
  | unspecified => exact absurd rfl h.1
  | dimensionless => rfl
  | named l =>
    have hl : l ≠ "" := fun he => h.2 (by rw [he])
    exact (if_neg hl).symm

variable {order : ByteOrder}

mutual

theorem holds_of_emit : (t : Ty) → t.UnitsGiven → ∀ {d bs}, (t.emit order d).result = .ok bs → t.Holds d
  | none, _, d, bs, h => (emit_none.1 h).1
  | bool, _, d, bs, h => by
    obtain ⟨b, hd, _⟩ := emit_bool.1 h
    exact ⟨b, hd⟩
  | int, _, d, bs, h => by
    obtain ⟨n, hn, hr, _⟩ := emit_int.1 h
    exact ⟨n, hn, hr⟩
  | word, _, d, bs, h => by
    obtain ⟨n, hn, hr, _⟩ := emit_word.1 h
    exact ⟨n, hn, hr⟩
  | str, _, d, bs, h => by
    obtain ⟨xs, hx, _⟩ := emit_str.1 h
    exact ⟨xs, hx⟩
  | time, _, d, bs, h => by
    obtain ⟨i, hd, _⟩ := emit_time.1 h
    exact ⟨i, hd⟩
  | value u, hu, d, bs, h => by
    obtain ⟨x, hx, _⟩ := emit_value.1 h
    exact ⟨x, u.label, hx, ofLabel_label hu⟩
  | complex u, hu, d, bs, h => by
    obtain ⟨z, hz, _⟩ := emit_complex.1 h
    exact ⟨z, u.label, hz, ofLabel_label hu⟩
  | cluster ts, hu, d, bs, h => by
    obtain ⟨ds, hd, hl, hm⟩ := emit_cluster.1 h
    exact ⟨ds, hd, allHold_of_emitMembers ts hu hl hm⟩
  | list (some e) depth, hu, d, bs, h => by
    obtain ⟨g, parts, hg, _, hp, _⟩ := emit_list.1 h
    refine ⟨g, hg, fun x hxg => ?_⟩
    obtain ⟨i, hi, rfl⟩ := List.getElem_of_mem hxg
    exact holds_of_emit e hu (hp.get hi (hp.length_eq ▸ hi))
  | list .none depth, _, d, bs, h => by
    obtain ⟨g, hg, _, hl, _⟩ := emit_emptyList.1 h
    exact ⟨g, hg, hl⟩
  | error (some p), hu, d, bs, h => by
    obtain ⟨code, message, payload, tail, hd, _, _, ht⟩ := emit_error.1 h
    refine ⟨code, message, payload, hd, ?_⟩
    rintro q rfl
    obtain ⟨ys, hy, _⟩ := ht
    exact holds_of_emit p hu hy
  | error .none, _, d, bs, h => by
    obtain ⟨code, message, hd, _⟩ := emit_bareError.1 h
    exact ⟨code, message, hd⟩

theorem allHold_of_emitMembers : (ts : List Ty) → AllUnitsGiven ts → ∀ {ds bs}, ds.length = ts.length →
    (emitMembers order ts ds).result = .ok bs → AllHold ts ds
  | [], _, [], bs, _, _ => trivial
  | t :: ts, ⟨hu, hus⟩, d :: ds, bs, hl, h => by
    obtain ⟨xs, ys, hx, hy, _⟩ := emitMembers_cons.1 h
    exact ⟨holds_of_emit t hu hx, allHold_of_emitMembers ts hus (by simpa using hl) hy⟩

end

/-! ## What a hint fills in -/

mutual

/-- A hint that leaves no unit open describes just the type that it is. -/
theorem withoutData?_ofTy : (t : Ty) → t.UnitsGiven → (Hint.ofTy t).withoutData? = some t
  | value u, hu | complex u, hu => by
    cases u with
    | unspecified => exact absurd rfl hu.1
    | dimensionless => rfl
    | named l => rfl
  | cluster ts, hu => by rw [Hint.ofTy, Hint.withoutData?, withoutDatas?_ofTys ts hu, Option.map_some]
  | list (some e) depth, hu => by rw [Hint.ofTy, Hint.withoutData?, withoutData?_ofTy e hu]
  | error (some p), hu => by rw [Hint.ofTy, Hint.withoutData?, withoutData?_ofTy p hu, Option.map_some]
  | none, _ | bool, _ | int, _ | word, _ | str, _ | time, _ | list .none _, _ | error .none, _ => rfl

theorem withoutDatas?_ofTys : (ts : List Ty) → AllUnitsGiven ts → Hint.withoutDatas? (Hint.ofTys ts) = some ts
  | [], _ => rfl
  | t :: ts, ⟨hu, hus⟩ => by rw [Hint.ofTys, Hint.withoutDatas?, withoutData?_ofTy t hu, withoutDatas?_ofTys ts hus]

end

theorem length_ofTys (ts : List Ty) : (Hint.ofTys ts).length = ts.length := by
  induction ts with
  | nil => rfl
  | cons t ts ih => rw [Hint.ofTys, List.length_cons, List.length_cons, ih]

mutual

/-- A type below another is filled up to it by the other one as a hint. -/
theorem fillFrom_ofTy : (t : Ty) → t.UnitsGiven → ∀ {u}, Below u t → u.fillFrom (Hint.ofTy t) = t
  | cluster ts, ht, u, h => by
    obtain ⟨us, rfl, hs⟩ := h.eq_cluster
    rw [Hint.ofTy, fillFrom, if_pos (by rw [hs.length_eq, length_ofTys]), fillAllFrom_ofTys ts ht hs]
  | list (some e) depth, ht, u, h => by
    rcases below_list h with rfl | ⟨a, rfl, ha⟩
    · rw [Hint.ofTy, fillFrom, withoutData?_ofTy e ht]
    · rw [Hint.ofTy, fillFrom, fillFrom_ofTy e ht ha]
  | error (some p), ht, u, h => by
    rcases below_error h with rfl | ⟨a, rfl, ha⟩
    · rw [Hint.ofTy, fillFrom, withoutData?_ofTy p ht]
    · rw [Hint.ofTy, fillFrom, fillFrom_ofTy p ht ha]
  | none, _, u, h | bool, _, u, h | int, _, u, h | word, _, u, h | str, _, u, h | time, _, u, h | value _, _, u, h
  | complex _, _, u, h | list .none _, _, u, h | error .none, _, u, h => by
    cases h
    rfl

theorem fillAllFrom_ofTys : (ts : List Ty) → AllUnitsGiven ts → ∀ {us}, AllBelow us ts →
    fillAllFrom us (Hint.ofTys ts) = ts
  | [], _, _, .nil => rfl
  | t :: ts, ⟨ht, hts⟩, _, .cons h hs => by
    rw [Hint.ofTys, fillAllFrom, fillFrom_ofTy t ht h, fillAllFrom_ofTys ts hts hs]

end

/-! ## Types of one shape -/

mutual

/-- A type with all units taken away. -/
def unitless : Ty → Ty
  | value _ => value .unspecified
  | complex _ => complex .unspecified
  | cluster ts => cluster (allUnitless ts)
  | list (some e) depth => list (some e.unitless) depth
  | error (some p) => error (some p.unitless)
  | t => t

def allUnitless : List Ty → List Ty
  | [] => []
  | t :: ts => t.unitless :: allUnitless ts

end

theorem endsInBareError_unitless : (t : Ty) → t.unitless.endsInBareError = t.endsInBareError
  | list (some e) _ => endsInBareError_unitless e
  | error (some p) => endsInBareError_unitless p
  | none | bool | int | word | str | time | value _ | complex _ | cluster _ | list .none _ | error .none => rfl

theorem isEmpty_allUnitless (ts : List Ty) : (allUnitless ts).isEmpty = ts.isEmpty := by
  cases ts <;> rfl

mutual

theorem printsAmbiguously_unitless : (t : Ty) → t.unitless.printsAmbiguously = t.printsAmbiguously
  | cluster ts => membersPrintAmbiguously_allUnitless ts
  | list (some e) _ => printsAmbiguously_unitless e
  | error (some p) => printsAmbiguously_unitless p
  | none | bool | int | word | str | time | value _ | complex _ | list .none _ | error .none => rfl

theorem membersPrintAmbiguously_allUnitless : (ts : List Ty) →
    membersPrintAmbiguously (allUnitless ts) = membersPrintAmbiguously ts
  | [] => rfl
  | t :: ts => by
    rw [allUnitless, membersPrintAmbiguously, membersPrintAmbiguously, printsAmbiguously_unitless t,
      membersPrintAmbiguously_allUnitless ts, endsInBareError_unitless, isEmpty_allUnitless]

end

mutual

/-- What a hint describes without data is of the shape of its instances. -/
theorem withoutData?_of_admits : (t : Ty) → ∀ {v}, (Hint.ofTy v).admits t = true →
    ∃ u, (Hint.ofTy v).withoutData? = some u ∧ u.unitless = t.unitless
  | value m, v, hv => by
    obtain ⟨w, rfl, _⟩ := Hint.admits_value hv
    cases w <;> exact ⟨_, rfl, rfl⟩
  | complex m, v, hv => by
    obtain ⟨w, rfl, _⟩ := Hint.admits_complex hv
    cases w <;> exact ⟨_, rfl, rfl⟩
  | cluster ts, v, hv => by
    obtain ⟨vs, rfl, hvs⟩ := Hint.admits_cluster hv
    obtain ⟨us, hus, hs⟩ := withoutDatas?_of_admitsAll ts hvs
    exact ⟨cluster us, by rw [Hint.ofTy, Hint.withoutData?, hus, Option.map_some], by rw [unitless, unitless, hs]⟩
  | list (some e) depth, v, hv => by
    obtain ⟨w, rfl, hw⟩ := Hint.admits_list hv
    obtain ⟨u, hu, hs⟩ := withoutData?_of_admits e hw
    exact ⟨list (some u) depth, by rw [Hint.ofTy, Hint.withoutData?, hu], by rw [unitless, unitless, hs]⟩
  | error (some p), v, hv => by
    obtain ⟨w, rfl, hw⟩ := Hint.admits_error hv
    obtain ⟨u, hu, hs⟩ := withoutData?_of_admits p hw
    exact ⟨error (some u), by rw [Hint.ofTy, Hint.withoutData?, hu, Option.map_some], by rw [unitless, unitless, hs]⟩
  | list .none depth, v, hv => by
    obtain rfl := Hint.admits_emptyList hv
    exact ⟨_, rfl, rfl⟩
  | error .none, v, hv => by
    obtain rfl := Hint.admits_bareError hv
    exact ⟨_, rfl, rfl⟩
  | none, v, hv | bool, v, hv | int, v, hv | word, v, hv | str, v, hv | time, v, hv => by
    obtain rfl := Hint.admits_scalar (by simp) hv
    exact ⟨_, rfl, rfl⟩

theorem withoutDatas?_of_admitsAll : (ts : List Ty) → ∀ {vs}, Hint.admitsAll (Hint.ofTys vs) ts = true →
    ∃ us, Hint.withoutDatas? (Hint.ofTys vs) = some us ∧ allUnitless us = allUnitless ts
  | [], [], _ => ⟨[], rfl, rfl⟩
  | t :: ts, v :: vs, hv => by
    obtain ⟨hv, hvs⟩ := Bool.and_eq_true_iff.1 hv
    obtain ⟨u, hu, h⟩ := withoutData?_of_admits t hv
    obtain ⟨us, hus, hs⟩ := withoutDatas?_of_admitsAll ts hvs
    exact ⟨u :: us, by rw [Hint.ofTys, Hint.withoutDatas?, hu, hus], by rw [allUnitless, allUnitless, h, hs]⟩

end

mutual

/-- A type below an instance of a hint is filled by the hint to a type of the shape of the instance. -/
theorem unitless_fillFrom : (t : Ty) → ∀ {v u}, (Hint.ofTy v).admits t = true → Below u t →
    (u.fillFrom (Hint.ofTy v)).unitless = t.unitless
  | cluster ts, v, u, hv, h => by
    obtain ⟨vs, rfl, hvs⟩ := Hint.admits_cluster hv
    obtain ⟨us, rfl, hs⟩ := h.eq_cluster
    obtain ⟨hl, hf⟩ := allUnitless_fillAllFrom ts hvs hs
    rw [Hint.ofTy, fillFrom, if_pos hl, unitless, unitless, hf]
  | list (some e) depth, v, u, hv, h => by
    obtain ⟨w, rfl, hw⟩ := Hint.admits_list hv
    rcases below_list h with rfl | ⟨a, rfl, ha⟩
    · obtain ⟨b, hb, hs⟩ := withoutData?_of_admits e hw
      rw [Hint.ofTy, fillFrom, hb, unitless, unitless, hs]
    · rw [Hint.ofTy, fillFrom, unitless, unitless, unitless_fillFrom e hw ha]
  | error (some p), v, u, hv, h => by
    obtain ⟨w, rfl, hw⟩ := Hint.admits_error hv
    rcases below_error h with rfl | ⟨a, rfl, ha⟩
    · obtain ⟨b, hb, hs⟩ := withoutData?_of_admits p hw
      rw [Hint.ofTy, fillFrom, hb, unitless, unitless, hs]
    · rw [Hint.ofTy, fillFrom, unitless, unitless, unitless_fillFrom p hw ha]
  | list .none depth, v, u, hv, h => by
    obtain rfl := Hint.admits_emptyList hv
    cases h
    rfl
  | error .none, v, u, hv, h => by
    obtain rfl := Hint.admits_bareError hv
    cases h
    rfl
  | none, v, u, hv, h | bool, v, u, hv, h | int, v, u, hv, h | word, v, u, hv, h | str, v, u, hv, h
  | time, v, u, hv, h | value _, v, u, hv, h | complex _, v, u, hv, h => by
    cases h
    rfl

theorem allUnitless_fillAllFrom : (ts : List Ty) → ∀ {vs us}, Hint.admitsAll (Hint.ofTys vs) ts = true →
    AllBelow us ts → us.length = (Hint.ofTys vs).length ∧
      allUnitless (fillAllFrom us (Hint.ofTys vs)) = allUnitless ts
  | [], [], _, _, .nil => ⟨rfl, rfl⟩
  | t :: ts, v :: vs, _, hv, .cons h hs => by
    obtain ⟨hv, hvs⟩ := Bool.and_eq_true_iff.1 hv
    obtain ⟨hl, hf⟩ := allUnitless_fillAllFrom ts hvs hs
    refine ⟨by rw [Hint.ofTys, List.length_cons, List.length_cons, hl], ?_⟩
    rw [Hint.ofTys, fillAllFrom, allUnitless, allUnitless, unitless_fillFrom t hv h, hf]

end

end Ty

/-! ## Acceptance -/

namespace Hint

variable {units : Units} {t : Ty} {d : Data}

/-- A hint accepts what its instances hold. -/
theorem exists_accept (hu : units.Reflexive) (ht : t.Holds d) (ha : t.printsAmbiguously = false) {h : Hint}
    (hw : h.toTy?.isSome) (hh : h.admits t = true) : ∃ u, h.accept units d = .ok u := by
  obtain ⟨v, hv⟩ := Option.isSome_iff_exists.1 hw
  obtain rfl := Ty.ofTy_of_toTy? h hv
  obtain ⟨u, hf, hb⟩ := fit_of_holds hu t hh ht
  have hs := Ty.unitless_fillFrom t hh hb
  refine ⟨_, accept_eq_ok.2 ⟨u, hf, rfl, ?_⟩⟩
  rw [← Ty.printsAmbiguously_unitless, hs, Ty.printsAmbiguously_unitless, ha]

mutual

theorem admits_ofTy : (t : Ty) → (ofTy t).admits t = true
  | .cluster ts => admitsAll_ofTys ts
  | .list (some e) depth => by simp [ofTy, admits, admits_ofTy e]
  | .error (some p) => admits_ofTy p
  | .value u | .complex u => by simp [ofTy, admits, covers]
  | .list .none depth => by simp [ofTy, admits]
  | .none | .bool | .int | .word | .str | .time | .error .none => rfl

theorem admitsAll_ofTys : (ts : List Ty) → admitsAll (ofTys ts) ts = true
  | [] => rfl
  | t :: ts => by rw [ofTys, admitsAll, admits_ofTy t, admitsAll_ofTys ts, Bool.and_self]

end

theorem accept_ofTy (hu : units.Reflexive) (ht : t.Holds d) (ha : t.printsAmbiguously = false)
    (hg : t.UnitsGiven) : (ofTy t).accept units d = .ok t := by
  obtain ⟨u, hf, hb⟩ := fit_of_holds hu t (admits_ofTy t) ht
  exact accept_eq_ok.2 ⟨u, hf, (Ty.fillFrom_ofTy t hg hb).symm, ha⟩

end Hint

namespace Codec

/-- What can be written under a type is accepted under it as this type, and is accepted under every hint without
wildcards that the type is an instance of. -/
theorem resolve_of_flattenAs (c : Codec) {units : Units} {d : Data} {t : Ty} {bytes : List UInt8}
    (hu : units.Reflexive) (hg : t.UnitsGiven) (ha : t.printsAmbiguously = false) (h : c.flattenAs d t = .ok bytes) :
    TagWire.resolve units d [.ofTy t] = .ok t ∧
      ∀ h : Hint, h.toTy?.isSome → h.admits t = true → ∃ u, TagWire.resolve units d [h] = .ok u := by
  have ht := Ty.holds_of_emit t hg h
  exact ⟨Hint.accept_ofTy hu ht ha hg, fun h hw hh => Hint.exists_accept hu ht ha hw hh⟩

/-- The first tuple leaves open what lengths are in, and the second one what its error carries. -/
def halves : Data :=
  .list [.tuple [.list [], .error 3 "x" (some (.int 7))], .tuple [.list [.value default "m"], .error 4 "y" none]]

/-- The tag of this type is `*(*v[m]Ei)`. -/
def whole : Ty := .list (some (.cluster [.list (some (.value (.named "m"))) 1, .error (some .int)])) 1

theorem resolve_of_flattenAs_halves :
    Units.exact.Reflexive ∧ whole.UnitsGiven ∧ whole.printsAmbiguously = false ∧
    (∃ bytes, ({} : Codec).flattenAs halves whole = .ok bytes) ∧
    TagWire.resolve .exact halves [.ofTy whole] = .ok whole ∧
    ∃ u, TagWire.resolve .exact halves
      [.list (some (.cluster [.list (some (.value .unspecified)) 1, .error (some .int)])) 1] = .ok u := by
  have hg : whole.UnitsGiven := ⟨⟨by decide, by decide⟩, trivial, trivial⟩
  have hf : ∃ bytes, ({} : Codec).flattenAs halves whole = .ok bytes := ⟨_, rfl⟩
  obtain ⟨bytes, hb⟩ := hf
  obtain ⟨h₁, h₂⟩ := resolve_of_flattenAs {} Units.exact_reflexive hg rfl hb
  exact ⟨Units.exact_reflexive, hg, rfl, ⟨bytes, hb⟩, h₁, h₂ _ rfl rfl⟩

end Codec

end TagWire
