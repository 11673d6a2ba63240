import TagWire.Proofs.Wire.Resolved

/-!
# Vaguer types

A type is vaguer than another one if it is that type with some elements of lists unknown. Filling in unknown elements
makes a type less vague, and a type that is vaguer than one that holds a value holds it too once it is filled in.
-/

namespace TagWire

namespace Ty

/-- The first type is the second one with some elements of lists unknown. -/
abbrev Vaguer : Ty → Ty → Prop := Fills (fun _ => True) False

abbrev AllVaguer : List Ty → List Ty → Prop := FillsAll (fun _ => True) False

section

variable {start start' : Ty → Prop} {payloads payloads' : Prop}

mutual

theorem Fills.mono {a b : Ty} (h : Fills start payloads a b) (hs : ∀ t, start t → start' t) (hp : payloads → payloads') :
    Fills start' payloads' a b := by
  match h with
  | .refl => exact .refl
  | .cluster h => exact .cluster (h.mono hs hp)
  | .elem h => exact .elem (h.mono hs hp)
  | .unknown ha h => exact .unknown (hs _ ha) (h.mono hs hp)
  | .payload h => exact .payload (h.mono hs hp)
  | .bare h => exact .bare (hp h)

theorem FillsAll.mono {as bs : List Ty} (h : FillsAll start payloads as bs) (hs : ∀ t, start t → start' t)
    (hp : payloads → payloads') : FillsAll start' payloads' as bs := by
  match h with
  | .nil => exact .nil
  | .cons h h' => exact .cons (h.mono hs hp) (h'.mono hs hp)

end

mutual

theorem Fills.eq_of_concrete {a b : Ty} (h : Fills start False a b) (ha : a.isConcrete = true) : a = b := by
  match h with
  | .refl => rfl
  | .cluster h => rw [h.eq_of_concrete ha]
  | .elem h => rw [h.eq_of_concrete ha]
  | .unknown _ _ => cases ha
  | .payload h => rw [h.eq_of_concrete ha]
  | .bare hf => exact hf.elim

theorem FillsAll.eq_of_concrete {as bs : List Ty} (h : FillsAll start False as bs) (ha : areConcrete as = true) :
    as = bs := by
  match h with
  | .nil => rfl
  | .cons h h' =>
    rw [areConcrete, Bool.and_eq_true] at ha
    rw [h.eq_of_concrete ha.1, h'.eq_of_concrete ha.2]

end

end

variable {t u v : Ty} {d : Data}

theorem Fills.vaguer (h : Fills Inferred False u v) : Vaguer u v := h.mono (fun _ _ => trivial) id

theorem Vaguer.below (h : Vaguer u v) : Below u v := h.mono (fun _ _ => trivial) False.elim

theorem concrete_of_knowsElement {elem : Option Ty} {depth : Nat} (h : knowsElement elem = true) :
    (list elem depth).isConcrete = true := by
  cases elem with
  | none => cases h
  | some e => exact h

theorem vaguer_cluster {us : List Ty} (h : Vaguer (cluster us) t) : ∃ ts, t = cluster ts ∧ AllVaguer us ts := by
  cases h with
  | refl => exact ⟨us, rfl, .refl us⟩
  | cluster hs => exact ⟨_, rfl, hs⟩

/-- What an element type may be filled in with. -/
def ElemVaguer (a b : Option Ty) : Prop := ∀ x ∈ a, ∃ y ∈ b, Vaguer x y

theorem vaguer_list {a : Option Ty} {depth : Nat} (h : Vaguer (list a depth) t) :
    ∃ b, t = list b depth ∧ ElemVaguer a b := by
  cases h with
  | refl => exact ⟨a, rfl, fun x hx => ⟨x, hx, .refl⟩⟩
  | elem h =>
    refine ⟨_, rfl, ?_⟩
    rintro _ ⟨⟩
    exact ⟨_, rfl, h⟩
  | unknown _ _ => exact ⟨_, rfl, fun _ hx => by cases hx⟩

theorem ElemVaguer.list {a b : Option Ty} {depth : Nat} (h : ElemVaguer a b) : Vaguer (list a depth) (list b depth) := by
  cases a with
  | none =>
    cases b with
    | none => exact .refl
    | some y => exact .unknown trivial .refl
  | some x =>
    obtain ⟨y, hy, hxy⟩ := h x rfl
    cases hy
    exact .elem hxy

theorem vaguer_error {p : Ty} (h : Vaguer (error (some p)) t) : ∃ q, t = error (some q) ∧ Vaguer p q := by
  cases h with
  | refl => exact ⟨p, rfl, .refl⟩
  | payload h => exact ⟨_, rfl, h⟩

/-! ## Values of vaguer types -/

mutual

/-- A type that is vaguer than one that holds a value holds it as long as what is unknown stands for nothing. -/
theorem Fills.holds_of_faces {d : Data} {u t : Ty} (h : Vaguer u t) (hd : t.Holds d)
    (hf : ∀ depth x, Faces u d (list .none depth) x → (list .none depth).conforms x = true) : u.Holds d := by
  match h with
  | .refl => exact hd
  | .cluster hs =>
    obtain ⟨ds, rfl, hds⟩ := hd
    have hl : ds.length = _ := hds.length_eq.trans hs.length_eq.symm
    exact ⟨ds, rfl, hs.allHold_of_faces hds fun w y hm depth x hx => hf depth x (.member hl hm hx)⟩
  | .elem h =>
    obtain ⟨g, hg, hx⟩ := hd
    exact ⟨g, hg, fun y hy => h.holds_of_faces (hx y hy) fun depth x hfx => hf depth x (.leaf hg hy hfx)⟩
  | .unknown _ _ =>
    -- what is unknown faces the value itself
    exact conforms_emptyList.1 (hf _ _ .self)
  | .payload h =>
    obtain ⟨code, message, payload, rfl, hp⟩ := hd
    refine ⟨code, message, payload, rfl, ?_⟩
    rintro q rfl
    exact h.holds_of_faces (hp q rfl) fun depth x hfx => hf depth x (.payload hfx)

theorem FillsAll.allHold_of_faces {ds : List Data} {us ts : List Ty} (h : AllVaguer us ts) (hd : AllHold ts ds)
    (hf : ∀ u y, (u, y) ∈ us.zip ds → ∀ depth x, Faces u y (list .none depth) x → (list .none depth).conforms x = true) :
    AllHold us ds := by
  match h, ds with
  | .nil, _ => exact hd
  | .cons h hs, d :: ds =>
    exact ⟨h.holds_of_faces hd.1 (hf _ _ (.head _)), hs.allHold_of_faces hd.2 fun u y hm => hf u y (.tail _ hm)⟩
  | .cons _ _, [] => exact hd.elim

end

/-- What is filled in from a value holds it if it does not go beyond a type that does. -/
theorem holds_of_specialize (h : specialize d u = .ok v) (hv : Vaguer v t) (hd : t.Holds d) : v.Holds d :=
  hv.holds_of_faces hd fun _ _ hf => specialize_faces hf h

end Ty

/-! ## Refinement towards a type -/

theorem refine_grows {t : Ty} {ds : List Data} {r : Option Ty} (h : refine (some t) ds = .ok r) :
    ∃ b, r = some b ∧ Ty.Vaguer t b := by
  have hf := Ty.specialize_fills_all.2.1 (some t) ds r h 1
  cases hf with
  | refl => exact ⟨t, rfl, .refl⟩
  | elem hf => exact ⟨_, rfl, hf.vaguer⟩

theorem refine_cons {elem r : Option Ty} {d : Data} {ds : List Data} : refine elem (d :: ds) = .ok r ↔
    ∃ t u, (elem = some t ∨ elem = none ∧ d.infer = .ok t) ∧ specialize d t = .ok u ∧ refine (some u) ds = .ok r := by
  cases elem with
  | none =>
    rw [refine_none]
    constructor
    · rintro ⟨t, u, hi, hu, hr⟩
      exact ⟨t, u, .inr ⟨rfl, hi⟩, hu, hr⟩
    · rintro ⟨t, u, ⟨⟨⟩⟩ | ⟨_, hi⟩, hu, hr⟩
      exact ⟨t, u, hi, hu, hr⟩
  | some t =>
    rw [refine_some]
    constructor
    · rintro ⟨u, hu, hr⟩
      exact ⟨t, u, .inl rfl, hu, hr⟩
    · rintro ⟨_, u, ⟨⟨⟩⟩ | ⟨⟨⟩, _⟩, hu, hr⟩
      exact ⟨u, hu, hr⟩

theorem refine_holds {e b : Ty} (hb : Ty.Vaguer b e) : ∀ {xs : List Data} {a : Option Ty}, (∀ x ∈ xs, e.Holds x) →
    refine a xs = .ok (some b) → ∀ x ∈ xs, b.Holds x
  | [], _, _, _ => by simp
  | x :: xs, a, hx, h => by
    obtain ⟨hx, hxs⟩ := List.forall_mem_cons.1 hx
    obtain ⟨t, u, _, hu, hr⟩ := refine_cons.1 h
    -- the items behind it only fill in what the first one has left open
    obtain ⟨_, ⟨⟩, hub⟩ := refine_grows hr
    have hux := Ty.holds_of_specialize hu (hub.trans hb) hx
    exact List.forall_mem_cons.2 ⟨hub.below.holds hux, refine_holds hb hxs hr⟩

section

variable {d : Data} {elem : Option Ty} {e : Ty} {depth : Nat}

/-- A list that is specialized towards a type that holds it has its element type refined, even if it leaves nothing
open. -/
theorem exists_refine {v : Ty} (hd : (Ty.list (some e) depth).Holds d)
    (hu : Ty.Vaguer (.list elem depth) (.list (some e) depth)) (h : specialize d (.list elem depth) = .ok v) :
    ∃ g r, d.grid depth = .ok g ∧ refine elem g.leaves = .ok r ∧ v = .list r depth := by
  by_cases hk : Ty.knowsElement elem = true
  · obtain ⟨rfl⟩ := hu.eq_of_concrete (Ty.concrete_of_knowsElement hk)
    obtain ⟨g, hg, hx⟩ := hd
    cases (specialize_of_knowsElement hk).symm.trans h
    exact ⟨g, some e, hg, refine_eq_self fun x hxg => specialize_of_holds e (hx x hxg), rfl⟩
  · obtain ⟨g, r, hg, hr, _, rfl⟩ := (specialize_list hk).1 h
    exact ⟨g, r, hg, hr, rfl⟩

theorem specialize_of_refine {g : Grid} {r : Option Ty} (hd : (Ty.list (some e) depth).Holds d)
    (hg : d.grid depth = .ok g) (hr : refine elem g.leaves = .ok r)
    (hv : Ty.Vaguer (.list r depth) (.list (some e) depth)) : specialize d (.list elem depth) = .ok (.list r depth) := by
  by_cases hk : Ty.knowsElement elem = true
  · have hf := Ty.specialize_fills_all.2.1 elem g.leaves r hr depth
    rw [specialize_of_knowsElement hk]
    exact congrArg Except.ok (hf.eq_of_concrete (Ty.concrete_of_knowsElement hk))
  · obtain ⟨g', hg', hx⟩ := hd
    rw [hg] at hg'
    cases hg'
    refine (specialize_list hk).2 ⟨g, r, hg, hr, ?_, rfl⟩
    rintro b rfl x hxg
    obtain ⟨_, ⟨⟩, hb⟩ := Ty.vaguer_list hv
    obtain ⟨_, ⟨⟩, hbe⟩ := hb b rfl
    exact (refine_holds hbe hx hr x hxg).conforms

end

/-! ## Filled in once and for all -/

/-- A list whose elements were refined conforms to its new type: all items do, or there are none. -/
theorem conforms_of_specialize_list {d : Data} {elem : Option Ty} {depth : Nat} {t : Ty}
    (he : Ty.knowsElement elem ≠ true) (h : specialize d (.list elem depth) = .ok t) : t.conforms d = true := by
  obtain ⟨g, e, hg, _, hc, rfl⟩ := (specialize_list he).1 h
  cases e with
  | none => exact specialize_faces .self h
  | some e => exact Ty.conforms_list.2 ⟨g, hg, hc e rfl⟩

theorem specialize_eq_self_all :
    (∀ d t, ∀ t', specialize d t = .ok t' → specialize d t' = .ok t') ∧
    (∀ (_ : Option Ty) (_ : List Data), True) ∧
    (∀ ds ts, ∀ ts', ds.length = ts.length → specializeAll ds ts = .ok ts' → specializeAll ds ts' = .ok ts') := by
  apply specialize_induction
  case cluster =>
    intro ds ts hl ih t' h
    obtain ⟨ts', hts, rfl⟩ := (specialize_cluster hl).1 h
    have hl' := (Ty.specialize_fills_all.2.2 ds ts ts' hl hts).length_eq
    exact (specialize_cluster (hl.trans hl')).2 ⟨ts', ih ts' hl hts, rfl⟩
  case ragged =>
    intro d elem depth e he hg t' h
    exact specialize_of_conforms t' (conforms_of_specialize_list he h)
  case list =>
    intro d elem depth g he hg _ t' h
    exact specialize_of_conforms t' (conforms_of_specialize_list he h)
  case payload =>
    intro code message p t ih t' h
    obtain ⟨u, hu, rfl⟩ := specialize_payload.1 h
    exact specialize_payload.2 ⟨u, ih u hu, rfl⟩
  case unchanged =>
    intro d t ht t' h
    cases ht.symm.trans h
    exact ht
  -- refining needs no statement of its own: the items conform to what it comes to
  case noItem | firstItem | nextItem =>
    intros
    trivial
  case cons =>
    intro d ds t ts ih ihs ts' hl h
    obtain ⟨u, us, hu, hus, rfl⟩ := specializeAll_cons.1 h
    exact specializeAll_cons.2 ⟨u, us, ih u hu, ihs us (by simpa using hl) hus, rfl⟩
  case uneven =>
    rintro ds ts hn ts' hl h
    have hts : specializeAll ds ts = .ok [] := by
      rw [specializeAll]
      rcases hn with rfl | rfl <;> simp
    cases hts.symm.trans h
    rw [specializeAll]
    simp

/-- Specializing only fills in unknown elements, and a second time there is nothing to fill in. -/
theorem specialize_idempotent {d : Data} {t t' : Ty} (h : specialize d t = .ok t') :
    Ty.Vaguer t t' ∧ specialize d t' = .ok t' :=
  ⟨(Ty.specialize_fills h).vaguer, specialize_eq_self_all.1 d t t' h⟩

/-- The first tuple leaves the elements of its list unknown, and the second one fills them in. -/
theorem specialize_idempotent_tuples :
    let d : Data := .list [.tuple [.list []], .tuple [.list [.float default]]]
    let t : Ty := .list (some (.cluster [.list none 1])) 1
    let t' : Ty := .list (some (.cluster [.list (some (.value .dimensionless)) 1])) 1
    specialize d t = .ok t' ∧ Ty.Vaguer t t' ∧ specialize d t' = .ok t' := by
  intro d t t'
  have hempty : specialize (.tuple [.list []]) (.cluster [.list none 1]) = .ok (.cluster [.list none 1]) :=
    specialize_of_conforms _ rfl
  have hrow : specialize (.list [.float default]) (.list none 1) = .ok (.list (some (.value .dimensionless)) 1) :=
    (specialize_list (by decide)).2 ⟨⟨[1], [.float default]⟩, some (.value .dimensionless), rfl,
      refine_none.2 ⟨.value .dimensionless, _, rfl, specialize_of_conforms _ rfl, by rw [refine]⟩,
      by simp [Ty.conforms, UnitMark.plainConforms], rfl⟩
  have htuple : specialize (.tuple [.list [.float default]]) (.cluster [.list none 1]) =
      .ok (.cluster [.list (some (.value .dimensionless)) 1]) :=
    (specialize_cluster rfl).2 ⟨_, specializeAll_cons.2 ⟨_, [], hrow, by simp [specializeAll], rfl⟩, rfl⟩
  have h : specialize d t = .ok t' := by
    refine (specialize_list (by decide)).2 ⟨⟨[2], _⟩, _, rfl,
      refine_some.2 ⟨_, hempty, refine_some.2 ⟨_, htuple, by rw [refine]⟩⟩, ?_, rfl⟩
    rintro _ ⟨⟩
    decide
  exact ⟨h, specialize_idempotent h⟩

end TagWire
