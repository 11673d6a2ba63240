import TagWire.Proofs.Typing.Errors
import TagWire.Proofs.Typing.Parts
import TagWire.Proofs.Wire.Faults

/-!
# Resolved types are resolved enough

A type that a codec has chosen for a value has the units that are needed to write it, and the elements that it leaves
unknown are elements of lists without any. So writing the value never fails for what the type leaves open.
-/

namespace TagWire

namespace Ty

variable {t u : Ty} {d x : Data}

theorem conforms_member : ∀ {ts : List Ty} {ds : List Data}, allConform ts ds = true → (t, d) ∈ ts.zip ds →
    t.conforms d = true
  | u :: us, x :: xs, hc, hm => by
    rw [allConform, Bool.and_eq_true] at hc
    rcases List.mem_cons.1 hm with h | hm
    · cases h
      exact hc.1
    · exact conforms_member hc.2 hm
  | [], _, _, hm => by simp at hm
  | _ :: _, [], _, hm => by simp at hm

/-- The parts of a value conform to what they stand under. -/
theorem Faces.conforms (h : Faces t d u x) (hc : t.conforms d = true) : u.conforms x = true := by
  induction h with
  | self => exact hc
  | member _ hm _ ih => exact ih (conforms_member hc hm)
  | leaf hg hy _ ih =>
    obtain ⟨_, hg', hx⟩ := conforms_list.1 hc
    cases hg.symm.trans hg'
    exact ih (hx _ hy)
  | payload _ ih => exact ih hc

theorem areConcrete_iff {ts : List Ty} : areConcrete ts = true ↔ ∀ t ∈ ts, t.isConcrete = true := by
  induction ts with
  | nil => simp [areConcrete]
  | cons t ts ih => rw [areConcrete, Bool.and_eq_true, ih, List.forall_mem_cons]

theorem Faces.concrete (h : Faces t d u x) (hc : t.isConcrete = true) : u.isConcrete = true := by
  induction h with
  | self => exact hc
  | member _ hm _ ih => exact ih (areConcrete_iff.1 hc _ (List.of_mem_zip hm).1)
  | leaf _ _ _ ih => exact ih hc
  | payload _ ih => exact ih hc

theorem Faces.every {p : UnitMark → Prop} {q : Nat → Prop} (h : Faces t d u x) (hp : t.Every p q) : u.Every p q := by
  induction h with
  | self => exact hp
  | member _ hm _ ih => exact ih (allEvery_iff.1 hp _ (List.of_mem_zip hm).1)
  | leaf _ _ _ ih => exact ih hp.2
  | payload _ ih => exact ih hp

end Ty

/-! ## What stays unknown -/

theorem exists_specialize_of_member {t : Ty} {x : Data} : ∀ {ds : List Data} {ts₀ ts : List Ty}, ds.length = ts.length →
    specializeAll ds ts₀ = .ok ts → (t, x) ∈ ts.zip ds → ∃ t₀, specialize x t₀ = .ok t
  | d :: ds, t₀ :: ts₀, ts, hl, h, hm => by
    obtain ⟨u, us, hu, hus, rfl⟩ := specializeAll_cons.1 h
    rcases List.mem_cons.1 hm with hx | hm
    · cases hx
      exact ⟨t₀, hu⟩
    · exact exists_specialize_of_member (by simpa using hl) hus hm
  | [], _, _, _, _, hm => by simp at hm
  | d :: ds, [], ts, hl, h, hm => by
    rw [specializeAll] at h
    · cases h
      cases hl
    · simp

/-- A list whose elements are still unknown after they could be filled in has none. -/
theorem specialize_faces {t : Ty} {d x : Data} {depth : Nat} (hf : Ty.Faces t d (.list none depth) x) :
    ∀ {t₀}, specialize d t₀ = .ok t → (Ty.list none depth).conforms x = true := by
  generalize hu : Ty.list none depth = u at hf
  induction hf with
  | self =>
    subst hu
    intro t₀ h
    obtain rfl := (Ty.specialize_fills h).eq_unknownList
    obtain ⟨g, e, hg, hr, _, he⟩ := (specialize_list (by simp [Ty.knowsElement])).1 h
    cases he
    cases hl : g.leaves with
    | nil => exact Ty.conforms_emptyList.2 ⟨g, hg, hl⟩
    | cons y ys =>
      -- the first leaf would have given the elements their type
      rw [hl] at hr
      obtain ⟨_, _, _, _, hr⟩ := refine_none.1 hr
      cases Ty.specialize_fills_all.2.1 _ _ _ hr 1
  | member hl hm _ ih =>
    intro t₀ h
    obtain ⟨ts₀, rfl, hts⟩ := (Ty.specialize_fills h).eq_cluster
    obtain ⟨_, hts, ⟨⟩⟩ := (specialize_cluster (hl.trans hts.length_eq.symm)).1 h
    obtain ⟨t₁, h₁⟩ := exists_specialize_of_member hl hts hm
    exact ih hu h₁
  | @leaf e depth' d g y u x hg hy hf ih =>
    intro t₀ h
    obtain ⟨elem, rfl⟩ := (Ty.specialize_fills h).eq_list
    by_cases hk : Ty.knowsElement elem = true
    · -- elements that leave nothing open hold no list of unknown elements
      cases (specialize_of_knowsElement hk).symm.trans h
      have hc := hf.concrete hk
      rw [← hu] at hc
      cases hc
    · obtain ⟨g', e', hg', _, hc, he⟩ := (specialize_list hk).1 h
      cases he
      rw [hg] at hg'
      cases hg'
      exact hf.conforms (hc e rfl y hy)
  | payload _ ih =>
    intro t₀ h
    obtain ⟨p₀, rfl, _⟩ := (Ty.specialize_fills h).eq_error
    obtain ⟨_, hp, ⟨⟩⟩ := specialize_payload.1 h
    exact ih hu hp

namespace Codec

/-- A type that a codec has chosen leaves no unit open, and it leaves elements unknown only where the value has none, so
flattening never fails for what the type leaves open. -/
theorem flatten_resolved (c : Codec) (d : Data) (hs : List Hint) :
    (∀ t, c.resolve d hs = .ok t → t.UnitsKnown ∧
      (∀ depth x, Ty.Faces t d (.list none depth) x → ∃ g, x.grid depth = .ok g ∧ g.leaves = []) ∧
      ∀ u, c.flattenAs d t ≠ .error (.unresolved u)) ∧
    ∀ u, c.flatten d hs ≠ .error (.unresolved u) := by
  have resolved : ∀ t, c.resolve d hs = .ok t → t.UnitsKnown ∧
      (∀ depth x, Ty.Faces t d (.list none depth) x → ∃ g, x.grid depth = .ok g ∧ g.leaves = []) ∧
      ∀ u, c.flattenAs d t ≠ .error (.unresolved u) := by
    intro t h
    obtain ⟨t₀, hr, hsp⟩ := bind_eq_ok.1 h
    have hunits : t.UnitsKnown := specialize_unitsKnown (resolve_unitsKnown hr) hsp
    have hempty : ∀ depth x, Ty.Faces t d (.list none depth) x → ∃ g, x.grid depth = .ok g ∧ g.leaves = [] := by
      intro depth x hf
      have hc := specialize_faces hf hsp
      unfold Ty.conforms at hc
      split at hc
      · rename_i g hg
        exact ⟨g, hg, List.isEmpty_iff.1 hc⟩
      · cases hc
    refine ⟨hunits, hempty, fun u hu => ?_⟩
    rw [flattenAs, Emission.result, map_eq_error, Emission.outcome] at hu
    split at hu
    · cases hu
    rename_i e he
    cases hu
    obtain ⟨v, x, hf, hv⟩ := Ty.exists_fault t he
    cases hv with
    | openValue => exact hf.every hunits rfl
    | openComplex => exact hf.every hunits rfl
    | openElement hg hl =>
      obtain ⟨g, hg', hl'⟩ := hempty _ _ hf
      rw [hg] at hg'
      cases hg'
      exact hl hl'
  refine ⟨resolved, fun u hu => ?_⟩
  rw [flatten] at hu
  rcases bind_eq_error.1 hu with h | ⟨t, ht, h⟩
  · exact c.ofTyping_resolve h
  rcases bind_eq_error.1 h with h | ⟨bs, _, h⟩
  · exact (resolved t ht).2.2 u h
  · cases h

/-- The elements of an empty list stay unknown, and a missing unit is taken from the value. -/
theorem flatten_resolved_empty :
    let d : Data := .tuple [.list [], .value default "m"]
    let hs : List Hint := [.cluster [.list (some .wildcard) 1, .value .unspecified]]
    let t : Ty := .cluster [.list none 1, .value (.named "m")]
    ({} : Codec).resolve d hs = .ok t ∧ t.UnitsKnown ∧ (∀ u, ({} : Codec).flattenAs d t ≠ .error (.unresolved u)) ∧
      ∃ g, (Data.list []).grid 1 = .ok g ∧ g.leaves = [] := by
  intro d hs t
  have ht : t.Holds d := ⟨_, rfl, ⟨_, rfl, rfl⟩, ⟨_, _, rfl, rfl⟩, trivial⟩
  have h : ({} : Codec).resolve d hs = .ok t := bind_eq_ok.2 ⟨t, rfl, specialize_of_holds t ht⟩
  obtain ⟨hu, hf, hn⟩ := (flatten_resolved {} d hs).1 t h
  exact ⟨h, hu, hn, hf 1 (.list []) (.member rfl (.head _) .self)⟩

end Codec

end TagWire
