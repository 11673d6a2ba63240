import TagWire.Proofs.Data.Grid
import TagWire.Proofs.Typing.Holding
import TagWire.Proofs.Wire.Layout

/-!
# Accepted values can be written

A value that a type holds is written under that type, as long as its lists and strings are not too long for their
lengths to be written, and there is nothing left to be filled in.
-/

namespace TagWire

/-! ## Nothing is left to be filled in -/

namespace Ty

mutual

theorem Holds.conforms : (t : Ty) → ∀ {d}, t.Holds d → t.conforms d = true
  | none, d, h => by
    obtain rfl := h
    rfl
  | bool, d, h | time, d, h => by
    obtain ⟨_, rfl⟩ := h
    rfl
  | int, d, h | word, d, h => by
    obtain ⟨n, hn, _⟩ := h
    rw [Ty.conforms, hn]
    rfl
  | str, d, h => by
    obtain ⟨xs, hx⟩ := h
    cases d <;> cases hx <;> rfl
  | value u, d, h | complex u, d, h => by
    obtain ⟨x, l, hr, rfl⟩ := h
    cases d <;> cases hr <;> simp [Ty.conforms, UnitMark.labelConforms, UnitMark.plainConforms, UnitMark.ofLabel]
  | cluster ts, d, h => by
    obtain ⟨ds, rfl, hds⟩ := h
    exact AllHold.allConform ts hds
  | list (some e) depth, d, h => by
    obtain ⟨g, hg, hx⟩ := h
    exact conforms_list.2 ⟨g, hg, fun x hxg => Holds.conforms e (hx x hxg)⟩
  | list .none depth, d, h => conforms_emptyList.2 h
  | error (some p), d, h => by
    obtain ⟨code, message, payload, hd, hq⟩ := h
    exact conforms_error.2 ⟨code, message, payload, hd, fun q hp => Holds.conforms p (hq q hp)⟩
  | error .none, d, h => by
    obtain ⟨code, message, rfl⟩ := h
    rfl

theorem AllHold.allConform : (ts : List Ty) → ∀ {ds}, AllHold ts ds → allConform ts ds = true
  | [], [], _ => rfl
  | t :: ts, d :: ds, ⟨h, hs⟩ => by
    rw [Ty.allConform, Holds.conforms t h, AllHold.allConform ts hs]
    rfl

end

end Ty

theorem refine_eq_self {t : Ty} : ∀ {ds : List Data}, (∀ x ∈ ds, specialize x t = .ok t) →
    refine (some t) ds = .ok (some t)
  | [], _ => by rw [refine]
  | d :: ds, h => by
    obtain ⟨hd, hds⟩ := List.forall_mem_cons.1 h
    exact refine_some.2 ⟨t, hd, refine_eq_self hds⟩

mutual

/-- Nothing is filled in where the value conforms to the type already. -/
theorem specialize_of_conforms : (t : Ty) → ∀ {d}, t.conforms d = true → specialize d t = .ok t
  | .cluster ts, d, h => by
    obtain ⟨ds, rfl, hds⟩ := Ty.conforms_cluster.1 h
    exact (specialize_cluster (Ty.length_eq_of_allConform hds)).2 ⟨ts, specializeAll_of_allConform ts hds, rfl⟩
  | .list (some e) depth, d, h => by
    obtain ⟨g, hg, hx⟩ := Ty.conforms_list.1 h
    by_cases he : Ty.knowsElement (some e) = true
    · exact specialize_of_knowsElement he
    · refine (specialize_list he).2 ⟨g, some e, hg, refine_eq_self fun x hxg => ?_, ?_, rfl⟩
      · exact specialize_of_conforms e (hx x hxg)
      · rintro _ ⟨⟩
        exact hx
  | .list Option.none depth, d, h => by
    obtain ⟨g, hg, hl⟩ := Ty.conforms_emptyList.1 h
    refine (specialize_list (by simp [Ty.knowsElement])).2 ⟨g, none, hg, ?_, fun _ he => (by cases he), rfl⟩
    rw [hl, refine]
  | .error (some p), d, h => by
    obtain ⟨code, message, _ | q, rfl, hq⟩ := Ty.conforms_error.1 h
    · exact specialize_bareError
    · exact specialize_payload.2 ⟨p, specialize_of_conforms p (hq q rfl), rfl⟩
  | .error .none, d, _ | .none, d, _ | .bool, d, _ | .int, d, _ | .word, d, _ | .str, d, _ | .time, d, _
  | .value _, d, _ | .complex _, d, _ => by
    rw [specialize]
    all_goals simp

theorem specializeAll_of_allConform : (ts : List Ty) → ∀ {ds}, Ty.allConform ts ds = true →
    specializeAll ds ts = .ok ts
  | [], ds, _ => by
    rw [specializeAll]
    simp
  | t :: ts, ds, h => by
    obtain ⟨d, ds, rfl, hd, hds⟩ := Ty.allConform_cons.1 h
    exact specializeAll_cons.2 ⟨t, ts, specialize_of_conforms t hd, specializeAll_of_allConform ts hds, rfl⟩

end

theorem specialize_of_holds (t : Ty) {d : Data} (h : t.Holds d) : specialize d t = .ok t :=
  specialize_of_conforms t h.conforms

/-! ## Lengths that can be written -/

namespace Data

mutual

/-- The lengths of all lists fit signed words, and those of all strings unsigned ones. -/
def Sized : Data → Prop
  | bytes bs => bs.length < 0x100000000
  | text s => (Utf8.encode s).length < 0x100000000
  | tuple ds => AllSized ds
  | list ds => ds.length < 0x80000000 ∧ AllSized ds
  | array a => a.length < 0x80000000
  | valueArray xs _ => xs.length < 0x80000000
  | error _ message (some p) => (Utf8.encode message).length < 0x100000000 ∧ p.Sized
  | error _ message Option.none => (Utf8.encode message).length < 0x100000000
  | _ => True

def AllSized : List Data → Prop
  | [] => True
  | d :: ds => d.Sized ∧ AllSized ds

end

theorem allSized_iff {ds : List Data} : AllSized ds ↔ ∀ d ∈ ds, d.Sized := by
  induction ds with
  | nil => simp [AllSized]
  | cons d ds ih => rw [AllSized, ih, List.forall_mem_cons]

theorem sized_item {a : NumArray} {x : Data} (h : x ∈ a.items) : x.Sized := by
  cases a <;> obtain ⟨_, _, rfl⟩ := List.mem_map.1 h <;> trivial

theorem passesOn_sized : PassesOn Sized (· < 0x80000000) := by
  intro d items hi hd
  cases d with
  | list ds =>
    cases hi
    exact ⟨hd.1, allSized_iff.1 hd.2⟩
  | array a =>
    cases hi
    rw [NumArray.length_items]
    exact ⟨hd, fun x hx => sized_item hx⟩
  | valueArray xs l =>
    cases hi
    rw [List.length_map]
    refine ⟨hd, fun x hx => ?_⟩
    obtain ⟨_, _, rfl⟩ := List.mem_map.1 hx
    trivial
  | _ => cases hi

theorem Sized.grid {d : Data} {depth : Nat} {g : Grid} (hd : d.Sized) (h : d.grid depth = .ok g) :
    Consists Sized (· < 0x80000000) g :=
  consists_grid passesOn_sized (by decide) hd h

theorem Sized.bytes? {d : Data} {xs : List UInt8} (hd : d.Sized) (h : d.bytes? = some xs) :
    xs.length < 0x100000000 := by
  cases d <;> cases h <;> exact hd

theorem Sized.message {code : Int32} {message : String} {payload : Option Data}
    (hd : (error code message payload).Sized) : (Utf8.encode message).length < 0x100000000 := by
  cases payload with
  | none => exact hd
  | some p => exact hd.1

end Data

/-! ## Writing -/

theorem UnitMark.label_ofLabel (l : String) : (ofLabel l).label = l := by
  unfold ofLabel
  by_cases h : l = ""
  · rw [if_pos h, h]
    rfl
  · rw [if_neg h]
    rfl

namespace Ty

variable {order : ByteOrder}

theorem exists_parts {e : Ty} : ∀ {ds : List Data}, (∀ x ∈ ds, ∃ bs, (e.emit order x).result = .ok bs) →
    ∃ parts, List.Forall₂ (fun x p => (e.emit order x).result = .ok p) ds parts
  | [], _ => ⟨[], .nil⟩
  | d :: ds, h => by
    obtain ⟨⟨bs, hd⟩, hds⟩ := List.forall_mem_cons.1 h
    obtain ⟨parts, hp⟩ := exists_parts hds
    exact ⟨bs :: parts, .cons hd hp⟩

mutual

/-- A value is written under a type that holds it. -/
theorem Holds.emit : (t : Ty) → ∀ {d}, t.Holds d → d.Sized → ∃ bs, (t.emit order d).result = .ok bs
  | none, d, h, _ => ⟨_, emit_none.2 ⟨h, rfl⟩⟩
  | bool, d, ⟨b, h⟩, _ => ⟨_, emit_bool.2 ⟨b, h, rfl⟩⟩
  | int, d, ⟨n, hn, hr⟩, _ => ⟨_, emit_int.2 ⟨n, hn, hr, rfl⟩⟩
  | word, d, ⟨n, hn, hr⟩, _ => ⟨_, emit_word.2 ⟨n, hn, hr, rfl⟩⟩
  | str, d, ⟨xs, hx⟩, hs => ⟨_, emit_str.2 ⟨xs, hx, hs.bytes? hx, rfl⟩⟩
  | time, d, ⟨i, hi⟩, _ => ⟨_, emit_time.2 ⟨i, hi, rfl⟩⟩
  | value u, d, ⟨x, l, hx, hu⟩, _ => ⟨_, emit_value.2 ⟨x, by rw [hx, hu, UnitMark.label_ofLabel], rfl⟩⟩
  | complex u, d, ⟨z, l, hz, hu⟩, _ => ⟨_, emit_complex.2 ⟨z, by rw [hz, hu, UnitMark.label_ofLabel], rfl⟩⟩
  | cluster ts, d, ⟨ds, hd, hds⟩, hs => by
    subst hd
    obtain ⟨bs, hbs⟩ := AllHold.emitMembers ts hds hs
    exact ⟨bs, emit_cluster.2 ⟨ds, rfl, hds.length_eq, hbs⟩⟩
  | list (some e) depth, d, ⟨g, hg, hx⟩, hs => by
    have hc := hs.grid hg
    obtain ⟨parts, hp⟩ := exists_parts fun x hxg => Holds.emit e (hx x hxg) (hc.leaves x hxg)
    exact ⟨_, emit_list.2 ⟨g, parts, hg, hc.shape, hp, rfl⟩⟩
  | list .none depth, d, ⟨g, hg, hl⟩, hs => ⟨_, emit_emptyList.2 ⟨g, hg, (hs.grid hg).shape, hl, rfl⟩⟩
  | error (some p), d, ⟨code, message, payload, hd, hq⟩, hs => by
    subst hd
    cases payload with
    | none => exact ⟨_, emit_error.2 ⟨code, message, .none, [0], rfl, hs.message, rfl, rfl⟩⟩
    | some q =>
      obtain ⟨ys, hy⟩ := Holds.emit p (hq q rfl) hs.2
      exact ⟨_, emit_error.2 ⟨code, message, some q, _, rfl, hs.message, rfl, ys, hy, rfl⟩⟩
  | error .none, d, ⟨code, message, hd⟩, hs => by
    subst hd
    exact ⟨_, emit_bareError.2 ⟨code, message, rfl, hs.message, rfl⟩⟩

theorem AllHold.emitMembers : (ts : List Ty) → ∀ {ds}, AllHold ts ds → Data.AllSized ds →
    ∃ bs, (emitMembers order ts ds).result = .ok bs
  | [], [], _, _ => ⟨[], emitMembers_nil.2 rfl⟩
  | t :: ts, d :: ds, ⟨h, hs⟩, ⟨hd, hds⟩ => by
    obtain ⟨xs, hx⟩ := Holds.emit t h hd
    obtain ⟨ys, hy⟩ := AllHold.emitMembers ts hs hds
    exact ⟨_, emitMembers_cons.2 ⟨xs, ys, hx, hy, rfl⟩⟩

end

end Ty

namespace Codec

/-- A value that is accepted under hints without wildcards is written as it was accepted. -/
theorem flattenAs_of_resolve (c : Codec) {d : Data} {hs : List Hint} {t : Ty} (hd : d.Sized) (hne : hs ≠ [])
    (hw : ∀ h ∈ hs, h.toTy?.isSome) (h : TagWire.resolve c.units d hs = .ok t) :
    specialize d t = .ok t ∧ ∃ bytes, c.flattenAs d t = .ok bytes := by
  have ht := resolve_holds hne hw h
  exact ⟨specialize_of_holds t ht, ht.emit t hd⟩

/-- The first tuple leaves open what the second one decides. -/
def joined : Data := .list [.tuple [.list [], .int 1], .tuple [.list [.value default "m"], .int 2]]

/-- The tag of this type is `*(*v[m]i)`. -/
def joinedTy : Ty := .list (some (.cluster [.list (some (.value (.named "m"))) 1, .int])) 1

theorem flattenAs_of_resolve_joined :
    TagWire.resolve Units.standard joined
      [.bool, .list (some (.cluster [.list (some (.value .unspecified)) 1, .int])) 1] = .ok joinedTy ∧
    specialize joined joinedTy = .ok joinedTy ∧ ∃ bytes, ({} : Codec).flattenAs joined joinedTy = .ok bytes := by
  have hr : TagWire.resolve Units.standard joined
      [.bool, .list (some (.cluster [.list (some (.value .unspecified)) 1, .int])) 1] = .ok joinedTy := rfl
  have hd : joined.Sized := ⟨by decide, ⟨⟨by decide, trivial⟩, trivial, trivial⟩,
    ⟨⟨by decide, trivial, trivial⟩, trivial, trivial⟩, trivial⟩
  refine ⟨hr, flattenAs_of_resolve {} hd (List.cons_ne_nil _ _) ?_ hr⟩
  intro h hm
  rcases List.mem_cons.1 hm with rfl | hm
  · rfl
  · rw [List.mem_singleton.1 hm]
    rfl

end Codec

end TagWire
