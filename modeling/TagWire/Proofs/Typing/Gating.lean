import TagWire.Proofs.Typing.Fitting
import TagWire.Proofs.Typing.Stages

/-!
# What units decide

Units are asked at every number with a label that stands under a hint, and they answer only whether it may stand
there. The type always has the label of the data, so that units which accept more accept it with the same type.
-/

namespace TagWire

namespace Units

/-- Whatever the first units accept is accepted by the second ones. -/
def Within (u v : Units) : Prop := ∀ held want, u.compatible held want = true → v.compatible held want = true

/-- Every label may stand for every other one. -/
def unrestricted : Units := ⟨fun _ _ => true⟩

theorem within_unrestricted (u : Units) : u.Within unrestricted := fun _ _ _ => rfl

/-- The units under which every label stands for itself only are the least that are reflexive. -/
theorem exact_within_iff {u : Units} : exact.Within u ↔ u.Reflexive := by
  constructor
  · intro h label
    exact h label label (exact_reflexive label)
  · intro h held want he
    obtain rfl : held = want := by simpa [exact] using he
    exact h held

end Units

variable {u v : Units}

theorem UnitMark.ofData_mono (huv : u.Within v) {mark m : UnitMark} {label : String} (h : mark.ofData u label = .ok m) :
    mark.ofData v label = .ok m := by
  unfold ofData at h ⊢
  split
  · rename_i hl
    rwa [if_pos hl] at h
  · rename_i hl
    rw [if_neg hl] at h
    cases mark with
    | unspecified => exact h
    | dimensionless => exact h
    | named want =>
      simp only at h ⊢
      split at h
      · rename_i hc
        rwa [if_pos (huv label want hc)]
      · cases h

theorem joinItems_mono {fit fit' : Data → Except FlattenError Ty} {r : Option Ty} :
    ∀ {ds : List Data} {a : Option Ty}, (∀ x ∈ ds, ∀ t, fit x = .ok t → fit' x = .ok t) →
      joinItems fit a ds = .ok r → joinItems fit' a ds = .ok r
  | [], a, _, h => by
    rw [joinItems] at h ⊢
    exact h
  | d :: ds, none, hf, h => by
    obtain ⟨hd, hds⟩ := List.forall_mem_cons.1 hf
    obtain ⟨t, ht, h⟩ := joinItems_none.1 h
    exact joinItems_none.2 ⟨t, hd t ht, joinItems_mono hds h⟩
  | d :: ds, some a, hf, h => by
    obtain ⟨hd, hds⟩ := List.forall_mem_cons.1 hf
    obtain ⟨t, b, ht, hb, h⟩ := joinItems_some.1 h
    exact joinItems_some.2 ⟨t, b, hd t ht, hb, joinItems_mono hds h⟩

namespace Hint

mutual

/-- What fits a hint fits it in the same way under units that accept more. -/
theorem fit_mono (huv : u.Within v) : (h : Hint) → ∀ {d t}, h.fit u d = .ok t → h.fit v d = .ok t
  | value m, d, t, h => by
    obtain ⟨x, l, k, hr, hk, rfl⟩ := fit_value.1 h
    exact fit_value.2 ⟨x, l, k, hr, UnitMark.ofData_mono huv hk, rfl⟩
  | complex m, d, t, h => by
    obtain ⟨z, l, k, hr, hk, rfl⟩ := fit_complex.1 h
    exact fit_complex.2 ⟨z, l, k, hr, UnitMark.ofData_mono huv hk, rfl⟩
  | cluster hs, d, t, h => by
    obtain ⟨ds, ts, rfl, hl, hts, rfl⟩ := fit_cluster.1 h
    exact fit_cluster.2 ⟨ds, ts, rfl, hl, fitAll_mono huv hs hl hts, rfl⟩
  | list (some e) depth, d, t, h => by
    obtain ⟨g, r, hg, hr, rfl⟩ := fit_list.1 h
    exact fit_list.2 ⟨g, r, hg, joinItems_mono (fun x _ t ht => fit_mono huv e ht) hr, rfl⟩
  | error (some p), d, t, h => by
    obtain ⟨code, message, hd | ⟨q, w, hd, hw, ht⟩⟩ := fit_error.1 h
    · exact fit_error.2 ⟨code, message, .inl hd⟩
    · exact fit_error.2 ⟨code, message, .inr ⟨q, w, hd, fit_mono huv p hw, ht⟩⟩
  -- no units are asked under any other hint
  | list .none depth, d, t, h => fit_emptyList.2 (fit_emptyList.1 h)
  | error .none, d, t, h => fit_bareError.2 (fit_bareError.1 h)
  | none, d, t, h => fit_none.2 (fit_none.1 h)
  | bool, d, t, h => fit_bool.2 (fit_bool.1 h)
  | int, d, t, h => fit_int.2 (fit_int.1 h)
  | word, d, t, h => fit_word.2 (fit_word.1 h)
  | str, d, t, h => fit_str.2 (fit_str.1 h)
  | time, d, t, h => fit_time.2 (fit_time.1 h)
  | wildcard, d, t, h => fit_wildcard.2 (fit_wildcard.1 h)

theorem fitAll_mono (huv : u.Within v) : (hs : List Hint) → ∀ {ds ts}, ds.length = hs.length →
    fitAll u hs ds = .ok ts → fitAll v hs ds = .ok ts
  | [], ds, ts, _, h => by
    rw [fitAll] at h ⊢
    · exact h
    all_goals simp
  | m :: ms, d :: ds, ts, hl, h => by
    obtain ⟨t, us, ht, hus, rfl⟩ := fitAll_cons.1 h
    exact fitAll_cons.2 ⟨t, us, fit_mono huv m ht, fitAll_mono huv ms (by simpa using hl) hus, rfl⟩
  | _ :: _, [], _, hl, _ => by cases hl

end

theorem accept_mono (huv : u.Within v) {h : Hint} {d : Data} {t : Ty} (ha : h.accept u d = .ok t) :
    h.accept v d = .ok t := by
  obtain ⟨t', hf, ht, hp⟩ := accept_eq_ok.1 ha
  exact accept_eq_ok.2 ⟨t', fit_mono huv h hf, ht, hp⟩

end Hint

/-- Units decide whether a value is accepted under a hint, but not as which type: it has the same one under all units
that accept it, and units that accept more labels accept more values. -/
theorem resolve_gated_by_units (d : Data) (h : Hint) :
    (∀ u v t t', resolve u d [h] = .ok t → resolve v d [h] = .ok t' → t = t') ∧
    (∀ u v : Units, u.Within v → ∀ t, resolve u d [h] = .ok t → resolve v d [h] = .ok t) := by
  constructor
  · intro u v t t' ht ht'
    -- both are the type under units that accept every label
    have hu : h.accept .unrestricted d = .ok t := Hint.accept_mono u.within_unrestricted ht
    have hv : h.accept .unrestricted d = .ok t' := Hint.accept_mono v.within_unrestricted ht'
    rw [hu] at hv
    cases hv
    rfl
  · intro u v huv t ht
    exact Hint.accept_mono huv ht

/-- Lengths in feet under a hint that asks for metres, which are not accepted where a label stands for itself only. -/
theorem resolve_gated_by_units_feet :
    let d : Data := .list [.tuple [.value default "ft", .list []], .tuple [.value default "ft", .list [.int 1]]]
    let h : Hint := .list (some (.cluster [.value (.named "m"), .list (some .wildcard) 1])) 1
    let t : Ty := .list (some (.cluster [.value (.named "ft"), .list (some .int) 1])) 1
    Units.exact.Within .standard ∧ resolve .exact d [h] ≠ .ok t ∧ resolve .standard d [h] = .ok t ∧
      resolve .unrestricted d [h] = .ok t ∧ ∀ v t', resolve v d [h] = .ok t' → t' = t := by
  intro d h t
  have hs : resolve .standard d [h] = .ok t := rfl
  obtain ⟨type, accepts⟩ := resolve_gated_by_units d h
  refine ⟨Units.exact_within_iff.2 (UnitTable.units_reflexive _), nofun, hs, ?_, ?_⟩
  · exact accepts .standard .unrestricted (Units.within_unrestricted _) t hs
  · intro v t' ht'
    exact type v .standard t' t ht' hs

end TagWire
