import TagWire.Codec
import TagWire.Proofs.Outcome

/-!
# The stages of typing

What each of the functions that give a value its type has done when it succeeds. Nothing below this module is
unfolded again.
-/

namespace TagWire

variable {units : Units} {d : Data} {t : Ty}

/-! ## Data on its own -/

namespace Data

theorem infer_tuple {ds : List Data} : (tuple (d :: ds)).infer = .ok t ↔
    ∃ ts, inferAll (d :: ds) = .ok ts ∧ (Ty.cluster ts).printsAmbiguously = false ∧ t = .cluster ts := by
  rw [infer, bind_eq_ok]
  constructor
  · rintro ⟨ts, hts, h⟩
    split at h
    · cases h
    · rename_i ha
      cases h
      exact ⟨ts, hts, Bool.not_eq_true _ ▸ ha, rfl⟩
  · rintro ⟨ts, hts, ha, rfl⟩
    exact ⟨ts, hts, if_neg (by rw [ha]; exact nofun)⟩

theorem infer_list {ds : List Data} : (list (d :: ds)).infer = .ok t ↔ ∃ u, d.infer = .ok u ∧ t = u.listAround := by
  rw [infer, bind_eq_ok]
  simp only [Except.ok.injEq, eq_comm]

theorem infer_payload {code : Int32} {message : String} : (error code message (some d)).infer = .ok t ↔
    ∃ u, d.infer = .ok u ∧ t = .error (some u) := by
  rw [infer, bind_eq_ok]
  simp only [Except.ok.injEq, eq_comm]

theorem inferAll_cons {ds : List Data} {ts : List Ty} : inferAll (d :: ds) = .ok ts ↔
    ∃ u us, d.infer = .ok u ∧ inferAll ds = .ok us ∧ ts = u :: us := by
  rw [inferAll]
  simp only [bind_eq_ok, Except.ok.injEq]
  constructor
  · rintro ⟨u, hu, us, hus, rfl⟩
    exact ⟨u, us, hu, hus, rfl⟩
  · rintro ⟨u, us, hu, hus, rfl⟩
    exact ⟨u, hu, us, hus, rfl⟩

end Data

/-! ## From hints to a type -/

theorem Hint.accept_eq_ok {h : Hint} : h.accept units d = .ok t ↔
    ∃ t', h.fit units d = .ok t' ∧ t = t'.fillFrom h ∧ t.printsAmbiguously = false := by
  rw [accept, bind_eq_ok]
  constructor
  · rintro ⟨t', hf, h⟩
    split at h
    · cases h
    · rename_i hp
      cases h
      exact ⟨t', hf, rfl, Bool.not_eq_true _ ▸ hp⟩
  · rintro ⟨t', hf, rfl, hp⟩
    exact ⟨t', hf, by rw [hp]; rfl⟩

/-- A type comes from the value alone if there are no hints, and else from one of them. -/
theorem resolve_cases {hs : List Hint} (h : resolve units d hs = .ok t) :
    (hs = [] ∧ d.infer = .ok t) ∨ ∃ h ∈ hs, h.accept units d = .ok t := by
  unfold resolve at h
  split at h
  · exact .inl ⟨rfl, mapError_eq_ok.1 h⟩
  · rename_i x
    exact .inr ⟨x, List.mem_singleton_self x, h⟩
  · split at h
    · rename_i t' hf
      cases h
      obtain ⟨x, hx, ha⟩ := List.exists_of_findSome?_eq_some hf
      exact .inr ⟨x, hx, toOption_eq_some.1 ha⟩
    · cases h

/-! ## Unknown elements -/

theorem specialize_cluster {ds : List Data} {ts : List Ty} (hl : ds.length = ts.length) :
    specialize (.tuple ds) (.cluster ts) = .ok t ↔ ∃ ts', specializeAll ds ts = .ok ts' ∧ t = .cluster ts' := by
  rw [specialize, if_pos hl, map_eq_ok]
  constructor
  · rintro ⟨ts', hts, rfl⟩
    exact ⟨ts', hts, rfl⟩
  · rintro ⟨ts', hts, rfl⟩
    exact ⟨ts', hts, rfl⟩

/-- A list whose elements leave nothing open is not looked at. -/
theorem specialize_of_knowsElement {elem : Option Ty} {depth : Nat} (he : Ty.knowsElement elem = true) :
    specialize d (.list elem depth) = .ok (.list elem depth) := by
  rw [specialize, if_pos he]

theorem specialize_payload {code : Int32} {message : String} {p : Ty} :
    specialize (.error code message (some d)) (.error (some p)) = .ok t ↔
      ∃ u, specialize d p = .ok u ∧ t = .error (some u) := by
  rw [specialize, map_eq_ok]
  constructor
  · rintro ⟨u, hu, rfl⟩
    exact ⟨u, hu, rfl⟩
  · rintro ⟨u, hu, rfl⟩
    exact ⟨u, hu, rfl⟩

theorem specialize_bareError {code : Int32} {message : String} {p : Option Ty} :
    specialize (.error code message none) (.error p) = .ok (.error p) := by
  rw [specialize]
  all_goals simp

/-- A list gets the element type that its leaves refine it to, if there is any, and they all conform to it. -/
theorem specialize_list {elem : Option Ty} {depth : Nat} (he : Ty.knowsElement elem ≠ true) :
    specialize d (.list elem depth) = .ok t ↔ ∃ g e, d.grid depth = .ok g ∧ refine elem g.leaves = .ok e ∧
      (∀ e', e = some e' → ∀ x ∈ g.leaves, e'.conforms x = true) ∧ t = .list e depth := by
  rw [specialize, if_neg he]
  split
  · rename_i e hg
    constructor
    · intro h
      cases h
    · rintro ⟨g, _, hg', _⟩
      rw [hg] at hg'
      cases hg'
  · rename_i g hg
    rw [bind_eq_ok]
    constructor
    · rintro ⟨e, hr, h⟩
      refine ⟨g, e, hg, hr, ?_⟩
      cases e with
      | none =>
        cases h
        exact ⟨fun _ he => (by cases he), rfl⟩
      | some e' =>
        simp only at h
        split at h
        · cases h
        · rename_i hn
          cases h
          refine ⟨fun _ he x hx => ?_, rfl⟩
          cases he
          simpa using List.find?_eq_none.1 hn x hx
    · rintro ⟨g', e, hg', hr, hc, rfl⟩
      rw [hg] at hg'
      cases hg'
      refine ⟨e, hr, ?_⟩
      cases e with
      | none => rfl
      | some e' =>
        have hn : g.leaves.find? (fun leaf => !e'.conforms leaf) = none :=
          List.find?_eq_none.2 fun x hx => by simp [hc e' rfl x hx]
        simp only [hn]

theorem refine_some {ds : List Data} {e : Option Ty} :
    refine (some t) (d :: ds) = .ok e ↔ ∃ t', specialize d t = .ok t' ∧ refine (some t') ds = .ok e := by
  rw [refine]
  exact bind_eq_ok (x := specialize d t)

theorem refine_none {ds : List Data} {e : Option Ty} :
    refine none (d :: ds) = .ok e ↔
      ∃ t t', d.infer = .ok t ∧ specialize d t = .ok t' ∧ refine (some t') ds = .ok e := by
  rw [refine]
  simp only [bind_eq_ok, mapError_eq_ok]
  constructor
  · rintro ⟨t, hi, t', hs, hr⟩
    exact ⟨t, t', hi, hs, hr⟩
  · rintro ⟨t, t', hi, hs, hr⟩
    exact ⟨t, hi, t', hs, hr⟩

theorem specializeAll_cons {ds : List Data} {ts ts' : List Ty} :
    specializeAll (d :: ds) (t :: ts) = .ok ts' ↔
      ∃ u us, specialize d t = .ok u ∧ specializeAll ds ts = .ok us ∧ ts' = u :: us := by
  rw [specializeAll]
  simp only [bind_eq_ok, Except.ok.injEq]
  constructor
  · rintro ⟨u, hu, us, hus, rfl⟩
    exact ⟨u, us, hu, hus, rfl⟩
  · rintro ⟨u, us, hu, hus, rfl⟩
    exact ⟨u, hu, us, hus, rfl⟩

/-! ## Values that conform -/

namespace Ty

theorem conforms_cluster {ts : List Ty} :
    (cluster ts).conforms d = true ↔ ∃ ds, d = .tuple ds ∧ allConform ts ds = true := by
  constructor
  · intro h
    cases d <;> first | exact ⟨_, rfl, h⟩ | cases h
  · rintro ⟨ds, rfl, h⟩
    exact h

theorem allConform_cons {ts : List Ty} {ds : List Data} :
    allConform (t :: ts) ds = true ↔ ∃ x xs, ds = x :: xs ∧ t.conforms x = true ∧ allConform ts xs = true := by
  cases ds with
  | nil => simp [allConform]
  | cons x xs =>
    rw [allConform, Bool.and_eq_true]
    constructor
    · intro h
      exact ⟨x, xs, rfl, h⟩
    · rintro ⟨_, _, ⟨⟩, h⟩
      exact h

theorem length_eq_of_allConform : ∀ {ts : List Ty} {ds : List Data}, allConform ts ds = true → ds.length = ts.length
  | [], [], _ => rfl
  | _ :: ts, ds, h => by
    obtain ⟨x, xs, rfl, _, h⟩ := allConform_cons.1 h
    rw [List.length_cons, List.length_cons, length_eq_of_allConform h]

theorem conforms_list {e : Ty} {depth : Nat} : (list (some e) depth).conforms d = true ↔
    ∃ g, d.grid depth = .ok g ∧ ∀ x ∈ g.leaves, e.conforms x = true := by
  rw [Ty.conforms]
  cases d.grid depth with
  | error e => simp
  | ok g => simp

theorem conforms_emptyList {depth : Nat} : (list .none depth).conforms d = true ↔
    ∃ g, d.grid depth = .ok g ∧ g.leaves = [] := by
  rw [Ty.conforms]
  cases d.grid depth with
  | error e => simp
  | ok g => simp

theorem conforms_error {p : Ty} : (error (some p)).conforms d = true ↔
    ∃ code message payload, d = .error code message payload ∧ ∀ q ∈ payload, p.conforms q = true := by
  constructor
  · intro h
    cases d with
    | error code message payload =>
      refine ⟨code, message, payload, rfl, ?_⟩
      rintro q ⟨⟩
      exact h
    | _ => cases h
  · rintro ⟨code, message, _ | q, rfl, h⟩
    · rfl
    · exact h q rfl

end Ty

end TagWire
