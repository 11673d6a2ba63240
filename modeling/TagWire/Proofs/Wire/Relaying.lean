import TagWire.Proofs.Typing.Relaying
import TagWire.Proofs.Wire.Denotation

/-!
# Relayed values

A value that was flattened without hints, and unflattened, is flattened to the same bytes again. The type may be vaguer
than the first one, because an empty list of numbers need not say what its items would be.
-/

namespace TagWire

namespace Ty

variable {order : ByteOrder} {bs bs' rest rest' : List UInt8} {d d' : Data} {n : Nat}

/-! ## The value that is read -/

/-- What is read where a value was written is the normal form of the value. -/
theorem eq_norm_of_denotes {t : Ty} (ht : t.Dimensioned) (hd : t.Denotes order bs' d' n)
    (he : (t.emit order d).result = .ok bs) (hf : Fit (t.lists d)) (hbs : bs' ++ rest' = bs ++ rest) :
    d' = t.norm d ∧ rest' = rest := by
  have hr := reads_of_denotes t hd rest'
  rw [hbs] at hr
  exact hr.unique (reads_norm t ht he hf rest)

theorem shape_of_shapeBytes {s s' : List Nat} (hl : s'.length = s.length) (hs : ∀ k ∈ s, k < 0x80000000)
    (hs' : ∀ k ∈ s', k < 0x80000000) (h : shapeBytes order s' ++ rest' = shapeBytes order s ++ rest) :
    s' = s ∧ rest' = rest := by
  have hr := reads_shape order rest' hs'
  rw [hl, h] at hr
  exact hr.unique (reads_shape order rest hs)

theorem rest_of_errorBytes {code code' : Int32} {message : String} {message' : List UInt8}
    (hm : (Utf8.encode message).length < 0x100000000) (hm' : message'.length < 0x100000000)
    (h : Word.encode order 4 code'.toInt ++ stringBytes order message' ++ rest' = errorBytes order code message ++ rest) :
    rest' = rest := by
  rw [errorBytes, List.append_assoc, List.append_assoc] at h
  have hc := reads_int order (stringBytes order message' ++ rest') ⟨code'.le_toInt, code'.toInt_lt⟩
  rw [h] at hc
  have hr := reads_string order rest' hm'
  rw [(hc.unique (reads_int order _ ⟨code.le_toInt, code.toInt_lt⟩)).2] at hr
  exact (hr.unique (reads_string order rest hm)).2

theorem fit_of_leaves {e : Ty} (he : e.Dimensioned)
    (ih : ∀ {bs bs' rest rest' d d' n}, e.Denotes order bs' d' n → (e.emit order d).result = .ok bs →
      bs' ++ rest' = bs ++ rest → Fit (e.lists d))
    {leaves : List (Data × Nat)} {parts' : List (List UInt8)}
    (hd : List.Forall₂ (fun x p => e.Denotes order p x.1 x.2) leaves parts') :
    ∀ {xs : List Data} {parts : List (List UInt8)}, xs.length = leaves.length →
      List.Forall₂ (fun x p => (e.emit order x).result = .ok p) xs parts →
      parts'.flatten ++ rest' = parts.flatten ++ rest → ∀ x ∈ xs, Fit (e.lists x) := by
  induction hd with
  | nil =>
    intro xs parts hl _ _ x hx
    rw [List.eq_nil_of_length_eq_zero hl] at hx
    cases hx
  | cons hy _ ihs =>
    intro xs parts hl hp hbs
    cases hp with
    | nil => cases hl
    | cons hx hxs =>
      rw [List.flatten_cons, List.flatten_cons, List.append_assoc, List.append_assoc] at hbs
      have hf := ih hy hx hbs
      exact List.forall_mem_cons.2 ⟨hf, ihs (by simpa using hl) hxs (eq_norm_of_denotes he hy hx hf hbs).2⟩

mutual

/-- A value has no more list cells than can be counted if anything is read where it was written. -/
theorem fit_of_denotes : (t : Ty) → t.Dimensioned → ∀ {bs bs' rest rest' d d' n}, t.Denotes order bs' d' n →
    (t.emit order d).result = .ok bs → bs' ++ rest' = bs ++ rest → Fit (t.lists d)
  | none, _, _, _, _, _, _, _, _, _, _, _ | bool, _, _, _, _, _, _, _, _, _, _, _ | int, _, _, _, _, _, _, _, _, _, _, _
  | word, _, _, _, _, _, _, _, _, _, _, _ | str, _, _, _, _, _, _, _, _, _, _, _ | time, _, _, _, _, _, _, _, _, _, _, _
  | value _, _, _, _, _, _, _, _, _, _, _, _ | complex _, _, _, _, _, _, _, _, _, _, _, _
  | error .none, _, _, _, _, _, _, _, _, _, _, _ => by
    simp [lists, Fit]
  | cluster ts, ht, bs, bs', rest, rest', d, d', n, hd, he, hbs => by
    obtain ⟨ds', hds, _⟩ := hd
    obtain ⟨ds, rfl, hl, hm⟩ := emit_cluster.1 he
    rw [lists]
    exact fit_of_membersDenote ts ht hds hl hm hbs
  | list (some e) depth, ⟨hm, he⟩, bs, bs', rest, rest', d, d', n, hd, hw, hbs => by
    obtain ⟨shape, leaves, parts', hl, hk, hshape, hlen, hp', rfl, _⟩ := hd
    obtain ⟨g, parts, hg, hs, hp, rfl⟩ := emit_list.1 hw
    rw [List.append_assoc, List.append_assoc] at hbs
    obtain ⟨k, rfl⟩ := Nat.exists_eq_add_of_le' hm
    obtain ⟨rfl, hrest⟩ := shape_of_shapeBytes (hl.trans (length_shape_of_dimensioned hm hg).symm) hs hk hbs
    have hx := fit_of_leaves he (fit_of_denotes e he) hp' ((Data.length_leaves hg).trans hlen.symm) hp hrest
    simp only [lists, hg]
    refine List.forall_mem_cons.2 ⟨hshape, fun l hl => ?_⟩
    obtain ⟨x, hxg, hl⟩ := List.mem_flatMap.1 hl
    exact hx x hxg l hl
  | list .none depth, hm, bs, bs', rest, rest', d, d', n, hd, hw, hbs => by
    obtain ⟨shape, hl, hk, hshape, _, rfl, _⟩ := hd
    obtain ⟨g, hg, hs, _, rfl⟩ := emit_emptyList.1 hw
    obtain ⟨rfl, _⟩ := shape_of_shapeBytes (hl.trans (length_shape_of_dimensioned hm hg).symm) hs hk hbs
    simp only [lists, hg]
    exact List.forall_mem_singleton.2 hshape
  | error (some p), hp, bs, bs', rest, rest', d, d', n, hd, hw, hbs => by
    obtain ⟨code', message', tail', q', hm', hq', rfl, _⟩ := hd
    obtain ⟨code, message, payload, tail, rfl, hm, rfl, ht⟩ := emit_error.1 hw
    rw [List.append_assoc _ tail', List.append_assoc _ tail] at hbs
    have htail := rest_of_errorBytes hm hm' hbs
    cases payload with
    | none => simp [lists, Fit]
    | some q =>
      obtain ⟨ys, hy, rfl⟩ := ht
      rw [lists]
      rcases hq' with ⟨rfl, _⟩ | ⟨ys', x, hx, rfl, _⟩
      · -- a payload was announced
        cases htail
      · rw [List.cons_append, List.cons_append, List.cons.injEq] at htail
        exact fit_of_denotes p hp hx hy htail.2

theorem fit_of_membersDenote : (ts : List Ty) → AllDimensioned ts → ∀ {bs bs' rest rest' ds ds' n},
    MembersDenote order ts bs' ds' n → ds.length = ts.length → (emitMembers order ts ds).result = .ok bs →
    bs' ++ rest' = bs ++ rest → Fit (listsOfMembers ts ds)
  | [], _, _, _, _, _, _, _, _, _, _, _, _ => by
    simp [listsOfMembers, Fit]
  | t :: ts, ⟨ht, hts⟩, bs, bs', rest, rest', d :: ds, ds', n, hd, hl, he, hbs => by
    obtain ⟨xs', ys', d', ds', k, m, hx', hy', rfl, _⟩ := hd
    obtain ⟨xs, ys, hx, hy, rfl⟩ := emitMembers_cons.1 he
    rw [List.append_assoc, List.append_assoc] at hbs
    have hf := fit_of_denotes t ht hx' hx hbs
    have hbs' := (eq_norm_of_denotes ht hx' hx hf hbs).2
    rw [listsOfMembers]
    exact List.forall_mem_append.2 ⟨hf, fit_of_membersDenote ts hts hy' (by simpa using hl) hy hbs'⟩

end

/-! ## The bytes of vaguer types -/

mutual

theorem Fills.emit_of_holds {u t : Ty} {d : Data} {bs : List UInt8} (h : Vaguer u t) (hu : u.Holds d)
    (he : (t.emit order d).result = .ok bs) : (u.emit order d).result = .ok bs := by
  match h with
  | .refl => exact he
  | .cluster hs =>
    obtain ⟨ds, rfl, hl, hm⟩ := emit_cluster.1 he
    obtain ⟨_, ⟨⟩, hds⟩ := hu
    exact emit_cluster.2 ⟨ds, rfl, hds.length_eq, hs.emitMembers_of_allHold hds hm⟩
  | .elem h =>
    obtain ⟨g, parts, hg, hs, hp, rfl⟩ := emit_list.1 he
    obtain ⟨_, hg', hx⟩ := hu
    cases hg.symm.trans hg'
    refine emit_list.2 ⟨g, parts, hg, hs, ?_, rfl⟩
    exact ((List.forall₂_and_left _ _).2 ⟨hx, hp⟩).imp fun x p hxp => h.emit_of_holds hxp.1 hxp.2
  | .unknown _ _ =>
    obtain ⟨g, parts, hg, hs, hp, rfl⟩ := emit_list.1 he
    obtain ⟨_, hg', hl⟩ := hu
    cases hg.symm.trans hg'
    rw [hl] at hp
    cases hp
    exact emit_emptyList.2 ⟨g, hg, hs, hl, by simp⟩
  | .payload h =>
    obtain ⟨code, message, payload, tail, rfl, hm, rfl, ht⟩ := emit_error.1 he
    refine emit_error.2 ⟨code, message, payload, tail, rfl, hm, rfl, ?_⟩
    cases payload with
    | none => exact ht
    | some q =>
      obtain ⟨ys, hy, rfl⟩ := ht
      obtain ⟨_, _, _, ⟨⟩, hq⟩ := hu
      exact ⟨ys, h.emit_of_holds (hq q rfl) hy, rfl⟩

theorem FillsAll.emitMembers_of_allHold {us ts : List Ty} {ds : List Data} {bs : List UInt8} (h : AllVaguer us ts)
    (hu : AllHold us ds) (he : (emitMembers order ts ds).result = .ok bs) : (emitMembers order us ds).result = .ok bs := by
  match h, ds with
  | .nil, _ => exact he
  | .cons h hs, d :: ds =>
    obtain ⟨xs, ys, hx, hy, rfl⟩ := emitMembers_cons.1 he
    exact emitMembers_cons.2 ⟨xs, ys, h.emit_of_holds hu.1 hx, hs.emitMembers_of_allHold hu.2 hy, rfl⟩
  | .cons _ _, [] => exact hu.elim

end

end Ty

namespace Codec

/-- What a codec has flattened is unflattened to the normal form of the value, if it is unflattened at all. -/
theorem eq_norm_of_unflatten (c : Codec) {t : Ty} {d d' : Data} {bs : List UInt8} (ht : t.Dimensioned)
    (h : c.flattenAs d t = .ok bs) (h' : c.unflatten bs t = .ok d') : d' = t.norm d := by
  obtain ⟨n, _, hd⟩ := unflatten_eq_ok.1 h'
  have hbs : bs ++ [] = bs ++ [] := rfl
  have hf : Ty.Fit (t.lists d) := Ty.fit_of_denotes t ht hd h hbs
  exact (Ty.eq_norm_of_denotes ht hd h hf hbs).1

/-- A value that is flattened without hints is flattened to the same bytes after it was unflattened. Of its type nothing
changes but that elements of lists may become unknown. -/
theorem flatten_of_unflatten (c : Codec) {d d' : Data} {bs : List UInt8} {t : Ty} (h : c.flatten d [] = .ok (bs, t))
    (h' : c.unflatten bs t = .ok d') : ∃ t', c.flatten d' [] = .ok (bs, t') ∧ Ty.Vaguer t' t := by
  obtain ⟨t, hr, h⟩ := bind_eq_ok.1 h
  obtain ⟨bs, he, h⟩ := bind_eq_ok.1 h
  cases h
  obtain ⟨u, hu, hs⟩ := bind_eq_ok.1 hr
  obtain ⟨_, hi⟩ | ⟨_, hm, _⟩ := resolve_cases hu
  · have ht : t.Plain := specialize_plain (Data.infer_plain hi) hs
    have hd : t.Holds d := Ty.holds_of_emit t (Ty.Plain.unitsGiven t ht) he
    obtain rfl := c.eq_norm_of_unflatten (Ty.Plain.dimensioned t ht) he h'
    have he' : (t.emit c.order (t.norm d)).result = .ok bs := Ty.emit_norm t (Ty.Plain.dimensioned t ht) he
    have hd' : t.Holds (t.norm d) := Ty.holds_of_emit t (Ty.Plain.unitsGiven t ht) he'
    -- the type that is inferred again, and what is filled in
    obtain ⟨u', hi', hn⟩ := (Data.renews d).norm hi (Ty.specialize_fills hs).vaguer ht hd
    obtain ⟨t', hs', hn'⟩ := Ty.follows t ht hd hd' hn hs .refl
    have ht' : t'.Holds (t.norm d) := Ty.holds_of_specialize hs' hn'.right hd'
    have hr' : c.resolve (t.norm d) [] = .ok t' := bind_eq_ok.2 ⟨u', mapError_eq_ok.2 hi', hs'⟩
    exact ⟨t', bind_eq_ok.2 ⟨t', hr', bind_eq_ok.2 ⟨bs, hn'.right.emit_of_holds ht' he', rfl⟩⟩, hn'.right⟩
  · cases hm

/-- An empty array of integers in a list becomes a list without items, which could be of anything. -/
theorem flatten_of_unflatten_row :
    let d : Data := .list [.array (.int32 [])]
    let bs : List UInt8 := [0, 0, 0, 1, 0, 0, 0, 0]
    let t : Ty := .list (some .int) 2
    let d' : Data := .list [.list []]
    ({} : Codec).flatten d [] = .ok (bs, t) ∧ ({} : Codec).unflatten bs t = .ok d' ∧
      ∃ t', ({} : Codec).flatten d' [] = .ok (bs, t') ∧ Ty.Vaguer t' t := by
  intro d bs t d'
  have ht : t.Holds d := ⟨⟨[1, 0], []⟩, rfl, by simp⟩
  have hr : ({} : Codec).resolve d [] = .ok t := bind_eq_ok.2 ⟨t, rfl, specialize_of_holds t ht⟩
  have h : ({} : Codec).flatten d [] = .ok (bs, t) := bind_eq_ok.2 ⟨t, hr, rfl⟩
  have hc : ∀ i, Data.cells (([1, 0] : List Nat).take i) < 0x10000000000000000 := by
    intro i
    rcases i with _ | _ | i <;> simp
  have hd : t.Denotes .big bs d' 1 := ⟨[1, 0], [], [], rfl, by decide, hc, rfl, .nil, rfl, rfl, rfl⟩
  have h' : ({} : Codec).unflatten bs t = .ok d' := unflatten_eq_ok.2 ⟨1, by decide, hd⟩
  exact ⟨h, h', flatten_of_unflatten {} h h'⟩

end Codec

end TagWire
