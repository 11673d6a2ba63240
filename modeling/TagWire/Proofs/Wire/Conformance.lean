import TagWire.Proofs.Wire.Resolved

/-!
# Conforming values

`Ty.conforms` and `Ty.emit` look at a value under a type each in its own way, and they agree: a value whose lengths can
be written is written under a type with all its units exactly if it conforms to the type and its integers fit the words
that they stand for.
-/

namespace TagWire

/-! ## Scalars that conform -/

namespace UnitMark

theorem plainConforms_eq (u : UnitMark) : u.plainConforms = u.labelConforms "" := by
  cases u <;> simp [plainConforms, labelConforms, ofLabel]

theorem labelConforms_iff {u : UnitMark} {l : String} (hu : u ≠ .unspecified) :
    u.labelConforms l = true ↔ u = .ofLabel l := by
  simp [labelConforms, hu]

end UnitMark

namespace Ty

variable {t u v : Ty} {d x y : Data}

theorem conforms_none : none.conforms d = true ↔ d = .none := by
  cases d <;> simp [conforms]

theorem conforms_bool : bool.conforms d = true ↔ ∃ b, d = .bool b := by
  cases d <;> simp [conforms]

theorem conforms_integer (ht : t = int ∨ t = word) : t.conforms d = true ↔ ∃ n, d.integer? = some n := by
  rcases ht with rfl | rfl <;> rw [conforms, Option.isSome_iff_exists]

theorem conforms_str : str.conforms d = true ↔ ∃ xs, d.bytes? = some xs := by
  cases d <;> simp [conforms, Data.bytes?]

theorem conforms_time : time.conforms d = true ↔ ∃ i, d = .time i := by
  cases d <;> simp [conforms]

theorem conforms_value {u : UnitMark} :
    (value u).conforms d = true ↔ ∃ x l, d.real? = some (x, l) ∧ u.labelConforms l = true := by
  cases d <;> simp [conforms, Data.real?, UnitMark.plainConforms_eq]

theorem conforms_complex {u : UnitMark} :
    (complex u).conforms d = true ↔ ∃ z l, d.complex? = some (z, l) ∧ u.labelConforms l = true := by
  cases d <;> simp [conforms, Data.complex?, Data.real?, UnitMark.plainConforms_eq]

theorem conforms_bareError : (error .none).conforms d = true ↔ ∃ code message, d = .error code message Option.none := by
  cases d with
  | error _ _ payload => cases payload <;> simp [conforms]
  | _ => simp [conforms]

/-! ## Integers -/

/-- The integers of a value that stand for signed words and those that stand for unsigned words fit them. -/
structure IntegersFit (t : Ty) (d : Data) : Prop where
  int : ∀ x n, Faces t d int x → x.integer? = some n → -0x80000000 ≤ n ∧ n < 0x80000000
  word : ∀ x n, Faces t d word x → x.integer? = some n → 0 ≤ n ∧ n < 0x100000000

theorem Faces.trans (h : Faces t d u x) (h' : Faces u x v y) : Faces t d v y := by
  induction h with
  | self => exact h'
  | member hl hm _ ih => exact .member hl hm (ih h')
  | leaf hg hy _ ih => exact .leaf hg hy (ih h')
  | payload _ ih => exact .payload (ih h')

theorem IntegersFit.part (h : IntegersFit t d) (hf : Faces t d u x) : IntegersFit u x where
  int y n hy := h.int y n (hf.trans hy)
  word y n hy := h.word y n (hf.trans hy)

/-! ## Conforming and holding -/

theorem AllHold.member : ∀ {ts : List Ty} {ds : List Data}, AllHold ts ds → (t, d) ∈ ts.zip ds → t.Holds d
  | u :: us, x :: xs, h, hm => by
    rcases List.mem_cons.1 hm with he | hm
    · cases he
      exact h.1
    · exact AllHold.member h.2 hm
  | [], _, _, hm => by simp at hm
  | _ :: _, [], _, hm => by simp at hm

theorem Faces.holds (hf : Faces t d u x) (h : t.Holds d) : u.Holds x := by
  induction hf with
  | self => exact h
  | member _ hm _ ih =>
    obtain ⟨_, ⟨⟩, hds⟩ := h
    exact ih (hds.member hm)
  | leaf hg hy _ ih =>
    obtain ⟨_, hg', hx⟩ := h
    cases hg.symm.trans hg'
    exact ih (hx _ hy)
  | payload _ ih =>
    obtain ⟨_, _, _, ⟨⟩, hq⟩ := h
    exact ih (hq _ rfl)

theorem Holds.integersFit (h : t.Holds d) : t.IntegersFit d where
  int x n hf hn := by
    obtain ⟨_, hn', hr⟩ := hf.holds h
    cases hn.symm.trans hn'
    exact hr
  word x n hf hn := by
    obtain ⟨_, hn', hr⟩ := hf.holds h
    cases hn.symm.trans hn'
    exact hr

mutual

/-- Conforming is being of the type, apart from the size of integers. -/
theorem holds_of_conforms : (t : Ty) → t.UnitsGiven → ∀ {d}, t.conforms d = true → t.IntegersFit d → t.Holds d
  | none, _, d, h, _ => conforms_none.1 h
  | bool, _, d, h, _ => conforms_bool.1 h
  | int, _, d, h, hi => by
    obtain ⟨n, hn⟩ := (conforms_integer (.inl rfl)).1 h
    exact ⟨n, hn, hi.int d n .self hn⟩
  | word, _, d, h, hi => by
    obtain ⟨n, hn⟩ := (conforms_integer (.inr rfl)).1 h
    exact ⟨n, hn, hi.word d n .self hn⟩
  | str, _, d, h, _ => conforms_str.1 h
  | time, _, d, h, _ => conforms_time.1 h
  | value u, hu, d, h, _ => by
    obtain ⟨x, l, hx, hl⟩ := conforms_value.1 h
    exact ⟨x, l, hx, (UnitMark.labelConforms_iff hu.1).1 hl⟩
  | complex u, hu, d, h, _ => by
    obtain ⟨z, l, hz, hl⟩ := conforms_complex.1 h
    exact ⟨z, l, hz, (UnitMark.labelConforms_iff hu.1).1 hl⟩
  | cluster ts, hu, d, h, hi => by
    obtain ⟨ds, rfl, hds⟩ := conforms_cluster.1 h
    have hl := length_eq_of_allConform hds
    exact ⟨ds, rfl, allHold_of_allConform ts hu hds fun hm => hi.part (.member hl hm .self)⟩
  | list (some e) depth, hu, d, h, hi => by
    obtain ⟨g, hg, hx⟩ := conforms_list.1 h
    exact ⟨g, hg, fun x hxg => holds_of_conforms e hu (hx x hxg) (hi.part (.leaf hg hxg .self))⟩
  | list .none depth, _, d, h, _ => conforms_emptyList.1 h
  | error (some p), hu, d, h, hi => by
    obtain ⟨code, message, payload, rfl, hq⟩ := conforms_error.1 h
    refine ⟨code, message, payload, rfl, ?_⟩
    rintro q rfl
    exact holds_of_conforms p hu (hq q rfl) (hi.part (.payload .self))
  | error .none, _, d, h, _ => conforms_bareError.1 h

theorem allHold_of_allConform : (ts : List Ty) → AllUnitsGiven ts → ∀ {ds}, allConform ts ds = true →
    (∀ {t x}, (t, x) ∈ ts.zip ds → t.IntegersFit x) → AllHold ts ds
  | [], _, [], _, _ => trivial
  | [], _, _ :: _, h, _ => by cases h
  | t :: ts, ⟨hu, hus⟩, ds, h, hi => by
    obtain ⟨x, xs, rfl, hx, hxs⟩ := allConform_cons.1 h
    refine ⟨holds_of_conforms t hu hx (hi List.mem_cons_self), allHold_of_allConform ts hus hxs fun hm => ?_⟩
    exact hi (List.mem_cons_of_mem _ hm)

end

theorem holds_iff_conforms (hu : t.UnitsGiven) : t.Holds d ↔ t.conforms d = true ∧ t.IntegersFit d :=
  ⟨fun h => ⟨h.conforms, h.integersFit⟩, fun h => holds_of_conforms t hu h.1 h.2⟩

end Ty

namespace Codec

/-- A value is written under a type exactly if it conforms to the type and its integers fit. -/
theorem flattenAs_iff_conforms (c : Codec) {d : Data} {t : Ty} (hd : d.Sized) (ht : t.UnitsGiven) :
    (∃ bytes, c.flattenAs d t = .ok bytes) ↔ t.conforms d = true ∧ t.IntegersFit d := by
  rw [← Ty.holds_iff_conforms ht]
  constructor
  · rintro ⟨bytes, h⟩
    exact Ty.holds_of_emit t ht h
  · intro h
    exact h.emit t hd

/-- A negative integer conforms to a type that has an unsigned word for it, and is not written under it. -/
theorem flattenAs_iff_conforms_negative :
    let t : Ty := .list (some (.cluster [.word, .complex (.named "m"), .error (some .int)])) 1
    let row (n : Int64) : Data := .list [.tuple [.int n, .value default "m", .error 4 "y" none]]
    t.UnitsGiven ∧ (∀ n, (row n).Sized ∧ t.conforms (row n) = true) ∧
      (t.IntegersFit (row 7) ∧ ∃ bytes, ({} : Codec).flattenAs (row 7) t = .ok bytes) ∧
      (¬ t.IntegersFit (row (-1)) ∧ ¬ ∃ bytes, ({} : Codec).flattenAs (row (-1)) t = .ok bytes) := by
  intro t row
  have ht : t.UnitsGiven := ⟨trivial, ⟨by decide, by decide⟩, trivial, trivial⟩
  have hy : (Utf8.encode "y").length < 0x100000000 := by decide
  have hs : ∀ n, (row n).Sized := fun n => ⟨Nat.succ_lt_succ (Nat.zero_lt_succ _), ⟨trivial, trivial, hy, trivial⟩, trivial⟩
  have hc : ∀ n, t.conforms (row n) = true := fun _ => rfl
  have hfit : t.IntegersFit (row 7) := by
    refine Ty.Holds.integersFit ⟨_, rfl, fun x hx => ?_⟩
    obtain rfl := List.mem_singleton.1 hx
    refine ⟨_, rfl, ⟨7, rfl, by decide⟩, ⟨_, _, rfl, rfl⟩, ⟨4, "y", none, rfl, fun _ hq => by cases hq⟩, trivial⟩
  have hunfit : ¬ t.IntegersFit (row (-1)) := fun h =>
    absurd (h.word (.int (-1)) (-1) (.leaf rfl (.head _) (.member rfl (.head _) .self)) rfl).1 (by decide)
  refine ⟨ht, fun n => ⟨hs n, hc n⟩, ⟨hfit, ?_⟩, hunfit, ?_⟩
  · exact (flattenAs_iff_conforms {} (hs 7) ht).2 ⟨hc 7, hfit⟩
  · exact fun h => hunfit ((flattenAs_iff_conforms {} (hs (-1)) ht).1 h).2

end Codec

end TagWire
