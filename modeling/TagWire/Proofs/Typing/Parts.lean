import TagWire.Proofs.Typing.Completeness
import TagWire.Proofs.Wire.Normal

/-!
# The parts of resolved types

A type that data gets on its own has the units of the data and lists with dimensions. What a hint fills in without data
has no unit left open.
-/

namespace TagWire

namespace Ty

mutual

/-- All marks in a type and all numbers of dimensions are of some kinds. -/
def Every (p : UnitMark → Prop) (q : Nat → Prop) : Ty → Prop
  | value u | complex u => p u
  | cluster ts => AllEvery p q ts
  | list (some e) depth => q depth ∧ e.Every p q
  | list .none depth => q depth
  | error (some x) => x.Every p q
  | _ => True

def AllEvery (p : UnitMark → Prop) (q : Nat → Prop) : List Ty → Prop
  | [] => True
  | t :: ts => t.Every p q ∧ AllEvery p q ts

end

variable {p : UnitMark → Prop} {q : Nat → Prop}

theorem every_error {x : Ty} : (error (some x)).Every p q ↔ x.Every p q := Iff.rfl

theorem allEvery_iff {ts : List Ty} : AllEvery p q ts ↔ ∀ t ∈ ts, t.Every p q := by
  induction ts with
  | nil => simp [AllEvery]
  | cons t ts ih => rw [AllEvery, ih, List.forall_mem_cons]

/-- The type of a value of its own: its units are given, and its lists have dimensions. -/
abbrev Plain : Ty → Prop := Every (fun u => u ≠ .unspecified ∧ u ≠ .named "") (1 ≤ ·)

abbrev AllPlain : List Ty → Prop := AllEvery (fun u => u ≠ .unspecified ∧ u ≠ .named "") (1 ≤ ·)

mutual

theorem Plain.unitsGiven : (t : Ty) → t.Plain → t.UnitsGiven
  | value _, h | complex _, h => h
  | cluster ts, h => AllPlain.unitsGiven ts h
  | list (some e) _, h => Plain.unitsGiven e h.2
  | error (some x), h => Plain.unitsGiven x h
  | none, _ | bool, _ | int, _ | word, _ | str, _ | time, _ | list .none _, _ | error .none, _ => trivial

theorem AllPlain.unitsGiven : (ts : List Ty) → AllPlain ts → AllUnitsGiven ts
  | [], _ => trivial
  | t :: ts, ⟨h, hs⟩ => ⟨Plain.unitsGiven t h, AllPlain.unitsGiven ts hs⟩

end

mutual

theorem Plain.dimensioned : (t : Ty) → t.Plain → t.Dimensioned
  | cluster ts, h => AllPlain.dimensioned ts h
  | list (some e) _, h => ⟨h.1, Plain.dimensioned e h.2⟩
  | list .none _, h => h
  | error (some x), h => Plain.dimensioned x h
  | none, _ | bool, _ | int, _ | word, _ | str, _ | time, _ | value _, _ | complex _, _ | error .none, _ => trivial

theorem AllPlain.dimensioned : (ts : List Ty) → AllPlain ts → AllDimensioned ts
  | [], _ => trivial
  | t :: ts, ⟨h, hs⟩ => ⟨Plain.dimensioned t h, AllPlain.dimensioned ts hs⟩

end

theorem Every.listAround (h₁ : q 1) (hs : ∀ k, q k → q (k + 1)) {t : Ty} (h : t.Every p q) :
    t.listAround.Every p q := by
  unfold Ty.listAround
  split
  · rename_i elem depth
    split
    · cases elem with
      | none => exact hs depth h
      | some e => exact ⟨hs depth h.1, h.2⟩
    · exact ⟨h₁, h⟩
  · exact ⟨h₁, h⟩

mutual

theorem Fills.every {start : Ty → Prop} {a b : Ty} (h : Fills start False a b) (hs : ∀ t, start t → t.Every p q)
    (ha : a.Every p q) : b.Every p q := by
  match h with
  | .refl => exact ha
  | .cluster h => exact h.allEvery hs ha
  | .elem h => exact ⟨ha.1, h.every hs ha.2⟩
  | .unknown ht h => exact ⟨ha, h.every hs (hs _ ht)⟩
  | .payload h => exact every_error.2 (h.every hs ha)
  | .bare hf => exact hf.elim

theorem FillsAll.allEvery {start : Ty → Prop} {as bs : List Ty} (h : FillsAll start False as bs)
    (hs : ∀ t, start t → t.Every p q) (ha : AllEvery p q as) : AllEvery p q bs := by
  match h with
  | .nil => exact ha
  | .cons h h' => exact ⟨h.every hs ha.1, h'.allEvery hs ha.2⟩

end

mutual

theorem Joins.every {a b c : Ty} (h : Joins a b c) (ha : a.Every p q) (hb : b.Every p q) : c.Every p q := by
  match h with
  | .refl => exact ha
  | .cluster hs => exact hs.allEvery ha hb
  | .elem h => exact ⟨ha.1, h.every ha.2 hb.2⟩
  | .payload h => exact every_error.2 (h.every ha hb)
  | .unknownLeft => exact hb
  | .unknownRight => exact ha
  | .bareLeft => exact hb
  | .bareRight => exact ha

theorem JoinsAll.allEvery {as bs cs : List Ty} (h : JoinsAll as bs cs) (ha : AllEvery p q as) (hb : AllEvery p q bs) :
    AllEvery p q cs := by
  match h with
  | .nil => exact ha
  | .cons h hs => exact ⟨h.every ha.1 hb.1, hs.allEvery ha.2 hb.2⟩

end

end Ty

/-! ## Types of data -/

theorem UnitMark.ofLabel_ne (l : String) : ofLabel l ≠ .unspecified ∧ ofLabel l ≠ .named "" := by
  unfold ofLabel
  by_cases h : l = ""
  · rw [if_pos h]
    exact ⟨nofun, nofun⟩
  · rw [if_neg h]
    refine ⟨nofun, fun hn => h ?_⟩
    cases hn
    rfl

section

variable {p : UnitMark → Prop} {q : Nat → Prop}

mutual

theorem Data.infer_every (hp : ∀ l, p (.ofLabel l)) (h₁ : q 1) (hs : ∀ k, q k → q (k + 1)) :
    {d : Data} → {t : Ty} → d.infer = .ok t → t.Every p q
  | .tuple (d :: ds), t, h => by
    obtain ⟨ts, hts, _, rfl⟩ := infer_tuple.1 h
    exact Data.inferAll_every hp h₁ hs hts
  | .list (d :: ds), t, h => by
    obtain ⟨u, hu, rfl⟩ := infer_list.1 h
    exact (Data.infer_every hp h₁ hs hu).listAround h₁ hs
  | .error _ _ (some x), t, h => by
    obtain ⟨u, hu, rfl⟩ := infer_payload.1 h
    exact Ty.every_error.2 (Data.infer_every hp h₁ hs hu)
  | .tuple [], t, h => by cases h
  | .array a, t, h => by
    cases h
    cases a <;> refine ⟨h₁, ?_⟩ <;> first | trivial | exact hp ""
  | .int n, t, h => by
    rw [infer] at h
    split at h <;> cases h <;> trivial
  | .valueArray _ l, t, h => by
    cases h
    exact ⟨h₁, hp l⟩
  | .value _ l, t, h | .complexValue _ l, t, h => by
    cases h
    exact hp l
  | .float _, t, h | .complex _, t, h => by
    cases h
    exact hp ""
  | .list [], t, h => by
    cases h
    exact h₁
  | .none, t, h | .bool _, t, h | .word _, t, h | .bytes _, t, h | .text _, t, h | .time _, t, h
  | .error _ _ .none, t, h => by
    cases h
    trivial

theorem Data.inferAll_every (hp : ∀ l, p (.ofLabel l)) (h₁ : q 1) (hs : ∀ k, q k → q (k + 1)) :
    {ds : List Data} → {ts : List Ty} → Data.inferAll ds = .ok ts → Ty.AllEvery p q ts
  | [], ts, h => by
    cases h
    trivial
  | d :: ds, ts, h => by
    obtain ⟨u, us, hu, hus, rfl⟩ := inferAll_cons.1 h
    exact ⟨Data.infer_every hp h₁ hs hu, Data.inferAll_every hp h₁ hs hus⟩

end

/-- Whatever is filled in is from data. -/
theorem specialize_every (hp : ∀ l, p (.ofLabel l)) (h₁ : q 1) (hs : ∀ k, q k → q (k + 1)) {d : Data} {t t' : Ty}
    (ht : t.Every p q) (h : specialize d t = .ok t') : t'.Every p q :=
  (Ty.specialize_fills h).every (fun _ ⟨_, hi⟩ => Data.infer_every hp h₁ hs hi) ht

end

theorem Data.infer_plain {d : Data} {t : Ty} (h : d.infer = .ok t) : t.Plain :=
  Data.infer_every UnitMark.ofLabel_ne (Nat.le_refl 1) (fun k _ => Nat.le_add_left 1 k) h

theorem specialize_plain {d : Data} {t t' : Ty} (ht : t.Plain) (h : specialize d t = .ok t') : t'.Plain :=
  specialize_every UnitMark.ofLabel_ne (Nat.le_refl 1) (fun k _ => Nat.le_add_left 1 k) ht h

/-! ## Types under hints -/

/-- No unit is left open. -/
abbrev Ty.UnitsKnown : Ty → Prop := Every (· ≠ .unspecified) fun _ => True

abbrev Ty.AllUnitsKnown : List Ty → Prop := AllEvery (· ≠ .unspecified) fun _ => True

theorem Data.infer_unitsKnown {d : Data} {t : Ty} (h : d.infer = .ok t) : t.UnitsKnown :=
  Data.infer_every (fun l => (UnitMark.ofLabel_ne l).1) trivial (fun _ _ => trivial) h

theorem specialize_unitsKnown {d : Data} {t t' : Ty} (ht : t.UnitsKnown) (h : specialize d t = .ok t') : t'.UnitsKnown :=
  specialize_every (fun l => (UnitMark.ofLabel_ne l).1) trivial (fun _ _ => trivial) ht h

namespace Hint

mutual

theorem withoutData?_unitsKnown : (h : Hint) → ∀ {t}, h.withoutData? = some t → t.UnitsKnown
  | value u, t, h | complex u, t, h => by
    cases u <;> cases h <;> exact nofun
  | cluster ms, t, h => by
    rw [withoutData?, Option.map_eq_some_iff] at h
    obtain ⟨ts, hts, rfl⟩ := h
    exact withoutDatas?_unitsKnown ms hts
  | list (some e) depth, t, h => by
    rw [withoutData?] at h
    cases h
    cases he : e.withoutData? with
    | none => trivial
    | some u => exact ⟨trivial, withoutData?_unitsKnown e he⟩
  | error (some x), t, h => by
    rw [withoutData?, Option.map_eq_some_iff] at h
    obtain ⟨u, hu, rfl⟩ := h
    exact Ty.every_error.2 (withoutData?_unitsKnown x hu)
  | none, t, h | bool, t, h | int, t, h | word, t, h | str, t, h | time, t, h | list .none _, t, h
  | error .none, t, h => by
    cases h
    trivial
  | wildcard, t, h => by cases h

theorem withoutDatas?_unitsKnown : (hs : List Hint) → ∀ {ts}, withoutDatas? hs = some ts → Ty.AllUnitsKnown ts
  | [], ts, h => by
    cases h
    trivial
  | m :: ms, ts, h => by
    rw [withoutDatas?] at h
    split at h
    · rename_i u us hu hus
      cases h
      exact ⟨withoutData?_unitsKnown m hu, withoutDatas?_unitsKnown ms hus⟩
    · cases h

end

end Hint

namespace Ty

theorem fillFrom_unitsKnown_all : (∀ t h, t.UnitsKnown → (fillFrom t h).UnitsKnown) ∧
    (∀ ts hs, AllUnitsKnown ts → AllUnitsKnown (fillAllFrom ts hs)) := by
  apply fillFrom_induction
  case unknown =>
    intro depth h _ _
    rw [fillFrom]
    -- elements that the hint does not know either stay unknown
    cases he : h.withoutData? with
    | none => trivial
    | some u => exact ⟨trivial, h.withoutData?_unitsKnown he⟩
  case elem =>
    intro t depth h _ ih ht
    exact ⟨trivial, ih ht.2⟩
  case cluster =>
    intro ts hs hl ih ht
    rw [fillFrom, if_pos hl]
    exact ih ht
  case bareError =>
    intro h _
    rw [fillFrom]
    cases he : h.withoutData? with
    | none => trivial
    | some u => exact every_error.2 (h.withoutData?_unitsKnown he)
  case payload =>
    intro t h ih ht
    exact ih ht
  case unchanged =>
    intro t h he ht
    rwa [he]
  case cons =>
    intro t ts h hs ih ihs ht
    exact ⟨ih ht.1, ihs ht.2⟩
  case uneven =>
    intro ts hs he ht
    rwa [he]

end Ty

namespace Hint

variable {units : Units}

mutual

theorem fit_unitsKnown : (h : Hint) → ∀ {d t}, h.fit units d = .ok t → t.UnitsKnown
  | wildcard, d, t, h => by
    exact Data.infer_unitsKnown (fit_wildcard.1 h)
  | value u, d, t, h => by
    obtain ⟨x, l, m, _, hm, rfl⟩ := fit_value.1 h
    exact UnitMark.ofData_eq_ok hm ▸ (UnitMark.ofLabel_ne l).1
  | complex u, d, t, h => by
    obtain ⟨z, l, m, _, hm, rfl⟩ := fit_complex.1 h
    exact UnitMark.ofData_eq_ok hm ▸ (UnitMark.ofLabel_ne l).1
  | cluster hs, d, t, h => by
    obtain ⟨ds, ts, rfl, _, hts, rfl⟩ := fit_cluster.1 h
    exact fitAll_unitsKnown hs hts
  | list (some e) depth, d, t, h => by
    obtain ⟨g, r, _, hr, rfl⟩ := fit_list.1 h
    have hs := joinItems_preserves (P := Ty.UnitsKnown) (fun ha hb hu => (Ty.unify_joins hu).every ha hb)
      (fun x _ u hu => fit_unitsKnown e hu) (fun _ hn => by cases hn) hr
    cases r with
    | none => trivial
    | some u => exact ⟨trivial, hs u rfl⟩
  | list .none depth, d, t, h => by
    obtain ⟨_, _, _, rfl⟩ := fit_emptyList.1 h
    trivial
  | error (some x), d, t, h => by
    obtain ⟨_, _, ⟨_, rfl⟩ | ⟨_, u, _, hu, rfl⟩⟩ := fit_error.1 h
    · trivial
    · exact Ty.every_error.2 (fit_unitsKnown x hu)
  | error .none, d, t, h => by
    obtain ⟨_, _, _, rfl⟩ := fit_bareError.1 h
    trivial
  | none, d, t, h => (fit_none.1 h).2 ▸ trivial
  | bool, d, t, h => (fit_bool.1 h).2 ▸ trivial
  | int, d, t, h => (fit_int.1 h).2 ▸ trivial
  | word, d, t, h => (fit_word.1 h).2 ▸ trivial
  | str, d, t, h => (fit_str.1 h).2 ▸ trivial
  | time, d, t, h => (fit_time.1 h).2 ▸ trivial

theorem fitAll_unitsKnown : (hs : List Hint) → ∀ {ds ts}, fitAll units hs ds = .ok ts → Ty.AllUnitsKnown ts
  | m :: ms, d :: ds, ts, h => by
    obtain ⟨u, us, hu, hus, rfl⟩ := fitAll_cons.1 h
    exact ⟨fit_unitsKnown m hu, fitAll_unitsKnown ms hus⟩
  | [], ds, ts, h => by
    rw [fitAll] at h
    · cases h
      trivial
    · simp
  | m :: ms, [], ts, h => by
    rw [fitAll] at h
    · cases h
      trivial
    · simp

end

end Hint

/-- No unit is left open in a type that hints give a value. -/
theorem resolve_unitsKnown {units : Units} {d : Data} {hs : List Hint} {t : Ty} (h : resolve units d hs = .ok t) :
    t.UnitsKnown := by
  rcases resolve_cases h with ⟨_, hi⟩ | ⟨x, _, ha⟩
  · exact Data.infer_unitsKnown hi
  · obtain ⟨u, hu, rfl, _⟩ := Hint.accept_eq_ok.1 ha
    exact Ty.fillFrom_unitsKnown_all.1 u x (x.fit_unitsKnown hu)

end TagWire
