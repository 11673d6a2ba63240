import TagWire.Proofs.Data.Grid
import TagWire.Proofs.Tag.Language
import TagWire.Proofs.Typing.Ambiguity
import TagWire.Proofs.Typing.Joining

/-!
# Resolved types as text

A type that a value gets, from its own labels or from hints that were read from tags, can be spelled. Its tag is
read back as the type itself, unless one of its lists has empty elements.
-/

namespace TagWire

/-! ## Data with plain labels -/

namespace Data

mutual

/-- All labels of units in a value are plain. -/
def PlainLabels : Data → Prop
  | value _ l | complexValue _ l | valueArray _ l => PlainLabel l
  | tuple ds | list ds => AllPlainLabels ds
  | error _ _ (some p) => p.PlainLabels
  | _ => True

def AllPlainLabels : List Data → Prop
  | [] => True
  | d :: ds => d.PlainLabels ∧ AllPlainLabels ds

end

theorem allPlainLabels_iff {ds : List Data} : AllPlainLabels ds ↔ ∀ d ∈ ds, d.PlainLabels := by
  induction ds with
  | nil => simp [AllPlainLabels]
  | cons d ds ih => rw [AllPlainLabels, ih, List.forall_mem_cons]

theorem plainLabels_item {a : NumArray} {x : Data} (h : x ∈ a.items) : x.PlainLabels := by
  cases a <;> obtain ⟨_, _, rfl⟩ := List.mem_map.1 h <;> trivial

theorem passesOn_plainLabels : PassesOn PlainLabels fun _ => True := by
  intro d items hi hd
  refine ⟨trivial, fun x hx => ?_⟩
  cases d with
  | list ds =>
    cases hi
    exact allPlainLabels_iff.1 hd x hx
  | array a =>
    cases hi
    exact plainLabels_item hx
  | valueArray xs l =>
    cases hi
    obtain ⟨_, _, rfl⟩ := List.mem_map.1 hx
    exact hd
  | _ => cases hi

theorem PlainLabels.leaves {d : Data} {depth : Nat} {g : Grid} (hd : d.PlainLabels) (h : d.grid depth = .ok g) :
    ∀ x ∈ g.leaves, x.PlainLabels :=
  (consists_grid (q := fun _ => True) passesOn_plainLabels trivial hd h).leaves

theorem PlainLabel.empty : PlainLabel "" := ⟨by simp, by simp, by simp, by simp⟩

theorem PlainLabels.real? {d : Data} {x : Double} {l : String} (hd : d.PlainLabels) (h : d.real? = some (x, l)) :
    PlainLabel l := by
  cases d <;> cases h <;> first | exact hd | exact PlainLabel.empty

theorem PlainLabels.complex? {d : Data} {z : Complex} {l : String} (hd : d.PlainLabels)
    (h : d.complex? = some (z, l)) : PlainLabel l := by
  cases d <;> cases h <;> first | exact hd | exact PlainLabel.empty

end Data

/-! ## Types of data -/

namespace Ty

theorem spelled_error {p : Ty} : (error (some p)).Spelled ↔ p.Spelled := Iff.rfl

theorem Spelled.listOf {t : Ty} (h : t.Spelled) : (listOf t).Spelled := ⟨by decide, h⟩

theorem Spelled.depth {e : Option Ty} {depth : Nat} (h : (list e depth).Spelled) : 1 ≤ depth ∧ depth ≤ 9 := by
  cases e with
  | none => exact h
  | some e => exact h.1

theorem Spelled.listAround {t : Ty} (h : t.Spelled) : t.listAround.Spelled := by
  unfold Ty.listAround
  split
  · rename_i e depth
    split
    · have hd := h.depth
      cases e with
      | none => exact ⟨by omega, by omega⟩
      | some e => exact ⟨⟨by omega, by omega⟩, h.2⟩
    · exact h.listOf
  · exact h.listOf

end Ty

mutual

theorem Data.infer_spelled : {d : Data} → {t : Ty} → d.PlainLabels → d.infer = .ok t → t.Spelled
  | .tuple (d :: ds), t, hd, h => by
    obtain ⟨ts, hts, _, rfl⟩ := infer_tuple.1 h
    refine ⟨?_, Data.inferAll_spelled hd hts⟩
    obtain ⟨u, us, _, _, rfl⟩ := inferAll_cons.1 hts
    exact List.cons_ne_nil _ _
  | .list (d :: ds), t, hd, h => by
    obtain ⟨u, hu, rfl⟩ := infer_list.1 h
    exact (Data.infer_spelled hd.1 hu).listAround
  | .error _ _ (some p), t, hd, h => by
    obtain ⟨u, hu, rfl⟩ := infer_payload.1 h
    exact Ty.spelled_error.2 (Data.infer_spelled (d := p) hd hu)
  | .tuple [], t, _, h => by cases h
  | .array a, t, _, h => by
    cases h
    cases a <;> exact Ty.Spelled.listOf trivial
  | .int n, t, _, h => by
    rw [infer] at h
    split at h <;> cases h <;> trivial
  | .value _ l, t, hd, h | .complexValue _ l, t, hd, h => by
    cases h
    exact UnitMark.spelled_ofLabel hd
  | .valueArray _ l, t, hd, h => by
    cases h
    exact Ty.Spelled.listOf (UnitMark.spelled_ofLabel hd)
  | .list [], t, _, h => by
    cases h
    exact ⟨by decide, by decide⟩
  | .none, t, _, h | .bool _, t, _, h | .word _, t, _, h | .bytes _, t, _, h | .text _, t, _, h | .time _, t, _, h
  | .float _, t, _, h | .complex _, t, _, h | .error _ _ .none, t, _, h => by
    cases h
    trivial

theorem Data.inferAll_spelled : {ds : List Data} → {ts : List Ty} → Data.AllPlainLabels ds →
    Data.inferAll ds = .ok ts → Ty.AllSpelled ts
  | [], ts, _, h => by
    cases h
    trivial
  | d :: ds, ts, hd, h => by
    obtain ⟨u, us, hu, hus, rfl⟩ := inferAll_cons.1 h
    exact ⟨Data.infer_spelled hd.1 hu, Data.inferAll_spelled hd.2 hus⟩

end

/-! ## Types under hints -/

namespace Ty

mutual

theorem Joins.spelled {a b c : Ty} (h : Joins a b c) (ha : a.Spelled) (hb : b.Spelled) : c.Spelled := by
  match h with
  | .refl => exact ha
  | .cluster hs =>
    refine ⟨?_, hs.allSpelled ha.2 hb.2⟩
    cases hs with
    | nil => exact ha.1
    | cons _ _ => exact List.cons_ne_nil _ _
  | .elem h => exact ⟨ha.1, h.spelled ha.2 hb.2⟩
  | .payload h => exact spelled_error.2 (h.spelled ha hb)
  | .unknownLeft => exact hb
  | .unknownRight => exact ha
  | .bareLeft => exact hb
  | .bareRight => exact ha

theorem JoinsAll.allSpelled {as bs cs : List Ty} (h : JoinsAll as bs cs) (ha : AllSpelled as) (hb : AllSpelled bs) :
    AllSpelled cs := by
  match h with
  | .nil => exact ha
  | .cons h hs => exact ⟨h.spelled ha.1 hb.1, hs.allSpelled ha.2 hb.2⟩

end

end Ty

namespace Hint

mutual

theorem withoutData?_spelled : (h : Hint) → ∀ {t}, h.Spelled → h.withoutData? = some t → t.Spelled
  | cluster ms, t, hh, h => by
    rw [withoutData?, Option.map_eq_some_iff] at h
    obtain ⟨ts, hts, rfl⟩ := h
    obtain ⟨hl, hs⟩ := withoutDatas?_spelled ms hh.2 hts
    refine ⟨fun hn => hh.1 ?_, hs⟩
    cases ts with
    | nil => exact List.eq_nil_of_length_eq_zero hl.symm
    | cons t ts => cases hn
  | list (some e) depth, t, hh, h => by
    rw [withoutData?] at h
    cases h
    cases he : e.withoutData? with
    | none => exact hh.1
    | some u => exact ⟨hh.1, withoutData?_spelled e hh.2 he⟩
  | error (some p), t, hh, h => by
    rw [withoutData?, Option.map_eq_some_iff] at h
    obtain ⟨u, hu, rfl⟩ := h
    exact Ty.spelled_error.2 (withoutData?_spelled p hh hu)
  | value u, t, hh, h | complex u, t, hh, h => by
    cases u <;> cases h <;> exact hh
  | list .none depth, t, hh, h => by
    cases h
    exact hh
  | none, t, _, h | bool, t, _, h | int, t, _, h | word, t, _, h | str, t, _, h | time, t, _, h
  | error .none, t, _, h => by
    cases h
    trivial
  | wildcard, t, _, h => by cases h

theorem withoutDatas?_spelled : (hs : List Hint) → ∀ {ts}, AllSpelled hs → withoutDatas? hs = some ts →
    ts.length = hs.length ∧ Ty.AllSpelled ts
  | [], ts, _, h => by
    cases h
    exact ⟨rfl, trivial⟩
  | m :: ms, ts, hh, h => by
    rw [withoutDatas?] at h
    split at h
    · rename_i u us hu hus
      cases h
      obtain ⟨hl, hs⟩ := withoutDatas?_spelled ms hh.2 hus
      exact ⟨by rw [List.length_cons, List.length_cons, hl], withoutData?_spelled m hh.1 hu, hs⟩
    · cases h

end

end Hint

namespace Ty

theorem fillFrom_spelled_all : (∀ t h, t.Spelled → h.Spelled → (fillFrom t h).Spelled) ∧
    (∀ ts hs, AllSpelled ts → Hint.AllSpelled hs → AllSpelled (fillAllFrom ts hs)) := by
  apply fillFrom_induction
  case unknown =>
    intro depth h _ ht hh
    rw [fillFrom]
    cases he : h.withoutData? with
    | none => exact ht
    | some u => exact ⟨ht, h.withoutData?_spelled hh.2 he⟩
  case elem =>
    intro t depth h _ ih ht hh
    exact ⟨ht.1, ih ht.2 hh.2⟩
  case cluster =>
    intro ts hs hl ih ht hh
    rw [fillFrom, if_pos hl]
    refine ⟨?_, ih ht.2 hh.2⟩
    cases ts with
    | nil => exact absurd rfl ht.1
    | cons t ts =>
      cases hs with
      | nil => cases hl
      | cons h hs => exact List.cons_ne_nil _ _
  case bareError =>
    intro h _ hh
    rw [fillFrom]
    cases he : h.withoutData? with
    | none => trivial
    | some u => exact spelled_error.2 (h.withoutData?_spelled hh he)
  case payload =>
    intro t h ih ht hh
    exact spelled_error.2 (ih ht hh)
  case unchanged =>
    intro t h he ht _
    rwa [he]
  case cons =>
    intro t ts h hs ih ihs ht hh
    exact ⟨ih ht.1 hh.1, ihs ht.2 hh.2⟩
  case uneven =>
    intro ts hs he ht _
    rwa [he]

theorem Spelled.fillFrom {t : Ty} {h : Hint} (ht : t.Spelled) (hh : h.Spelled) : (t.fillFrom h).Spelled :=
  fillFrom_spelled_all.1 t h ht hh

end Ty

namespace Hint

variable {units : Units}

mutual

theorem fit_spelled : (h : Hint) → ∀ {d t}, h.Spelled → d.PlainLabels → h.fit units d = .ok t → t.Spelled
  | wildcard, d, t, _, hd, h => by
    exact Data.infer_spelled hd (fit_wildcard.1 h)
  | value u, d, t, _, hd, h => by
    obtain ⟨x, l, m, hr, hm, rfl⟩ := fit_value.1 h
    rw [UnitMark.ofData_eq_ok hm]
    exact UnitMark.spelled_ofLabel (hd.real? hr)
  | complex u, d, t, _, hd, h => by
    obtain ⟨z, l, m, hr, hm, rfl⟩ := fit_complex.1 h
    rw [UnitMark.ofData_eq_ok hm]
    exact UnitMark.spelled_ofLabel (hd.complex? hr)
  | cluster hs, d, t, hh, hd, h => by
    obtain ⟨ds, ts, rfl, hl, hts, rfl⟩ := fit_cluster.1 h
    obtain ⟨hl', hs'⟩ := fitAll_spelled hs hh.2 hl hd hts
    refine ⟨fun hn => hh.1 ?_, hs'⟩
    cases ts with
    | nil => exact List.eq_nil_of_length_eq_zero hl'.symm
    | cons t ts => cases hn
  | list (some e) depth, d, t, hh, hd, h => by
    obtain ⟨g, r, hg, hr, rfl⟩ := fit_list.1 h
    have hx := hd.leaves hg
    have hs := joinItems_preserves (fun ha hb hu => (Ty.unify_joins hu).spelled ha hb)
      (fun x hxg u hu => fit_spelled e hh.2 (hx x hxg) hu) (fun _ hn => by cases hn) hr
    cases r with
    | none => exact hh.1
    | some u => exact ⟨hh.1, hs u rfl⟩
  | list .none depth, d, t, hh, hd, h => by
    obtain ⟨g, hg, _, rfl⟩ := fit_emptyList.1 h
    exact hh
  | error (some p), d, t, hh, hd, h => by
    obtain ⟨code, message, ⟨rfl, rfl⟩ | ⟨q, u, rfl, hu, rfl⟩⟩ := fit_error.1 h
    · trivial
    · exact Ty.spelled_error.2 (fit_spelled p (d := q) hh hd hu)
  | error .none, d, t, hh, hd, h => by
    obtain ⟨_, _, _, rfl⟩ := fit_bareError.1 h
    trivial
  | none, d, t, _, _, h => by
    obtain ⟨_, rfl⟩ := fit_none.1 h
    trivial
  | bool, d, t, _, _, h => by
    obtain ⟨_, rfl⟩ := fit_bool.1 h
    trivial
  | int, d, t, _, _, h => by
    obtain ⟨_, rfl⟩ := fit_int.1 h
    trivial
  | word, d, t, _, _, h => by
    obtain ⟨_, rfl⟩ := fit_word.1 h
    trivial
  | str, d, t, _, _, h => by
    obtain ⟨_, rfl⟩ := fit_str.1 h
    trivial
  | time, d, t, _, _, h => by
    obtain ⟨_, rfl⟩ := fit_time.1 h
    trivial

theorem fitAll_spelled : (hs : List Hint) → ∀ {ds ts}, AllSpelled hs → ds.length = hs.length →
    Data.AllPlainLabels ds → fitAll units hs ds = .ok ts → ts.length = hs.length ∧ Ty.AllSpelled ts
  | [], ds, ts, _, _, _, h => by
    rw [fitAll] at h
    · cases h
      exact ⟨rfl, trivial⟩
    · simp
  | m :: ms, d :: ds, ts, hh, hl, hd, h => by
    obtain ⟨u, us, hu, hus, rfl⟩ := fitAll_cons.1 h
    obtain ⟨hl', hs⟩ := fitAll_spelled ms hh.2 (by simpa using hl) hd.2 hus
    exact ⟨by rw [List.length_cons, List.length_cons, hl'], fit_spelled m hh.1 hd.1 hu, hs⟩
  | m :: ms, [], ts, _, hl, _, _ => by cases hl

end

end Hint

/-- The type that hints give a value can be spelled if the hints can and its labels are plain. -/
theorem resolve_spelled {units : Units} {d : Data} {hs : List Hint} {t : Ty} (hd : d.PlainLabels)
    (hh : ∀ h ∈ hs, h.Spelled) (h : resolve units d hs = .ok t) : t.Spelled := by
  rcases resolve_cases h with ⟨_, hi⟩ | ⟨x, hx, ha⟩
  · exact Data.infer_spelled hd hi
  · obtain ⟨u, hu, rfl, _⟩ := Hint.accept_eq_ok.1 ha
    exact (Hint.fit_spelled x (hh x hx) hd hu).fillFrom (hh x hx)

/-- The type that a value gets from hints that were read from tags is read back from its own tag exactly if none of
its lists has empty elements. -/
theorem parse_text_of_resolve {units : Units} {d : Data} {hs : List Hint} {t : Ty} (hd : d.PlainLabels)
    (hh : ∀ h ∈ hs, ∃ tag, Hint.parse tag = .ok h) (h : resolve units d hs = .ok t) :
    Ty.parse t.text = .ok t ↔ t.hasEmptyElement = false := by
  have hs : ∀ x ∈ hs, x.Spelled := by
    intro x hx
    obtain ⟨tag, htag⟩ := hh x hx
    exact Hint.spelled_of_parse htag
  exact Ty.parse_text_iff (resolve_spelled hd hs h) (resolve_unambiguous h)

theorem parse_text_of_resolve_lengths :
    resolve .standard (.list [.value default "m", .value default "m"]) [.list (some (.value .unspecified)) 1] =
      .ok (.list (some (.value (.named "m"))) 1) ∧
    Ty.parse (Ty.list (some (.value (.named "m"))) 1).text = .ok (.list (some (.value (.named "m"))) 1) := by
  have hr : resolve .standard (.list [.value default "m", .value default "m"]) [.list (some (.value .unspecified)) 1] =
      .ok (.list (some (.value (.named "m"))) 1) := rfl
  have hp : Hint.parse "*v" = .ok (.list (some (.value .unspecified)) 1) := by decide
  have hl : PlainLabel "m" := by
    refine ⟨by decide, by decide, ?_, ?_⟩
    · rintro _ ⟨⟩
      rfl
    · rintro _ ⟨⟩
      rfl
  have hd : (Data.list [.value default "m", .value default "m"]).PlainLabels := ⟨hl, hl, trivial⟩
  exact ⟨hr, (parse_text_of_resolve hd (List.forall_mem_singleton.2 ⟨"*v", hp⟩) hr).2 rfl⟩

/-- The tag of a list of empty values is read as that of a list of unknown elements. -/
theorem not_always_parse_text :
    ¬ ∀ (units : Units) (d : Data) (hs : List Hint) (t : Ty), d.PlainLabels →
      (∀ h ∈ hs, ∃ tag, Hint.parse tag = .ok h) → resolve units d hs = .ok t → Ty.parse t.text = .ok t := by
  intro h
  have hp := h .standard (.list [.none]) [] (.list (some .none) 1) ⟨trivial, trivial⟩ (fun _ hm => by cases hm) rfl
  rw [Ty.parse_text_iff (t := .list (some .none) 1) ⟨by decide, trivial⟩ rfl] at hp
  cases hp

end TagWire
