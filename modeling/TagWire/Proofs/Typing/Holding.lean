import TagWire.Proofs.Tag.Spelling
import TagWire.Proofs.Typing.Joining
import TagWire.Proofs.Typing.Stages

/-!
# Values of a type

A type holds a value if nothing is missing between the two: the units are those of the value, integers are in range,
and only what is empty in the value may be open in the type. Refining a type keeps this, so the type of a list holds
all its items.
-/

namespace TagWire

namespace Ty

mutual

/-- The value is of the type. -/
def Holds : Ty → Data → Prop
  | none, d => d = .none
  | bool, d => ∃ b, d = .bool b
  | int, d => ∃ n, d.integer? = some n ∧ -0x80000000 ≤ n ∧ n < 0x80000000
  | word, d => ∃ n, d.integer? = some n ∧ 0 ≤ n ∧ n < 0x100000000
  | str, d => ∃ xs, d.bytes? = some xs
  | time, d => ∃ i, d = .time i
  | value u, d => ∃ x l, d.real? = some (x, l) ∧ u = .ofLabel l
  | complex u, d => ∃ z l, d.complex? = some (z, l) ∧ u = .ofLabel l
  | cluster ts, d => ∃ ds, d = .tuple ds ∧ AllHold ts ds
  | list (some e) depth, d => ∃ g, d.grid depth = .ok g ∧ ∀ x ∈ g.leaves, e.Holds x
  | list .none depth, d => ∃ g, d.grid depth = .ok g ∧ g.leaves = []
  | error (some p), d => ∃ code message payload, d = .error code message payload ∧ ∀ q ∈ payload, p.Holds q
  | error .none, d => ∃ code message, d = .error code message Option.none

def AllHold : List Ty → List Data → Prop
  | [], [] => True
  | t :: ts, d :: ds => t.Holds d ∧ AllHold ts ds
  | _, _ => False

end

theorem AllHold.length_eq : {ts : List Ty} → {ds : List Data} → AllHold ts ds → ds.length = ts.length
  | [], [], _ => rfl
  | _ :: ts, _ :: ds, ⟨_, h⟩ => by rw [List.length_cons, List.length_cons, AllHold.length_eq h]

mutual

theorem Fills.holds {t u : Ty} {d : Data} (h : Below t u) (hd : t.Holds d) : u.Holds d := by
  match h with
  | .refl => exact hd
  | .cluster hs =>
    obtain ⟨ds, rfl, hds⟩ := hd
    exact ⟨ds, rfl, hs.allHold hds⟩
  | .elem h =>
    obtain ⟨g, hg, hx⟩ := hd
    exact ⟨g, hg, fun x hxg => h.holds (hx x hxg)⟩
  | .unknown _ _ =>
    obtain ⟨g, hg, hl⟩ := hd
    exact ⟨g, hg, fun x hxg => by rw [hl] at hxg; cases hxg⟩
  | .payload h =>
    obtain ⟨code, message, payload, rfl, hp⟩ := hd
    exact ⟨code, message, payload, rfl, fun q hq => h.holds (hp q hq)⟩
  | .bare _ =>
    obtain ⟨code, message, rfl⟩ := hd
    exact ⟨code, message, .none, rfl, fun _ hq => by cases hq⟩

theorem FillsAll.allHold {ts us : List Ty} {ds : List Data} (h : AllBelow ts us) (hd : AllHold ts ds) :
    AllHold us ds := by
  match h, ds with
  | .nil, _ => exact hd
  | .cons h hs, d :: ds => exact ⟨h.holds hd.1, hs.allHold hd.2⟩
  | .cons _ _, [] => exact hd.elim

end

end Ty

namespace Hint

variable {units : Units}

mutual

theorem fit_holds : (u : Ty) → ∀ {d t}, (ofTy u).fit units d = .ok t → t.Holds d
  | .none, d, t, h => by
    obtain ⟨hd, rfl⟩ := fit_none.1 h
    exact hd
  | .bool, d, t, h => by
    obtain ⟨hd, rfl⟩ := fit_bool.1 h
    exact hd
  | .int, d, t, h => by
    obtain ⟨hd, rfl⟩ := fit_int.1 h
    exact hd
  | .word, d, t, h => by
    obtain ⟨hd, rfl⟩ := fit_word.1 h
    exact hd
  | .str, d, t, h => by
    obtain ⟨hd, rfl⟩ := fit_str.1 h
    exact hd
  | .time, d, t, h => by
    obtain ⟨hd, rfl⟩ := fit_time.1 h
    exact hd
  | .value u, d, t, h => by
    obtain ⟨x, l, m, hr, hm, rfl⟩ := fit_value.1 h
    exact ⟨x, l, hr, UnitMark.ofData_eq_ok hm⟩
  | .complex u, d, t, h => by
    obtain ⟨z, l, m, hr, hm, rfl⟩ := fit_complex.1 h
    exact ⟨z, l, hr, UnitMark.ofData_eq_ok hm⟩
  | .cluster us, d, t, h => by
    obtain ⟨ds, ts, rfl, hl, hts, rfl⟩ := fit_cluster.1 h
    exact ⟨ds, rfl, fitAll_hold us hl hts⟩
  | .list (some e) depth, d, t, h => by
    obtain ⟨g, r, hg, hr, rfl⟩ := fit_list.1 h
    have hx := (Ty.joinItems_below hr).2
    -- each item has a type of its own, and the type of the list refines it
    cases r with
    | none =>
      refine ⟨g, hg, List.eq_nil_iff_forall_not_mem.2 fun x hxg => ?_⟩
      obtain ⟨_, _, _, hv, _⟩ := hx x hxg
      cases hv
    | some v =>
      refine ⟨g, hg, fun x hxg => ?_⟩
      obtain ⟨u, hu, _, ⟨⟩, huv⟩ := hx x hxg
      exact huv.holds (fit_holds e hu)
  | .list .none depth, d, t, h => by
    obtain ⟨g, hg, hl, rfl⟩ := fit_emptyList.1 h
    exact ⟨g, hg, hl⟩
  | .error (some p), d, t, h => by
    obtain ⟨code, message, ⟨rfl, rfl⟩ | ⟨q, u, rfl, hu, rfl⟩⟩ := fit_error.1 h
    · exact ⟨code, message, rfl⟩
    · refine ⟨code, message, some q, rfl, ?_⟩
      rintro _ ⟨⟩
      exact fit_holds p hu
  | .error .none, d, t, h => by
    obtain ⟨code, message, rfl, rfl⟩ := fit_bareError.1 h
    exact ⟨code, message, rfl⟩

theorem fitAll_hold : (us : List Ty) → ∀ {ds ts}, ds.length = (ofTys us).length →
    fitAll units (ofTys us) ds = .ok ts → Ty.AllHold ts ds
  | [], [], ts, _, h => by
    rw [ofTys, fitAll] at h
    · cases h
      trivial
    · simp
  | u :: us, d :: ds, ts, hl, h => by
    obtain ⟨v, vs, hv, hvs, rfl⟩ := fitAll_cons.1 h
    exact ⟨fit_holds u hv, fitAll_hold us (by simpa [ofTys] using hl) hvs⟩
  | [], _ :: _, _, hl, _ => by cases hl
  | _ :: _, [], _, hl, _ => by cases hl

end

end Hint

/-- A type that comes from hints without wildcards holds the value. -/
theorem resolve_holds {units : Units} {d : Data} {hs : List Hint} {t : Ty} (hne : hs ≠ [])
    (hw : ∀ h ∈ hs, h.toTy?.isSome) (h : resolve units d hs = .ok t) : t.Holds d := by
  rcases resolve_cases h with ⟨he, _⟩ | ⟨x, hx, ha⟩
  · exact absurd he hne
  · obtain ⟨u, hu, rfl, _⟩ := Hint.accept_eq_ok.1 ha
    obtain ⟨v, hv⟩ := Option.isSome_iff_exists.1 (hw x hx)
    rw [← Ty.ofTy_of_toTy? x hv] at hu
    exact (Ty.below_fillFrom u x).holds (Hint.fit_holds v hu)

end TagWire
