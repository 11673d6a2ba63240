import TagWire.Proofs.Typing.Stages

/-!
# Refinement of types

A type that leaves something open is refined when that is filled in. What may be filled in, and with what, is a
parameter.
-/

namespace TagWire.Ty

mutual

/-- The second type is the first with unknown elements filled in, by types that grow in the same way from a type
that may start one, and with payloads for bare errors if these are open too. -/
inductive Fills (start : Ty → Prop) (payloads : Prop) : Ty → Ty → Prop
  | refl {t} : Fills start payloads t t
  | cluster {as bs} : FillsAll start payloads as bs → Fills start payloads (cluster as) (cluster bs)
  | elem {a b depth} : Fills start payloads a b → Fills start payloads (list (some a) depth) (list (some b) depth)
  | unknown {a b depth} : start a → Fills start payloads a b →
    Fills start payloads (list .none depth) (list (some b) depth)
  | payload {a b} : Fills start payloads a b → Fills start payloads (error (some a)) (error (some b))
  | bare {b} : payloads → Fills start payloads (error .none) (error (some b))

inductive FillsAll (start : Ty → Prop) (payloads : Prop) : List Ty → List Ty → Prop
  | nil : FillsAll start payloads [] []
  | cons {a b as bs} : Fills start payloads a b → FillsAll start payloads as bs →
    FillsAll start payloads (a :: as) (b :: bs)

end

variable {start : Ty → Prop} {payloads : Prop}

theorem FillsAll.length_eq : ∀ {as bs : List Ty}, FillsAll start payloads as bs → as.length = bs.length
  | _, _, .nil => rfl
  | _, _, .cons _ h => by rw [List.length_cons, List.length_cons, h.length_eq]

mutual

theorem Fills.trans {a b c : Ty} (h : Fills start payloads a b) (h' : Fills start payloads b c) :
    Fills start payloads a c := by
  match h, h' with
  | .refl, h' => exact h'
  | h, .refl => exact h
  | .cluster hs, .cluster hs' => exact .cluster (hs.trans hs')
  | .elem h, .elem h' => exact .elem (h.trans h')
  | .unknown ha h, .elem h' => exact .unknown ha (h.trans h')
  | .payload h, .payload h' => exact .payload (h.trans h')
  | .bare hp, .payload _ => exact .bare hp

theorem FillsAll.trans {as bs cs : List Ty} (h : FillsAll start payloads as bs)
    (h' : FillsAll start payloads bs cs) : FillsAll start payloads as cs := by
  match h, h' with
  | .nil, .nil => exact .nil
  | .cons ha has, .cons hb hbs => exact .cons (ha.trans hb) (has.trans hbs)

end

theorem FillsAll.refl (ts : List Ty) : FillsAll start payloads ts ts := by
  induction ts with
  | nil => exact .nil
  | cons t ts ih => exact .cons .refl ih

/-! ## What a type can have been before -/

variable {u : Ty} {depth : Nat}

theorem Fills.eq_cluster {ts : List Ty} (h : Fills start payloads u (.cluster ts)) :
    ∃ us, u = .cluster us ∧ FillsAll start payloads us ts := by
  cases h with
  | refl => exact ⟨ts, rfl, .refl ts⟩
  | cluster hs => exact ⟨_, rfl, hs⟩

theorem Fills.eq_list {elem : Option Ty} (h : Fills start payloads u (.list elem depth)) : ∃ e, u = .list e depth := by
  cases h with
  | refl => exact ⟨elem, rfl⟩
  | elem _ => exact ⟨_, rfl⟩
  | unknown _ _ => exact ⟨_, rfl⟩

theorem Fills.eq_unknownList (h : Fills start payloads u (.list .none depth)) : u = .list .none depth := by
  cases h
  rfl

theorem Fills.eq_error {p : Ty} (h : Fills start False u (.error (some p))) :
    ∃ q, u = .error (some q) ∧ Fills start False q p := by
  cases h with
  | refl => exact ⟨p, rfl, .refl⟩
  | payload h => exact ⟨_, rfl, h⟩
  | bare hf => exact hf.elim

/-! ## Unknown elements are filled in from data -/

/-- Data on its own has this type. -/
def Inferred (t : Ty) : Prop := ∃ d : Data, d.infer = .ok t

/-- The type after unknown elements are filled in grows from the type before and from types of data. -/
theorem specialize_fills_all :
    (∀ d t, ∀ t', specialize d t = .ok t' → Fills Inferred False t t') ∧
    (∀ elem leaves, ∀ e, refine elem leaves = .ok e → ∀ depth, Fills Inferred False (list elem depth) (list e depth)) ∧
    (∀ ds ts, ∀ ts', ds.length = ts.length → specializeAll ds ts = .ok ts' → FillsAll Inferred False ts ts') := by
  apply specialize_induction
  case cluster =>
    intro ds ts hl ih t' h
    obtain ⟨ts', hts, rfl⟩ := (specialize_cluster hl).1 h
    exact .cluster (ih ts' hl hts)
  case ragged =>
    intro d elem depth e he hg t' h
    obtain ⟨g, _, hg', _⟩ := (specialize_list he).1 h
    rw [hg] at hg'
    cases hg'
  case list =>
    intro d elem depth g he hg ih t' h
    obtain ⟨g', e, hg', hr, _, rfl⟩ := (specialize_list he).1 h
    rw [hg] at hg'
    cases hg'
    exact ih e hr depth
  case payload =>
    intro code message p t ih t' h
    obtain ⟨u, hu, rfl⟩ := specialize_payload.1 h
    exact .payload (ih u hu)
  case unchanged =>
    intro d t hok t' h
    cases hok.symm.trans h
    exact .refl
  case noItem =>
    intro elem e h depth
    rw [refine] at h
    cases h
    exact .refl
  case firstItem =>
    intro d ds ih ihs e h depth
    obtain ⟨t, u, hi, hu, hr⟩ := refine_none.1 h
    exact (Fills.unknown ⟨d, hi⟩ (ih t u hu)).trans (ihs u e hr depth)
  case nextItem =>
    intro t d ds ih ihs e h depth
    obtain ⟨u, hu, hr⟩ := refine_some.1 h
    exact (Fills.elem (ih t u hu)).trans (ihs u e hr depth)
  case cons =>
    intro d ds t ts ih ihs ts' hl h
    obtain ⟨u, us, hu, hus, rfl⟩ := specializeAll_cons.1 h
    exact .cons (ih u hu) (ihs us (by simpa using hl) hus)
  case uneven =>
    intro ds ts hn ts' hl h
    -- lists of one length are uneven in this sense only if both are empty
    obtain ⟨rfl, rfl⟩ : ds = [] ∧ ts = [] := by
      rcases hn with rfl | rfl
      · exact ⟨rfl, List.length_eq_zero_iff.1 hl.symm⟩
      · exact ⟨List.length_eq_zero_iff.1 hl, rfl⟩
    rw [specializeAll] at h
    · cases h
      exact .nil
    · simp

theorem specialize_fills {d : Data} {t t' : Ty} (h : specialize d t = .ok t') : Fills Inferred False t t' :=
  specialize_fills_all.1 d t t' h

end TagWire.Ty
