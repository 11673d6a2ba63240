import TagWire.Proofs.Typing.Refinement

/-!
# Ambiguous types

No type that comes from a value or from a hint prints ambiguously. When unknown elements are filled in afterwards,
an error without payload can end up in the middle of a cluster, and this is the only way in which the result
prints ambiguously.
-/

namespace TagWire

/-! ## Types before unknown elements are filled in -/

theorem Ty.printsAmbiguously_listAround (t : Ty) : t.listAround.printsAmbiguously = t.printsAmbiguously := by
  unfold listAround
  split
  · rename_i elem depth
    by_cases h : depth < 9
    · rw [if_pos h]
      cases elem <;> rfl
    · rw [if_neg h, listOf, printsAmbiguously]
  · rw [listOf, printsAmbiguously]

theorem Data.infer_unambiguous : ∀ {d : Data} {t : Ty}, d.infer = .ok t → t.printsAmbiguously = false
  | .tuple (d :: ds), t, h => by
    obtain ⟨ts, _, hp, rfl⟩ := infer_tuple.1 h
    exact hp
  | .list (d :: ds), t, h => by
    obtain ⟨u, hu, rfl⟩ := infer_list.1 h
    rw [Ty.printsAmbiguously_listAround]
    exact infer_unambiguous hu
  | .error _ _ (some p), t, h => by
    obtain ⟨u, hu, rfl⟩ := infer_payload.1 h
    rw [Ty.printsAmbiguously]
    exact infer_unambiguous hu
  | .tuple [], t, h => by cases h
  | .array a, t, h => by
    cases h
    cases a <;> rfl
  | .int n, t, h => by
    rw [infer] at h
    split at h <;> cases h <;> rfl
  | .none, t, h | .bool _, t, h | .word _, t, h | .bytes _, t, h | .text _, t, h | .time _, t, h | .float _, t, h
  | .complex _, t, h | .value _ _, t, h | .complexValue _ _, t, h | .list [], t, h | .valueArray _ _, t, h
  | .error _ _ .none, t, h => by
    cases h
    rfl

theorem resolve_unambiguous {units : Units} {d : Data} {hs : List Hint} {t : Ty} (h : resolve units d hs = .ok t) :
    t.printsAmbiguously = false := by
  rcases resolve_cases h with ⟨_, hi⟩ | ⟨_, _, ha⟩
  · exact Data.infer_unambiguous hi
  · obtain ⟨_, _, _, hp⟩ := Hint.accept_eq_ok.1 ha
    exact hp

/-! ## Errors exposed by filling in -/

namespace Ty

/-- The tag ends in the unknown element of a list. -/
def endsInUnknown : Ty → Bool
  | list .none _ => true
  | list (some e) _ => e.endsInUnknown
  | error (some p) => p.endsInUnknown
  | _ => false

mutual

/-- Filling in unknown elements puts a bare error in front of another member of a cluster: the tag of a member ends
in an unknown element, and what is filled in there ends in a bare error. This may happen in a cluster of the type
itself or in one that is filled in. -/
inductive Exposes : Ty → Ty → Prop
  | cluster {as bs} : ExposesAll as bs → Exposes (cluster as) (cluster bs)
  | elem {a b depth} : Exposes a b → Exposes (list (some a) depth) (list (some b) depth)
  | unknown {a b depth} : Inferred a → Exposes a b → Exposes (list .none depth) (list (some b) depth)
  | payload {a b} : Exposes a b → Exposes (error (some a)) (error (some b))

inductive ExposesAll : List Ty → List Ty → Prop
  | here {a a' b b' as bs} : a.endsInUnknown = true → b.endsInBareError = true →
    ExposesAll (a :: a' :: as) (b :: b' :: bs)
  | head {a b as bs} : Exposes a b → ExposesAll (a :: as) (b :: bs)
  | tail {a b as bs} : ExposesAll as bs → ExposesAll (a :: as) (b :: bs)

end

mutual

theorem Exposes.printsAmbiguously {a b : Ty} (h : Exposes a b) : b.printsAmbiguously = true := by
  match h with
  | .cluster hs => exact hs.membersPrintAmbiguously
  | .elem h => exact h.printsAmbiguously
  | .unknown _ h => exact h.printsAmbiguously
  | .payload h => exact h.printsAmbiguously

theorem ExposesAll.membersPrintAmbiguously {as bs : List Ty} (h : ExposesAll as bs) :
    membersPrintAmbiguously bs = true := by
  match h with
  | .here _ hb => simp [Ty.membersPrintAmbiguously, hb]
  | .head h => simp [Ty.membersPrintAmbiguously, h.printsAmbiguously]
  | .tail h => simp [Ty.membersPrintAmbiguously, h.membersPrintAmbiguously]

end

/-- A bare error comes to the end of a tag only where an unknown element was. -/
theorem Fills.endsInUnknown {start : Ty → Prop} {a b : Ty} (h : Fills start False a b)
    (ha : a.endsInBareError = false) (hb : b.endsInBareError = true) : a.endsInUnknown = true := by
  match h with
  | .refl => rw [ha] at hb; cases hb
  | .cluster _ => cases hb
  | .elem h => exact h.endsInUnknown ha hb
  | .unknown _ _ => rfl
  | .payload h => exact h.endsInUnknown ha hb

mutual

/-- What is filled in grows from types that do not print ambiguously, so any ambiguity is one that is exposed. -/
theorem Fills.exposes {a b : Ty} (h : Fills Inferred False a b) (ha : a.printsAmbiguously = false)
    (hb : b.printsAmbiguously = true) : Exposes a b := by
  match h with
  | .refl => rw [ha] at hb; cases hb
  | .cluster hs => exact .cluster (hs.exposesAll ha hb)
  | .elem h => exact .elem (h.exposes ha hb)
  | .unknown hi h =>
    obtain ⟨d, hd⟩ := hi
    exact .unknown ⟨d, hd⟩ (h.exposes (Data.infer_unambiguous hd) hb)
  | .payload h => exact .payload (h.exposes ha hb)

theorem FillsAll.exposesAll {as bs : List Ty} (h : FillsAll Inferred False as bs)
    (ha : membersPrintAmbiguously as = false) (hb : membersPrintAmbiguously bs = true) : ExposesAll as bs := by
  match h with
  | .nil => cases hb
  | .cons h hs =>
    simp only [membersPrintAmbiguously, Bool.or_eq_false_iff] at ha
    obtain ⟨⟨ha₁, ha₂⟩, ha₃⟩ := ha
    simp only [membersPrintAmbiguously, Bool.or_eq_true] at hb
    rcases hb with (hb | hb) | hb
    · exact .head (h.exposes ha₁ hb)
    · obtain ⟨hend, hne⟩ := Bool.and_eq_true_iff.1 hb
      cases hs with
      | nil => cases hne
      | cons _ _ => exact .here (h.endsInUnknown (by simpa using ha₂) hend) hend
    · exact .tail (hs.exposesAll ha₃ hb)

end

end Ty

namespace Codec

/-- The type that a codec gives a value prints ambiguously exactly if filling in unknown elements has exposed a
bare error. -/
theorem resolve_unambiguous_iff (c : Codec) {d : Data} {hs : List Hint} {t : Ty} (h : c.resolve d hs = .ok t) :
    ∃ t₀, TagWire.resolve c.units d hs = .ok t₀ ∧ t₀.printsAmbiguously = false ∧
      (t.printsAmbiguously = false ↔ ¬ Ty.Exposes t₀ t) := by
  obtain ⟨t₀, hr, hs⟩ := bind_eq_ok.1 h
  have h₀ := resolve_unambiguous hr
  refine ⟨t₀, hr, h₀, ?_⟩
  constructor
  · intro ht he
    rw [he.printsAmbiguously] at ht
    cases ht
  · intro hn
    cases ht : t.printsAmbiguously with
    | false => rfl
    | true => exact absurd ((Ty.specialize_fills hs).exposes h₀ ht) hn

/-- Two tuples whose first members are lists; the first list is empty and the second holds a bare error. -/
def exposing : Data :=
  .list [.tuple [.list [], .int 1], .tuple [.list [.error 3 "x" none], .int 1]]

/-- The tag of this type is `*(*Ei)`. -/
def exposed : Ty := .list (some (.cluster [.list (some (.error none)) 1, .int])) 1

theorem resolve_exposing (c : Codec) : c.resolve exposing [] = .ok exposed := by
  have hint : specialize (.int 1) .int = .ok .int := by simp [specialize]
  have herr : specialize (.error 3 "x" none) (.error none) = .ok (.error none) := by simp [specialize]
  have h₁ : specialize (.list []) (.list none 1) = .ok (.list none 1) :=
    (specialize_list (by decide)).2 ⟨⟨[0], []⟩, none, rfl, by rw [refine], by simp, rfl⟩
  have h₂ : specialize (.list [.error 3 "x" none]) (.list none 1) = .ok (.list (some (.error none)) 1) :=
    (specialize_list (by decide)).2 ⟨⟨[1], [.error 3 "x" none]⟩, some (.error none), rfl,
      refine_none.2 ⟨.error none, .error none, rfl, herr, by rw [refine]⟩, by simp [Ty.conforms], rfl⟩
  have hnil : specializeAll [] [] = .ok [] := by simp [specializeAll]
  -- the first tuple leaves the elements of its list unknown, and the second one fills them in
  have ht₁ : specialize (.tuple [.list [], .int 1]) (.cluster [.list none 1, .int]) =
      .ok (.cluster [.list none 1, .int]) := by
    refine (specialize_cluster rfl).2 ⟨_, ?_, rfl⟩
    exact specializeAll_cons.2 ⟨_, _, h₁, specializeAll_cons.2 ⟨_, _, hint, hnil, rfl⟩, rfl⟩
  have ht₂ : specialize (.tuple [.list [.error 3 "x" none], .int 1]) (.cluster [.list none 1, .int]) =
      .ok (.cluster [.list (some (.error none)) 1, .int]) := by
    refine (specialize_cluster rfl).2 ⟨_, ?_, rfl⟩
    exact specializeAll_cons.2 ⟨_, _, h₂, specializeAll_cons.2 ⟨_, _, hint, hnil, rfl⟩, rfl⟩
  refine bind_eq_ok.2 ⟨.list (some (.cluster [.list none 1, .int])) 1, rfl, ?_⟩
  refine (specialize_list (by decide)).2 ⟨⟨[2], _⟩, _, rfl,
    refine_some.2 ⟨_, ht₁, refine_some.2 ⟨_, ht₂, by rw [refine]⟩⟩, ?_, rfl⟩
  rintro _ ⟨⟩
  decide

theorem resolve_unambiguous_iff_exposing :
    ({} : Codec).resolve exposing [] = .ok exposed ∧
      ∃ t₀, TagWire.resolve Units.standard exposing [] = .ok t₀ ∧ t₀.printsAmbiguously = false ∧
        (exposed.printsAmbiguously = false ↔ ¬ Ty.Exposes t₀ exposed) :=
  ⟨resolve_exposing {}, resolve_unambiguous_iff {} (resolve_exposing {})⟩

/-- A codec may resolve a value to a type that prints ambiguously. -/
theorem not_always_unambiguous :
    ¬ ∀ (c : Codec) (d : Data) (hs : List Hint) (t : Ty), c.resolve d hs = .ok t → t.printsAmbiguously = false := by
  intro h
  have he := h {} exposing [] exposed (resolve_exposing {})
  cases he

end Codec

end TagWire
