import TagWire.Proofs.Typing.Vagueness

/-!
# Near types

Whether an empty list of numbers says that its items would be numbers depends on how it is held: an array says so, and a
list without items does not. Two types on the way to a third one are near each other if they differ in nothing else.
-/

namespace TagWire.Ty

/-- The types whose values are numbers, which lists may hold as arrays. -/
def isNumber : Ty → Bool
  | int | word | value _ | complex _ => true
  | _ => false

mutual

/-- The second and the third type are vaguer than the first one, and they differ only in whether they know that the
items of a list are numbers. -/
inductive Near : Ty → Ty → Ty → Prop
  | refl {t} : Near t t t
  | cluster {ts us vs} : NearAll ts us vs → Near (cluster ts) (cluster us) (cluster vs)
  | list {e a b depth} : NearElem e a b → Near (list e depth) (list a depth) (list b depth)
  | payload {p q r} : Near p q r → Near (error (some p)) (error (some q)) (error (some r))

inductive NearElem : Option Ty → Option Ty → Option Ty → Prop
  | known {e a b} : Near e a b → NearElem (some e) (some a) (some b)
  | unknown {e} : NearElem e .none .none
  | number {e a b} : e.isNumber = true → (∀ x ∈ a, x = e) → (∀ x ∈ b, x = e) → NearElem (some e) a b

inductive NearAll : List Ty → List Ty → List Ty → Prop
  | nil : NearAll [] [] []
  | cons {t u v ts us vs} : Near t u v → NearAll ts us vs → NearAll (t :: ts) (u :: us) (v :: vs)

end

theorem NearElem.refl {e : Option Ty} : NearElem e e e := by
  cases e with
  | none => exact .unknown
  | some e => exact .known .refl

theorem NearAll.refl (ts : List Ty) : NearAll ts ts ts := by
  induction ts with
  | nil => exact .nil
  | cons t ts ih => exact .cons .refl ih

theorem NearAll.length_eq : ∀ {ts us vs : List Ty}, NearAll ts us vs → us.length = ts.length ∧ vs.length = ts.length
  | _, _, _, .nil => ⟨rfl, rfl⟩
  | _, _, _, .cons _ h => by
    simp only [List.length_cons]
    exact ⟨congrArg (· + 1) h.length_eq.1, congrArg (· + 1) h.length_eq.2⟩

theorem NearAll.isEmpty_eq {ts us vs : List Ty} (h : NearAll ts us vs) : vs.isEmpty = us.isEmpty := by
  cases h <;> rfl

variable {t u v : Ty}

/-! ## What near types look like -/

theorem near_cluster {ts : List Ty} (h : Near (cluster ts) u v) :
    ∃ us vs, u = cluster us ∧ v = cluster vs ∧ NearAll ts us vs := by
  cases h with
  | refl => exact ⟨ts, ts, rfl, rfl, .refl ts⟩
  | cluster h => exact ⟨_, _, rfl, rfl, h⟩

theorem near_list {e : Option Ty} {depth : Nat} (h : Near (list e depth) u v) :
    ∃ a b, u = list a depth ∧ v = list b depth ∧ NearElem e a b := by
  cases h with
  | refl => exact ⟨e, e, rfl, rfl, .refl⟩
  | list h => exact ⟨_, _, rfl, rfl, h⟩

theorem near_error {p : Ty} (h : Near (error (some p)) u v) :
    ∃ q r, u = error (some q) ∧ v = error (some r) ∧ Near p q r := by
  cases h with
  | refl => exact ⟨p, p, rfl, rfl, .refl⟩
  | payload h => exact ⟨_, _, rfl, rfl, h⟩

/-- Near types are lists of the same number of dimensions. -/
theorem near_list_right {b : Option Ty} {depth : Nat} (h : Near t u (list b depth)) : ∃ a, u = list a depth := by
  cases h with
  | refl => exact ⟨b, rfl⟩
  | list _ => exact ⟨_, rfl⟩

theorem elemVaguer_of_number {e : Ty} {a : Option Ty} (h : ∀ x ∈ a, x = e) : ElemVaguer a (some e) :=
  fun x hx => ⟨e, rfl, h x hx ▸ .refl⟩

mutual

theorem Near.right {t u v : Ty} (h : Near t u v) : Vaguer v t := by
  match h with
  | .refl => exact .refl
  | .cluster h => exact .cluster h.right
  | .list h => exact h.right.list
  | .payload h => exact .payload h.right

theorem NearElem.right {e a b : Option Ty} (h : NearElem e a b) : ElemVaguer b e := by
  match h with
  | .known h =>
    rintro _ ⟨⟩
    exact ⟨_, rfl, h.right⟩
  | .unknown => exact fun _ hx => by cases hx
  | .number _ _ hb => exact elemVaguer_of_number hb

theorem NearAll.right {ts us vs : List Ty} (h : NearAll ts us vs) : AllVaguer vs ts := by
  match h with
  | .nil => exact .nil
  | .cons h hs => exact .cons h.right hs.right

end

/-! ## Numbers -/

theorem Vaguer.eq_number (h : Vaguer u t) (ht : t.isNumber = true) : u = t := by
  cases h with
  | refl => rfl
  | _ => cases ht

theorem number_of_elemVaguer {a : Option Ty} {e : Ty} (h : ElemVaguer a (some e)) (he : e.isNumber = true) :
    ∀ x ∈ a, x = e := by
  intro x hx
  obtain ⟨_, ⟨⟩, hxe⟩ := h x hx
  exact Vaguer.eq_number hxe he

theorem endsInBareError_number (h : t.isNumber = true) : t.endsInBareError = false := by
  cases t <;> first | rfl | cases h

theorem printsAmbiguously_number (h : t.isNumber = true) : t.printsAmbiguously = false := by
  cases t <;> first | rfl | cases h

/-! ## Ambiguity -/

theorem printed_list_of_number {e : Ty} {a : Option Ty} {depth : Nat} (he : e.isNumber = true) (h : ∀ x ∈ a, x = e) :
    (list a depth).endsInBareError = false ∧ (list a depth).printsAmbiguously = false := by
  cases a with
  | none => exact ⟨rfl, rfl⟩
  | some x =>
    obtain rfl := h x rfl
    exact ⟨(endsInBareError_number he :), (printsAmbiguously_number he :)⟩

theorem Near.endsInBareError {t u v : Ty} (h : Near t u v) : v.endsInBareError = u.endsInBareError := by
  cases h with
  | refl => rfl
  | cluster _ => rfl
  | list h =>
    cases h with
    | unknown => rfl
    | known h => exact h.endsInBareError
    | number he ha hb => rw [(printed_list_of_number he ha).1, (printed_list_of_number he hb).1]
  | payload h => exact h.endsInBareError

mutual

theorem Near.printsAmbiguously {t u v : Ty} : Near t u v → v.printsAmbiguously = u.printsAmbiguously
  | .refl => rfl
  | .cluster h => h.membersPrintAmbiguously
  | .list .unknown => rfl
  | .list (.known h) => (h.printsAmbiguously :)
  | .list (.number he ha hb) => by rw [(printed_list_of_number he ha).2, (printed_list_of_number he hb).2]
  | .payload h => (h.printsAmbiguously :)

theorem NearAll.membersPrintAmbiguously {ts us vs : List Ty} : NearAll ts us vs →
    Ty.membersPrintAmbiguously vs = Ty.membersPrintAmbiguously us
  | .nil => rfl
  | .cons h hs => by
    rw [Ty.membersPrintAmbiguously, Ty.membersPrintAmbiguously, h.printsAmbiguously, h.endsInBareError,
      hs.membersPrintAmbiguously, hs.isEmpty_eq]

end

end TagWire.Ty
