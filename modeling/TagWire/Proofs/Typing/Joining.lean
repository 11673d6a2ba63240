import TagWire.Proofs.Typing.Fitting
import TagWire.Proofs.Typing.Refinement

/-!
# Joined types

The join of two types refines both of them, and so does what a hint fills in afterwards.
-/

namespace TagWire.Ty

mutual

/-- The third type is the join of the first two. -/
inductive Joins : Ty → Ty → Ty → Prop
  | refl {a} : Joins a a a
  | cluster {as bs cs} : JoinsAll as bs cs → Joins (cluster as) (cluster bs) (cluster cs)
  | elem {a b c depth} : Joins a b c → Joins (list (some a) depth) (list (some b) depth) (list (some c) depth)
  | unknownLeft {b depth} : Joins (list .none depth) (list b depth) (list b depth)
  | unknownRight {a depth} : Joins (list a depth) (list .none depth) (list a depth)
  | payload {a b c} : Joins a b c → Joins (error (some a)) (error (some b)) (error (some c))
  | bareLeft {b} : Joins (error .none) (error b) (error b)
  | bareRight {a} : Joins (error a) (error .none) (error a)

inductive JoinsAll : List Ty → List Ty → List Ty → Prop
  | nil : JoinsAll [] [] []
  | cons {a b c as bs cs} : Joins a b c → JoinsAll as bs cs → JoinsAll (a :: as) (b :: bs) (c :: cs)

end

theorem unify_joins_all : (∀ a b, ∀ c, unify a b = some c → Joins a b c) ∧
    (∀ as bs, ∀ cs, unifyAll as bs = some cs → JoinsAll as bs cs) := by
  refine unify.mutual_induct _ _ ?elem ?elemDepths ?unknownLeft ?unknownLeftDepths ?unknownRight ?unknownRightDepths
    ?cluster ?payload ?bareLeft ?bareRight ?same ?different ?nil ?cons ?consFails ?uneven
  case elem =>
    intro a b depth ih c h
    rw [unify, if_pos rfl, Option.map_eq_some_iff] at h
    obtain ⟨u, hu, rfl⟩ := h
    exact .elem (ih u hu)
  case elemDepths =>
    intro a d b e hne c h
    rw [unify, if_neg hne] at h
    cases h
  case unknownLeft =>
    intro b depth c h
    rw [unify, if_pos rfl] at h
    cases h
    exact .unknownLeft
  case unknownLeftDepths =>
    intro d b e hne c h
    rw [unify, if_neg hne] at h
    cases h
  case unknownRight =>
    intro a depth ha c h
    rw [unify, if_pos rfl] at h
    · cases h
      exact .unknownRight
    · exact ha
  case unknownRightDepths =>
    intro a d e ha hne c h
    rw [unify, if_neg hne] at h
    · cases h
    · exact ha
  case cluster =>
    intro as bs ih c h
    rw [unify, Option.map_eq_some_iff] at h
    obtain ⟨us, hus, rfl⟩ := h
    exact .cluster (ih us hus)
  case payload =>
    intro a b ih c h
    rw [unify, Option.map_eq_some_iff] at h
    obtain ⟨u, hu, rfl⟩ := h
    exact .payload (ih u hu)
  case bareLeft =>
    intro b c h
    rw [unify] at h
    cases h
    exact .bareLeft
  case bareRight =>
    intro a ha c h
    rw [unify] at h
    · cases h
      exact .bareRight
    · exact ha
  -- nothing is open, and the two types are the same or they have no join
  case same =>
    intro b h₁ h₂ h₃ h₄ h₅ h₆ h₇ c h
    rw [unify, if_pos rfl] at h
    · cases h
      exact .refl
    all_goals assumption
  case different =>
    intro a b h₁ h₂ h₃ h₄ h₅ h₆ h₇ hne c h
    rw [unify, if_neg hne] at h
    · cases h
    all_goals assumption
  case nil =>
    intro cs h
    rw [unifyAll] at h
    cases h
    exact .nil
  case cons =>
    intro a as b bs t ts hts ht ih ihs cs h
    rw [unifyAll, ht, hts] at h
    cases h
    exact .cons (ih t ht) (ihs ts hts)
  case consFails =>
    intro a as b bs hn _ _ cs h
    rw [unifyAll] at h
    split at h
    · rename_i t ts ht hts
      exact (hn t ts ht hts).elim
    · cases h
  case uneven =>
    intro as bs h₁ h₂ cs h
    rw [unifyAll] at h
    · cases h
    all_goals assumption

theorem unify_joins {a b c : Ty} (h : a.unify b = some c) : Joins a b c := unify_joins_all.1 a b c h

/-- Unknown elements may be filled in with anything, and bare errors with any payload. -/
abbrev Below : Ty → Ty → Prop := Fills (fun _ => True) True

abbrev AllBelow : List Ty → List Ty → Prop := FillsAll (fun _ => True) True

theorem below_unknown {e : Option Ty} {depth : Nat} : Below (list .none depth) (list e depth) := by
  cases e with
  | none => exact .refl
  | some e => exact .unknown trivial .refl

theorem below_bareError {p : Option Ty} : Below (error .none) (error p) := by
  cases p with
  | none => exact .refl
  | some p => exact .bare trivial

mutual

theorem Joins.symm {a b c : Ty} (h : Joins a b c) : Joins b a c := by
  match h with
  | .refl => exact .refl
  | .cluster hs => exact .cluster hs.symm
  | .elem h => exact .elem h.symm
  | .unknownLeft => exact .unknownRight
  | .unknownRight => exact .unknownLeft
  | .payload h => exact .payload h.symm
  | .bareLeft => exact .bareRight
  | .bareRight => exact .bareLeft

theorem JoinsAll.symm {as bs cs : List Ty} (h : JoinsAll as bs cs) : JoinsAll bs as cs := by
  match h with
  | .nil => exact .nil
  | .cons h hs => exact .cons h.symm hs.symm

end

mutual

theorem Joins.left {a b c : Ty} (h : Joins a b c) : Below a c := by
  match h with
  | .refl => exact .refl
  | .cluster hs => exact .cluster hs.left
  | .elem h => exact .elem h.left
  | .unknownLeft => exact below_unknown
  | .unknownRight => exact .refl
  | .payload h => exact .payload h.left
  | .bareLeft => exact below_bareError
  | .bareRight => exact .refl

theorem JoinsAll.left {as bs cs : List Ty} (h : JoinsAll as bs cs) : AllBelow as cs := by
  match h with
  | .nil => exact .nil
  | .cons h hs => exact .cons h.left hs.left

end

/-- The type of the items refines the type of each. -/
theorem joinItems_below {fit : Data → Except FlattenError Ty} {r : Option Ty} :
    ∀ {ds : List Data} {a : Option Ty}, joinItems fit a ds = .ok r →
      (∀ u ∈ a, ∃ v ∈ r, Below u v) ∧ ∀ x ∈ ds, ∃ u, fit x = .ok u ∧ ∃ v ∈ r, Below u v
  | [], a, h => by
    rw [joinItems] at h
    cases h
    exact ⟨fun u hu => ⟨u, hu, .refl⟩, fun x hx => by cases hx⟩
  | d :: ds, .none, h => by
    obtain ⟨u, hu, h⟩ := joinItems_none.1 h
    obtain ⟨ha, hds⟩ := joinItems_below h
    exact ⟨fun _ hu => (by cases hu), List.forall_mem_cons.2 ⟨⟨u, hu, ha u rfl⟩, hds⟩⟩
  | d :: ds, some t, h => by
    obtain ⟨u, v, hu, hv, h⟩ := joinItems_some.1 h
    obtain ⟨ha, hds⟩ := joinItems_below h
    obtain ⟨w, hw, hvw⟩ := ha v rfl
    have hj := unify_joins hv
    refine ⟨?_, List.forall_mem_cons.2 ⟨⟨u, hu, w, hw, hj.symm.left.trans hvw⟩, hds⟩⟩
    rintro _ ⟨⟩
    exact ⟨w, hw, hj.left.trans hvw⟩

theorem below_fillFrom_all : (∀ t h, Below t (fillFrom t h)) ∧ (∀ ts hs, AllBelow ts (fillAllFrom ts hs)) := by
  apply fillFrom_induction
  case unknown =>
    intro depth h _
    exact below_unknown
  case elem =>
    intro t depth h _ ih
    exact .elem ih
  case cluster =>
    intro ts hs hl ih
    rw [fillFrom, if_pos hl]
    exact .cluster ih
  case bareError =>
    intro h
    exact below_bareError
  case payload =>
    intro t h ih
    exact .payload ih
  case unchanged =>
    intro t h he
    rw [he]
    exact .refl
  case cons =>
    intro t ts h hs ih ihs
    exact .cons ih ihs
  case uneven =>
    intro ts hs he
    rw [he]
    exact .refl ts

/-- A hint only fills in what a type leaves open. -/
theorem below_fillFrom (t : Ty) (h : Hint) : Below t (t.fillFrom h) := below_fillFrom_all.1 t h

end TagWire.Ty
