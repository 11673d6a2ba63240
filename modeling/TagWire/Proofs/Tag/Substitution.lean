import TagWire.Tag.Matching

/-!
# Instances by substitution

The types that a hint admits are those that it becomes when something is put in the place of each wildcard and of each
missing unit. Substitutions compose, so that a hint admits what an instance of it admits as a hint.
-/

namespace TagWire

/-! ## Substitutions -/

/-- A turn on the way from a hint to a place in it. -/
inductive Turn where
  /-- Into a list or an error, or into the first of some members. -/
  | into
  /-- Past the first of some members, to those behind it. -/
  | past

/-- What to put in the place of wildcards and of missing units. Each place has its own, whatever the others have. -/
structure Substitution where
  type : List Turn → Ty
  unit : List Turn → UnitMark
deriving Inhabited

namespace Substitution

/-- What there is to put in the places behind a place. -/
def under (σ : Substitution) (place : List Turn) : Substitution :=
  ⟨fun p => σ.type (place ++ p), fun p => σ.unit (place ++ p)⟩

/-- One substitution for the first of some members, and another one for those behind it. -/
def fork (σ τ : Substitution) : Substitution where
  type
    | [] => σ.type []
    | .into :: p => σ.type p
    | .past :: p => τ.type p
  unit
    | [] => σ.unit []
    | .into :: p => σ.unit p
    | .past :: p => τ.unit p

@[simp] theorem under_into_fork (σ τ : Substitution) : (σ.fork τ).under [.into] = σ := rfl

@[simp] theorem under_past_fork (σ τ : Substitution) : (σ.fork τ).under [.past] = τ := rfl

end Substitution

/-- Another mark in the place of a missing one. -/
def UnitMark.or : UnitMark → UnitMark → UnitMark
  | unspecified, u => u
  | u, _ => u

theorem UnitMark.or_assoc (u v w : UnitMark) : (u.or v).or w = u.or (v.or w) := by
  cases u <;> rfl

theorem UnitMark.or_antisymm {u v w : UnitMark} (h : (u.or v).or w = u) : u.or v = u := by
  cases u with
  | unspecified => cases v <;> first | rfl | cases h
  | _ => rfl

namespace Hint

mutual

/-- A hint with everything in its place. -/
def subst : Hint → Substitution → Ty
  | wildcard, σ => σ.type []
  | value u, σ => .value (u.or (σ.unit []))
  | complex u, σ => .complex (u.or (σ.unit []))
  | cluster ms, σ => .cluster (substAll ms σ)
  | list (some e) depth, σ => .list (some (e.subst (σ.under [.into]))) depth
  | list .none depth, _ => .list .none depth
  | error (some p), σ => .error (some (p.subst (σ.under [.into])))
  | error .none, _ => .error .none
  | none, _ => .none
  | bool, _ => .bool
  | int, _ => .int
  | word, _ => .word
  | str, _ => .str
  | time, _ => .time

def substAll : List Hint → Substitution → List Ty
  | [], _ => []
  | m :: ms, σ => m.subst (σ.under [.into]) :: substAll ms (σ.under [.past])

end

/-! ## What a hint admits -/

variable {h : Hint} {t : Ty} {depth : Nat}

theorem cluster_admits {hs : List Hint} :
    (cluster hs).admits t = true ↔ ∃ ts, t = .cluster ts ∧ admitsAll hs ts = true := by
  constructor
  · intro ha
    cases t with
    | cluster ts => exact ⟨ts, rfl, ha⟩
    | _ => cases ha
  · rintro ⟨ts, rfl, ha⟩
    exact ha

theorem list_admits : (list (some h) depth).admits t = true ↔ ∃ u, t = .list (some u) depth ∧ h.admits u = true := by
  constructor
  · intro ha
    cases t with
    | list r _ =>
      cases r with
      | none => cases ha
      | some u =>
        simp only [admits, Bool.and_eq_true, decide_eq_true_eq] at ha
        obtain ⟨rfl, ha⟩ := ha
        exact ⟨u, rfl, ha⟩
    | _ => cases ha
  · rintro ⟨u, rfl, ha⟩
    simp [admits, ha]

theorem emptyList_admits : (list .none depth).admits t = true ↔ t = .list .none depth := by
  constructor
  · intro ha
    cases t with
    | list r _ =>
      cases r with
      | none =>
        simp only [admits, decide_eq_true_eq] at ha
        rw [ha]
      | some u => cases ha
    | _ => cases ha
  · rintro rfl
    simp [admits]

theorem error_admits : (error (some h)).admits t = true ↔ ∃ u, t = .error (some u) ∧ h.admits u = true := by
  constructor
  · intro ha
    cases t with
    | error r =>
      cases r with
      | none => cases ha
      | some u => exact ⟨u, rfl, ha⟩
    | _ => cases ha
  · rintro ⟨u, rfl, ha⟩
    exact ha

theorem covers_iff {u v : UnitMark} : covers u v = true ↔ ∃ w, u.or w = v := by
  rw [covers, Bool.or_eq_true, decide_eq_true_eq, decide_eq_true_eq]
  constructor
  · rintro (rfl | rfl)
    · exact ⟨v, rfl⟩
    · exact ⟨u, by cases u <;> rfl⟩
  · rintro ⟨w, rfl⟩
    cases u <;> first | exact .inl rfl | exact .inr rfl

theorem value_admits {u : UnitMark} : (value u).admits t = true ↔ ∃ w, t = .value (u.or w) := by
  constructor
  · intro ha
    cases t with
    | value v =>
      obtain ⟨w, rfl⟩ := covers_iff.1 ha
      exact ⟨w, rfl⟩
    | _ => cases ha
  · rintro ⟨w, rfl⟩
    exact covers_iff.2 ⟨w, rfl⟩

theorem complex_admits {u : UnitMark} : (complex u).admits t = true ↔ ∃ w, t = .complex (u.or w) := by
  constructor
  · intro ha
    cases t with
    | complex v =>
      obtain ⟨w, rfl⟩ := covers_iff.1 ha
      exact ⟨w, rfl⟩
    | _ => cases ha
  · rintro ⟨w, rfl⟩
    exact covers_iff.2 ⟨w, rfl⟩

/-- A hint with neither parts nor a unit admits only itself. -/
theorem scalar_admits (hh : h ∈ [none, bool, int, word, str, time, error .none]) : h.admits t = true ↔ h.toTy? = some t := by
  simp only [List.mem_cons, List.not_mem_nil, or_false] at hh
  rcases hh with rfl | rfl | rfl | rfl | rfl | rfl | rfl <;>
    cases t with
    | error r => cases r <;> simp [admits, toTy?]
    | _ => simp [admits, toTy?]

/-! ## Instances -/

mutual

theorem admits_subst : (h : Hint) → (σ : Substitution) → h.admits (h.subst σ) = true
  | wildcard, _ => rfl
  | value u, σ => value_admits.2 ⟨σ.unit [], rfl⟩
  | complex u, σ => complex_admits.2 ⟨σ.unit [], rfl⟩
  | cluster ms, σ => admitsAll_substAll ms σ
  | list (some e) depth, σ => list_admits.2 ⟨_, rfl, admits_subst e (σ.under [.into])⟩
  | error (some p), σ => admits_subst p (σ.under [.into])
  | list .none _, _ => emptyList_admits.2 rfl
  | none, _ | bool, _ | int, _ | word, _ | str, _ | time, _ | error .none, _ => (scalar_admits (by simp)).2 rfl

theorem admitsAll_substAll : (hs : List Hint) → (σ : Substitution) → admitsAll hs (substAll hs σ) = true
  | [], _ => rfl
  | h :: hs, σ => by
    rw [substAll, admitsAll, admits_subst h (σ.under [.into]), admitsAll_substAll hs (σ.under [.past])]
    rfl

end

mutual

theorem exists_subst : (h : Hint) → ∀ {t}, h.admits t = true → ∃ σ, h.subst σ = t
  | wildcard, t, _ => ⟨⟨fun _ => t, fun _ => .unspecified⟩, rfl⟩
  | value u, t, ha => by
    obtain ⟨w, rfl⟩ := value_admits.1 ha
    exact ⟨⟨fun _ => .none, fun _ => w⟩, rfl⟩
  | complex u, t, ha => by
    obtain ⟨w, rfl⟩ := complex_admits.1 ha
    exact ⟨⟨fun _ => .none, fun _ => w⟩, rfl⟩
  | cluster ms, t, ha => by
    obtain ⟨ts, rfl, hts⟩ := cluster_admits.1 ha
    obtain ⟨σ, rfl⟩ := exists_substAll ms hts
    exact ⟨σ, rfl⟩
  | list (some e) depth, t, ha => by
    obtain ⟨u, rfl, hu⟩ := list_admits.1 ha
    obtain ⟨σ, rfl⟩ := exists_subst e hu
    exact ⟨σ.fork σ, by rw [subst, Substitution.under_into_fork]⟩
  | error (some p), t, ha => by
    obtain ⟨u, rfl, hu⟩ := error_admits.1 ha
    obtain ⟨σ, rfl⟩ := exists_subst p hu
    exact ⟨σ.fork σ, by rw [subst, Substitution.under_into_fork]⟩
  | list .none _, t, ha => ⟨default, (emptyList_admits.1 ha).symm⟩
  | none, t, ha | bool, t, ha | int, t, ha | word, t, ha | str, t, ha | time, t, ha | error .none, t, ha => by
    cases (scalar_admits (by simp)).1 ha
    exact ⟨default, rfl⟩

theorem exists_substAll : (hs : List Hint) → ∀ {ts}, admitsAll hs ts = true → ∃ σ, substAll hs σ = ts
  | [], [], _ => ⟨default, rfl⟩
  | h :: hs, t :: ts, ha => by
    obtain ⟨hh, hhs⟩ := Bool.and_eq_true_iff.1 ha
    obtain ⟨σ, rfl⟩ := exists_subst h hh
    obtain ⟨τ, rfl⟩ := exists_substAll hs hhs
    exact ⟨σ.fork τ, by rw [substAll, Substitution.under_into_fork, Substitution.under_past_fork]⟩

end

theorem admits_iff_exists_subst : h.admits t = true ↔ ∃ σ, h.subst σ = t := by
  constructor
  · exact exists_subst h
  · rintro ⟨σ, rfl⟩
    exact admits_subst h σ

end Hint

/-! ## Composition -/

/-- One substitution and then another one, in what the first one puts in its places. -/
def Substitution.then (σ τ : Substitution) : Substitution where
  type p := (Hint.ofTy (σ.type p)).subst (τ.under p)
  unit p := (σ.unit p).or (τ.unit p)

namespace Hint

variable {h : Hint} {t u : Ty}

mutual

theorem subst_subst : (h : Hint) → (σ τ : Substitution) → (ofTy (h.subst σ)).subst τ = h.subst (σ.then τ)
  | wildcard, _, _ => rfl
  | value u, σ, τ => by
    rw [subst, ofTy, subst, subst, UnitMark.or_assoc]
    rfl
  | complex u, σ, τ => by
    rw [subst, ofTy, subst, subst, UnitMark.or_assoc]
    rfl
  | cluster ms, σ, τ => by rw [subst, ofTy, subst, subst, substAll_substAll ms σ τ]
  | list (some e) depth, σ, τ => by
    rw [subst, ofTy, subst, subst, subst_subst e (σ.under [.into]) (τ.under [.into])]
    rfl
  | error (some p), σ, τ => by
    rw [subst, ofTy, subst, subst, subst_subst p (σ.under [.into]) (τ.under [.into])]
    rfl
  | none, _, _ | bool, _, _ | int, _, _ | word, _, _ | str, _, _ | time, _, _ | list .none _, _, _
  | error .none, _, _ => rfl

theorem substAll_substAll : (hs : List Hint) → (σ τ : Substitution) →
    substAll (ofTys (substAll hs σ)) τ = substAll hs (σ.then τ)
  | [], _, _ => rfl
  | h :: hs, σ, τ => by
    rw [substAll, ofTys, substAll, substAll, subst_subst h (σ.under [.into]) (τ.under [.into]),
      substAll_substAll hs (σ.under [.past]) (τ.under [.past])]
    rfl

end

/-- A hint admits what its instances admit as hints. -/
theorem admits_trans (ht : h.admits t = true) (hu : (ofTy t).admits u = true) : h.admits u = true := by
  obtain ⟨σ, rfl⟩ := admits_iff_exists_subst.1 ht
  obtain ⟨τ, rfl⟩ := admits_iff_exists_subst.1 hu
  rw [subst_subst]
  exact admits_subst h (σ.then τ)

mutual

/-- Types that are instances of each other are the same. -/
theorem admits_antisymm : (t : Ty) → ∀ {u}, (ofTy t).admits u = true → (ofTy u).admits t = true → t = u
  | .value m, u, h, h' => by
    obtain ⟨w, rfl⟩ := value_admits.1 h
    obtain ⟨w', hw⟩ := value_admits.1 h'
    rw [UnitMark.or_antisymm (Ty.value.inj hw).symm]
  | .complex m, u, h, h' => by
    obtain ⟨w, rfl⟩ := complex_admits.1 h
    obtain ⟨w', hw⟩ := complex_admits.1 h'
    rw [UnitMark.or_antisymm (Ty.complex.inj hw).symm]
  | .cluster ts, u, h, h' => by
    obtain ⟨us, rfl, hus⟩ := cluster_admits.1 h
    rw [admitsAll_antisymm ts hus h']
  | .list (some e) depth, u, h, h' => by
    obtain ⟨v, rfl, hv⟩ := list_admits.1 h
    obtain ⟨_, ⟨⟩, hv'⟩ := list_admits.1 h'
    rw [admits_antisymm e hv hv']
  | .error (some p), u, h, h' => by
    obtain ⟨v, rfl, hv⟩ := error_admits.1 h
    rw [admits_antisymm p hv h']
  | .list .none _, u, h, _ => (emptyList_admits.1 h).symm
  | .none, u, h, _ | .bool, u, h, _ | .int, u, h, _ | .word, u, h, _ | .str, u, h, _ | .time, u, h, _
  | .error .none, u, h, _ => by
    cases (scalar_admits (by simp [ofTy])).1 h
    rfl

theorem admitsAll_antisymm : (ts : List Ty) → ∀ {us}, admitsAll (ofTys ts) us = true →
    admitsAll (ofTys us) ts = true → ts = us
  | [], [], _, _ => rfl
  | t :: ts, u :: us, h, h' => by
    obtain ⟨ht, hts⟩ := Bool.and_eq_true_iff.1 h
    obtain ⟨hu, hus⟩ := Bool.and_eq_true_iff.1 h'
    rw [admits_antisymm t ht hu, admitsAll_antisymm ts hts hus]

end

end Hint

/-- A hint admits a type if the type is what it becomes by putting a type in the place of each wildcard and a unit in the
place of each missing one. This is an order of types, and what a hint admits is closed under it. -/
theorem admits_iff_subst :
    (∀ (h : Hint) (t : Ty), h.admits t = true ↔ ∃ σ, h.subst σ = t) ∧
    (∀ (h : Hint) (t u : Ty), h.admits t = true → (Hint.ofTy t).admits u = true → h.admits u = true) ∧
    (∀ t u : Ty, (Hint.ofTy t).admits u = true → (Hint.ofTy u).admits t = true → t = u) :=
  ⟨fun _ _ => Hint.admits_iff_exists_subst, fun _ _ _ => Hint.admits_trans, fun t _ => Hint.admits_antisymm t⟩

/-- The type `(Eciv[m])` is an instance of the hint `(??v)` and has a missing unit of its own. With the unit put in, it is no
longer an instance of what it was. -/
theorem admits_iff_subst_missing_unit :
    let h : Hint := .cluster [.wildcard, .wildcard, .value .unspecified]
    let t : Ty := .cluster [.error (some (.complex .unspecified)), .int, .value (.named "m")]
    let u : Ty := .cluster [.error (some (.complex .dimensionless)), .int, .value (.named "m")]
    h.admits t = true ∧ (∃ σ, h.subst σ = t) ∧ (Hint.ofTy t).admits u = true ∧ h.admits u = true ∧
      (Hint.ofTy u).admits t = false := by
  intro h t u
  obtain ⟨instances, trans, antisymm⟩ := admits_iff_subst
  have ht : h.admits t = true := rfl
  have hu : (Hint.ofTy t).admits u = true := rfl
  have hne : t ≠ u := by decide
  exact ⟨ht, (instances h t).1 ht, hu, trans h t u ht hu, Bool.eq_false_iff.2 fun hut => hne (antisymm t u hu hut)⟩

end TagWire
