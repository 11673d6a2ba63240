import TagWire.Proofs.Outcome
import TagWire.Wire.Encode

/-!
# Values that fit a hint

What a value is when it fits a hint, one statement for each hint. Nothing below this module is unfolded again.
-/

namespace TagWire

variable {units : Units} {d : Data} {t : Ty}

/-! ## Scalars -/

theorem checkInt_eq_ok {m n : Int} : checkInt m = .ok n ↔ m = n ∧ -0x80000000 ≤ n ∧ n < 0x80000000 := by
  unfold checkInt
  split <;> grind

theorem checkWord_eq_ok {m n : Int} : checkWord m = .ok n ↔ m = n ∧ 0 ≤ n ∧ n < 0x100000000 := by
  unfold checkWord
  split <;> grind

theorem checkInt_eq_error {n : Int} {e : FlattenError} (h : checkInt n = .error e) : e = .outOfRange n .int := by
  unfold checkInt at h
  split at h <;> cases h
  rfl

theorem checkWord_eq_error {n : Int} {e : FlattenError} (h : checkWord n = .error e) : e = .outOfRange n .word := by
  unfold checkWord at h
  split at h <;> cases h
  rfl

namespace UnitMark

theorem ofData_plain {u : UnitMark} : ofData units "" u = u.ofPlain := if_pos rfl

/-- The unit of data is never changed, whatever is asked for. -/
theorem ofData_eq_ok {u m : UnitMark} {l : String} (h : u.ofData units l = .ok m) : m = .ofLabel l := by
  unfold ofData at h
  split at h
  · rename_i hl
    subst hl
    cases u <;> cases h <;> rfl
  · cases u with
    | unspecified =>
      cases h
      rfl
    | dimensionless => cases h
    | named want =>
      simp only at h
      split at h
      · cases h
        rfl
      · cases h

/-- The type of a number with a label, from a view of data. -/
def ofView {α : Type} (units : Units) (u : UnitMark) (mk : UnitMark → Ty) (e : FlattenError)
    (view : Option (α × String)) : Except FlattenError Ty :=
  view.elim (.error e) fun r => (u.ofData units r.2).map mk

theorem ofView_eq_ok {α : Type} {u : UnitMark} {mk : UnitMark → Ty} {e : FlattenError} {view : Option (α × String)} :
    u.ofView units mk e view = .ok t ↔ ∃ x l m, view = some (x, l) ∧ u.ofData units l = .ok m ∧ t = mk m := by
  cases view with
  | none => simp [ofView]
  | some r =>
    simp only [ofView, Option.elim_some, map_eq_ok]
    constructor
    · rintro ⟨m, hm, rfl⟩
      exact ⟨r.1, r.2, m, rfl, hm, rfl⟩
    · rintro ⟨_, _, m, ⟨⟩, hm, rfl⟩
      exact ⟨m, hm, rfl⟩

end UnitMark

namespace Hint

attribute [local simp] fit fitAll

theorem fit_wildcard : wildcard.fit units d = .ok t ↔ d.infer = .ok t := by
  rw [fit]
  exact mapError_eq_ok

theorem fit_none : none.fit units d = .ok t ↔ d = .none ∧ t = .none := by
  constructor
  · intro h
    cases d <;> rw [fit] at h <;> cases h
    exact ⟨rfl, rfl⟩
  · rintro ⟨rfl, rfl⟩
    rw [fit]

theorem fit_bool : bool.fit units d = .ok t ↔ (∃ b, d = .bool b) ∧ t = .bool := by
  constructor
  · intro h
    cases d <;> rw [fit] at h <;> cases h
    exact ⟨⟨_, rfl⟩, rfl⟩
  · rintro ⟨⟨b, rfl⟩, rfl⟩
    rw [fit]

theorem fit_int : int.fit units d = .ok t ↔
    (∃ n, d.integer? = some n ∧ -0x80000000 ≤ n ∧ n < 0x80000000) ∧ t = .int := by
  rw [fit]
  cases d.integer? with
  | none => simp
  | some n =>
    simp only [map_eq_ok, checkInt_eq_ok]
    constructor
    · rintro ⟨_, ⟨rfl, hn⟩, rfl⟩
      exact ⟨⟨n, rfl, hn⟩, rfl⟩
    · rintro ⟨⟨_, ⟨⟩, hn⟩, rfl⟩
      exact ⟨n, ⟨rfl, hn⟩, rfl⟩

theorem fit_word : word.fit units d = .ok t ↔
    (∃ n, d.integer? = some n ∧ 0 ≤ n ∧ n < 0x100000000) ∧ t = .word := by
  rw [fit]
  cases d.integer? with
  | none => simp
  | some n =>
    simp only [map_eq_ok, checkWord_eq_ok]
    constructor
    · rintro ⟨_, ⟨rfl, hn⟩, rfl⟩
      exact ⟨⟨n, rfl, hn⟩, rfl⟩
    · rintro ⟨⟨_, ⟨⟩, hn⟩, rfl⟩
      exact ⟨n, ⟨rfl, hn⟩, rfl⟩

theorem fit_str : str.fit units d = .ok t ↔ (∃ xs, d.bytes? = some xs) ∧ t = .str := by
  constructor
  · intro h
    cases d <;> rw [fit] at h <;> cases h <;> exact ⟨⟨_, rfl⟩, rfl⟩
  · rintro ⟨⟨xs, h⟩, rfl⟩
    cases d <;> cases h <;> rw [fit]

theorem fit_time : time.fit units d = .ok t ↔ (∃ i, d = .time i) ∧ t = .time := by
  constructor
  · intro h
    cases d <;> rw [fit] at h <;> cases h
    exact ⟨⟨_, rfl⟩, rfl⟩
  · rintro ⟨⟨i, rfl⟩, rfl⟩
    rw [fit]

theorem fit_value {u : UnitMark} : (value u).fit units d = .ok t ↔
    ∃ x l m, d.real? = some (x, l) ∧ u.ofData units l = .ok m ∧ t = .value m := by
  rw [← UnitMark.ofView_eq_ok (e := .mismatch (value u) d)]
  cases d <;> simp [Data.real?, UnitMark.ofView, UnitMark.ofData_plain]

theorem fit_complex {u : UnitMark} : (complex u).fit units d = .ok t ↔
    ∃ z l m, d.complex? = some (z, l) ∧ u.ofData units l = .ok m ∧ t = .complex m := by
  rw [← UnitMark.ofView_eq_ok (e := .mismatch (complex u) d)]
  cases d <;> simp [Data.complex?, Data.real?, UnitMark.ofView, UnitMark.ofData_plain]

/-! ## Clusters, lists and errors -/

theorem fit_cluster {hs : List Hint} : (cluster hs).fit units d = .ok t ↔
    ∃ ds ts, d = .tuple ds ∧ ds.length = hs.length ∧ fitAll units hs ds = .ok ts ∧ t = .cluster ts := by
  constructor
  · intro h
    cases d <;> rw [fit] at h <;> try cases h
    split at h
    · rename_i ds hl
      obtain ⟨ts, hts, rfl⟩ := map_eq_ok.1 h
      exact ⟨ds, ts, rfl, hl, hts, rfl⟩
    · cases h
  · rintro ⟨ds, ts, rfl, hl, hts, rfl⟩
    rw [fit, if_pos hl, hts]
    rfl

theorem fitAll_cons {h : Hint} {hs : List Hint} {ds : List Data} {ts : List Ty} :
    fitAll units (h :: hs) (d :: ds) = .ok ts ↔
      ∃ u us, h.fit units d = .ok u ∧ fitAll units hs ds = .ok us ∧ ts = u :: us := by
  rw [fitAll]
  simp only [bind_eq_ok, Except.ok.injEq]
  constructor
  · rintro ⟨u, hu, us, hus, rfl⟩
    exact ⟨u, us, hu, hus, rfl⟩
  · rintro ⟨u, us, hu, hus, rfl⟩
    exact ⟨u, hu, us, hus, rfl⟩

theorem fit_list {h : Hint} {depth : Nat} : (list (some h) depth).fit units d = .ok t ↔
    ∃ g e, d.grid depth = .ok g ∧ joinItems (h.fit units) Option.none g.leaves = .ok e ∧ t = .list e depth := by
  unfold fit
  cases d.grid depth with
  | error e => simp
  | ok g =>
    simp only [map_eq_ok]
    constructor
    · rintro ⟨e, he, rfl⟩
      exact ⟨g, e, rfl, he, rfl⟩
    · rintro ⟨_, e, ⟨⟩, he, rfl⟩
      exact ⟨e, he, rfl⟩

theorem fit_emptyList {depth : Nat} : (list Option.none depth).fit units d = .ok t ↔
    ∃ g, d.grid depth = .ok g ∧ g.leaves = [] ∧ t = .list Option.none depth := by
  unfold fit
  cases d.grid depth with
  | error e => simp
  | ok g =>
    constructor
    · intro h
      simp only at h
      split at h
      · rename_i he
        cases h
        exact ⟨g, rfl, List.isEmpty_iff.1 he, rfl⟩
      · cases h
    · rintro ⟨_, ⟨⟩, hl, rfl⟩
      simp [hl]

/-- Any error without a payload fits, whatever payload is asked for. -/
theorem fit_error {h : Hint} : (error (some h)).fit units d = .ok t ↔
    ∃ code message, (d = .error code message Option.none ∧ t = .error Option.none) ∨
      ∃ q p, d = .error code message (some q) ∧ h.fit units q = .ok p ∧ t = .error (some p) := by
  constructor
  · intro hf
    cases d with
    | error code message payload =>
      cases payload with
      | none =>
        rw [fit] at hf
        cases hf
        exact ⟨code, message, .inl ⟨rfl, rfl⟩⟩
      | some q =>
        rw [fit] at hf
        obtain ⟨p, hp, rfl⟩ := map_eq_ok.1 hf
        exact ⟨code, message, .inr ⟨q, p, rfl, hp, rfl⟩⟩
    | _ => rw [fit] at hf <;> cases hf
  · rintro ⟨code, message, ⟨rfl, rfl⟩ | ⟨q, p, rfl, hp, rfl⟩⟩
    · rw [fit]
    · rw [fit, hp]
      rfl

theorem fit_bareError : (error Option.none).fit units d = .ok t ↔
    ∃ code message, d = .error code message Option.none ∧ t = .error Option.none := by
  constructor
  · intro hf
    cases d with
    | error code message payload =>
      cases payload <;> rw [fit] at hf <;> cases hf
      exact ⟨code, message, rfl, rfl⟩
    | _ => rw [fit] at hf <;> cases hf
  · rintro ⟨code, message, rfl, rfl⟩
    rw [fit]

end Hint

/-! ## Items of lists -/

section

variable {fit : Data → Except FlattenError Ty} {ds : List Data} {r : Option Ty}

theorem joinItems_none : joinItems fit none (d :: ds) = .ok r ↔
    ∃ u, fit d = .ok u ∧ joinItems fit (some u) ds = .ok r := by
  rw [joinItems]
  exact bind_eq_ok

theorem joinItems_some : joinItems fit (some t) (d :: ds) = .ok r ↔
    ∃ u v, fit d = .ok u ∧ t.unify u = some v ∧ joinItems fit (some v) ds = .ok r := by
  rw [joinItems, bind_eq_ok]
  constructor
  · rintro ⟨u, hu, h⟩
    split at h
    · rename_i v hv
      exact ⟨u, v, hu, hv, h⟩
    · cases h
  · rintro ⟨u, v, hu, hv, h⟩
    exact ⟨u, hu, by rw [hv]; exact h⟩

/-- What joining preserves holds of the type of the items if it holds of the type of each. -/
theorem joinItems_preserves {P : Ty → Prop} (hP : ∀ {a b c : Ty}, P a → P b → a.unify b = some c → P c) :
    ∀ {ds : List Data} {a : Option Ty}, (∀ x ∈ ds, ∀ u, fit x = .ok u → P u) → (∀ u ∈ a, P u) →
      joinItems fit a ds = .ok r → ∀ u ∈ r, P u
  | [], a, _, ha, h => by
    rw [joinItems] at h
    cases h
    exact ha
  | d :: ds, none, hd, _, h => by
    obtain ⟨hd, hds⟩ := List.forall_mem_cons.1 hd
    obtain ⟨u, hu, h⟩ := joinItems_none.1 h
    refine joinItems_preserves hP hds ?_ h
    rintro _ ⟨⟩
    exact hd u hu
  | d :: ds, some t, hd, ha, h => by
    obtain ⟨hd, hds⟩ := List.forall_mem_cons.1 hd
    obtain ⟨u, v, hu, hv, h⟩ := joinItems_some.1 h
    refine joinItems_preserves hP hds ?_ h
    rintro _ ⟨⟩
    exact hP (ha t rfl) (hd u hu) hv

end

end TagWire
