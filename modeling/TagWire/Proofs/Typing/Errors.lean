import TagWire.Codec
import TagWire.Proofs.Typing.Fitting

/-!
# Errors of typing

Choosing a type for a value fails for what is known about the value and its hints. That a type is not resolved enough,
or that a buffer is full, is not known before anything is written.
-/

namespace TagWire

/-- The errors that choosing a type may end with. -/
def FlattenError.OfTyping : FlattenError → Prop
  | unresolved _ | bufferFull => False
  | _ => True

open FlattenError

variable {units : Units} {e : FlattenError}

theorem ofTyping_ofGrid {depth : Nat} {d : Data} {ge : GridError} : (ofGrid depth d ge).OfTyping := by
  cases ge <;> trivial

namespace UnitMark

theorem ofTyping_ofPlain {u : UnitMark} (h : u.ofPlain = .error e) : e.OfTyping := by
  cases u <;> cases h
  trivial

theorem ofTyping_ofData {u : UnitMark} {l : String} (h : u.ofData units l = .error e) : e.OfTyping := by
  unfold ofData at h
  split at h
  · exact ofTyping_ofPlain h
  · cases u with
    | unspecified => cases h
    | dimensionless =>
      cases h
      trivial
    | named want =>
      simp only at h
      split at h <;> cases h
      trivial

end UnitMark

theorem ofTyping_infer {d : Data} (h : d.infer.mapError FlattenError.untyped = .error e) : e.OfTyping := by
  obtain ⟨_, _, rfl⟩ := mapError_eq_error.1 h
  trivial

/-! ## Hints -/

theorem ofTyping_joinItems {fit : Data → Except FlattenError Ty} :
    ∀ {ds : List Data} {a : Option Ty}, (∀ x ∈ ds, ∀ e, fit x = .error e → e.OfTyping) →
      joinItems fit a ds = .error e → e.OfTyping
  | [], a, _, h => by
    rw [joinItems] at h
    cases h
  | d :: ds, none, hd, h => by
    obtain ⟨hd, hds⟩ := List.forall_mem_cons.1 hd
    rw [joinItems] at h
    rcases bind_eq_error.1 h with h | ⟨u, _, h⟩
    · exact hd e h
    · exact ofTyping_joinItems hds h
  | d :: ds, some t, hd, h => by
    obtain ⟨hd, hds⟩ := List.forall_mem_cons.1 hd
    rw [joinItems] at h
    rcases bind_eq_error.1 h with h | ⟨u, _, h⟩
    · exact hd e h
    · split at h
      · exact ofTyping_joinItems hds h
      · cases h
        trivial

namespace Hint

mutual

theorem ofTyping_fit : (h : Hint) → ∀ {d e}, h.fit units d = .error e → e.OfTyping
  | wildcard, d, e, h => by
    rw [fit] at h
    exact ofTyping_infer h
  | none, d, e, h | bool, d, e, h | str, d, e, h | time, d, e, h => by
    cases d <;> simp only [fit] at h <;> cases h <;> trivial
  | int, d, e, h => by
    rw [fit] at h
    split at h
    · cases checkInt_eq_error (map_eq_error.1 h)
      trivial
    · cases h
      trivial
  | word, d, e, h => by
    rw [fit] at h
    split at h
    · cases checkWord_eq_error (map_eq_error.1 h)
      trivial
    · cases h
      trivial
  | value u, d, e, h => by
    cases d <;> simp only [fit, map_eq_error] at h <;>
      first
      | exact UnitMark.ofTyping_ofPlain h
      | exact UnitMark.ofTyping_ofData h
      | cases h; trivial
  | complex u, d, e, h => by
    cases d <;> simp only [fit, map_eq_error] at h <;>
      first
      | exact UnitMark.ofTyping_ofPlain h
      | exact UnitMark.ofTyping_ofData h
      | cases h; trivial
  | cluster hs, d, e, h => by
    cases d <;> simp only [fit] at h
    case tuple ds =>
      split at h
      · exact ofTyping_fitAll hs (map_eq_error.1 h)
      · cases h
        trivial
    all_goals
      cases h
      trivial
  | list (some x) depth, d, e, h => by
    unfold fit at h
    cases hg : d.grid depth with
    | error ge =>
      rw [hg] at h
      cases h
      exact ofTyping_ofGrid
    | ok g =>
      rw [hg] at h
      exact ofTyping_joinItems (fun y _ e he => ofTyping_fit x he) (map_eq_error.1 h)
  | list .none depth, d, e, h => by
    unfold fit at h
    cases hg : d.grid depth with
    | error ge =>
      rw [hg] at h
      cases h
      exact ofTyping_ofGrid
    | ok g =>
      rw [hg] at h
      simp only at h
      split at h <;> cases h
      trivial
  | error (some x), d, e, h => by
    cases d with
    | error _ _ payload =>
      cases payload with
      | none =>
        rw [fit] at h
        cases h
      | some q =>
        rw [fit] at h
        exact ofTyping_fit x (map_eq_error.1 h)
    | _ =>
      simp only [fit] at h
      cases h
      trivial
  | error .none, d, e, h => by
    cases d with
    | error _ _ payload =>
      cases payload with
      | none =>
        rw [fit] at h
        cases h
      | some q =>
        simp only [fit] at h
        cases h
        trivial
    | _ =>
      simp only [fit] at h
      cases h
      trivial

theorem ofTyping_fitAll : (hs : List Hint) → ∀ {ds e}, fitAll units hs ds = .error e → e.OfTyping
  | m :: ms, d :: ds, e, h => by
    rw [fitAll] at h
    rcases bind_eq_error.1 h with h | ⟨t, _, h⟩
    · exact ofTyping_fit m h
    rcases bind_eq_error.1 h with h | ⟨ts, _, h⟩
    · exact ofTyping_fitAll ms h
    · cases h
  | [], ds, e, h => by
    rw [fitAll] at h
    · cases h
    · simp
  | m :: ms, [], e, h => by
    rw [fitAll] at h
    · cases h
    · simp

end

theorem ofTyping_accept {h : Hint} {d : Data} (he : h.accept units d = .error e) : e.OfTyping := by
  rw [accept] at he
  rcases bind_eq_error.1 he with he | ⟨t, _, he⟩
  · exact ofTyping_fit h he
  · split at he <;> cases he
    trivial

end Hint

theorem ofTyping_resolve {d : Data} {hs : List Hint} (h : resolve units d hs = .error e) : e.OfTyping := by
  unfold resolve at h
  split at h
  · exact ofTyping_infer h
  · exact Hint.ofTyping_accept h
  · split at h <;> cases h
    trivial

/-! ## Unknown elements -/

theorem ofTyping_specialize_all :
    (∀ d t, ∀ e, specialize d t = .error e → e.OfTyping) ∧
    (∀ elem leaves, ∀ e, refine elem leaves = .error e → e.OfTyping) ∧
    (∀ ds ts, ∀ e, specializeAll ds ts = .error e → e.OfTyping) := by
  apply specialize_induction
  case cluster =>
    intro ds ts hl ih e h
    rw [specialize, if_pos hl, map_eq_error] at h
    exact ih e h
  case ragged =>
    intro d elem depth ge he hg e h
    rw [specialize, if_neg he] at h
    split at h
    · cases h
      exact ofTyping_ofGrid
    · rename_i g hg'
      rw [hg] at hg'
      cases hg'
  case list =>
    intro d elem depth g he hg ih e h
    rw [specialize, if_neg he] at h
    split at h
    · cases h
      exact ofTyping_ofGrid
    · rename_i g' hg'
      rw [hg] at hg'
      cases hg'
      rcases bind_eq_error.1 h with h | ⟨t, _, h⟩
      · exact ih e h
      · -- a leaf may not conform to what all of them have refined
        split at h
        · cases h
        · split at h <;> cases h
          trivial
  case payload =>
    intro code message p t ih e h
    rw [specialize, map_eq_error] at h
    exact ih e h
  case unchanged =>
    intro d t hok e h
    rw [hok] at h
    cases h
  case noItem =>
    intro elem e h
    rw [refine] at h
    cases h
  case firstItem =>
    intro d ds ih ihs e h
    rw [refine] at h
    rcases bind_eq_error.1 h with h | ⟨t, _, h⟩
    · exact ofTyping_infer h
    rcases bind_eq_error.1 h with h | ⟨u, _, h⟩
    · exact ih t e h
    · exact ihs u e h
  case nextItem =>
    intro t d ds ih ihs e h
    rw [refine] at h
    rcases bind_eq_error.1 h with h | ⟨_, ⟨⟩, h⟩
    · cases h
    rcases bind_eq_error.1 h with h | ⟨u, _, h⟩
    · exact ih t e h
    · exact ihs u e h
  case cons =>
    intro d ds t ts ih ihs e h
    rw [specializeAll] at h
    rcases bind_eq_error.1 h with h | ⟨u, hu, h⟩
    · exact ih e h
    rcases bind_eq_error.1 h with h | ⟨us, hus, h⟩
    · exact ihs e h
    · cases h
  case uneven =>
    rintro ds ts (rfl | rfl) e h
    all_goals
      rw [specializeAll] at h
      · cases h
      · simp

/-- Nothing is known of room or of open types before a value is written. -/
theorem Codec.ofTyping_resolve (c : Codec) {d : Data} {hs : List Hint} (h : c.resolve d hs = .error e) : e.OfTyping := by
  rw [resolve] at h
  rcases bind_eq_error.1 h with h | ⟨t, _, h⟩
  · exact TagWire.ofTyping_resolve h
  · exact ofTyping_specialize_all.1 d t e h

end TagWire
