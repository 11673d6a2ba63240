import TagWire.Proofs.Typing.Fitting

/-!
# Why flattening fails

Flattening fails at a part of a value, for a reason that the part and its type give. Room in a buffer is none of the
reasons, and whatever a type leaves open is one only where the value has something there.
-/

namespace TagWire

/-! ## Failures of emissions -/

namespace Emission

variable {a b : Emission} {e : FlattenError}

theorem failure_andThen_eq_some (h : (a.andThen b).failure = some e) : a.failure = some e ∨ b.failure = some e := by
  rw [failure_andThen] at h
  cases ha : a.failure with
  | none =>
    rw [ha] at h
    exact .inr h
  | some _ =>
    rw [ha] at h
    exact .inl h

theorem failure_guarded {α : Type} {check : Except FlattenError α} {emit : α → Emission}
    (h : (guarded check emit).failure = some e) : check = .error e ∨ ∃ x, check = .ok x ∧ (emit x).failure = some e := by
  cases check with
  | error e' =>
    cases h
    exact .inl rfl
  | ok x => exact .inr ⟨x, rfl, h⟩

theorem failure_sequence_map {α : Type} {emit : α → Emission} : ∀ {xs : List α},
    (sequence (xs.map emit)).failure = some e → ∃ x ∈ xs, (emit x).failure = some e
  | [], h => by cases h
  | x :: xs, h => by
    rcases failure_andThen_eq_some h with h | h
    · exact ⟨x, List.mem_cons_self, h⟩
    · obtain ⟨y, hy, h⟩ := failure_sequence_map h
      exact ⟨y, List.mem_cons_of_mem x hy, h⟩

end Emission

open Emission

/-! ## Faults -/

namespace Ty

/-- The second type stands for the second value where the first one stands for the first: it is a part of the type, and
the value is the same part of the value. -/
inductive Faces : Ty → Data → Ty → Data → Prop where
  | self {t d} : Faces t d t d
  | member {ts ds t d u x} : ds.length = ts.length → (t, d) ∈ ts.zip ds → Faces t d u x →
    Faces (cluster ts) (.tuple ds) u x
  | leaf {e depth d g y u x} : d.grid depth = .ok g → y ∈ g.leaves → Faces e y u x → Faces (list (some e) depth) d u x
  | payload {p code message q u x} : Faces p q u x → Faces (error (some p)) (.error code message (some q)) u x

/-- Flattening a value under a type fails at the value itself, whatever its parts are. -/
inductive Fault : Ty → Data → FlattenError → Prop where
  | mismatch {t d} : Fault t d (.mismatch (.ofTy t) d)
  | outOfRange {t d n target} : Fault t d (.outOfRange n target)
  | unit {t d want label} : Fault t d (.unitMismatch want label)
  | arity {ts ds} : ds.length ≠ ts.length →
    Fault (cluster ts) (.tuple ds) (.arityMismatch (.ofTy (cluster ts)) ts.length ds.length)
  | notAList {elem depth d level} : d.grid depth = .error (.notAList level) →
    Fault (list elem depth) d (.notAList depth d)
  | ragged {elem depth d level first other} : d.grid depth = .error (.ragged level first other) →
    Fault (list elem depth) d (.ragged depth level first other)
  | openValue {d} : Fault (value .unspecified) d (.unresolved (value .unspecified))
  | openComplex {d} : Fault (complex .unspecified) d (.unresolved (complex .unspecified))
  | openElement {depth d g} : d.grid depth = .ok g → g.leaves ≠ [] →
    Fault (list .none depth) d (.unresolved (list .none depth))

variable {order : ByteOrder} {d : Data} {e : FlattenError}

theorem Fault.grid {elem : Option Ty} {depth : Nat} {e : GridError} (h : d.grid depth = .error e) :
    Fault (list elem depth) d (.ofGrid depth d e) := by
  cases e with
  | notAList level => exact .notAList h
  | ragged level first other => exact .ragged h

theorem failure_view {α : Type} {t : Ty} {view : Option α} {emit : α → Emission}
    (h : (t.emitView d view emit).failure = some e) : Fault t d e ∨ ∃ a, (emit a).failure = some e := by
  cases view with
  | none =>
    cases h
    exact .inl .mismatch
  | some a => exact .inr ⟨a, h⟩

theorem failure_string {xs : List UInt8} (h : (emitString order xs).failure = some e) :
    ∃ n target, e = .outOfRange n target := by
  unfold emitString at h
  split at h
  · rcases failure_andThen_eq_some h with h | h <;> cases h
  · cases h
    exact ⟨_, _, rfl⟩

theorem failure_shape {shape : List Nat} (h : (emitShape order shape).failure = some e) :
    ∃ n target, e = .outOfRange n target := by
  obtain ⟨n, _, h⟩ := failure_sequence_map h
  split at h
  · cases h
  · cases h
    exact ⟨_, _, rfl⟩

theorem failure_label {u : UnitMark} {ty : Ty} {label : String} (h : u.checkLabel ty label = .error e) :
    (∃ want, e = .unitMismatch want label) ∨ (u = .unspecified ∧ e = .unresolved ty) := by
  cases u <;> unfold UnitMark.checkLabel at h <;> simp only at h <;> split at h <;> cases h
  · exact .inr ⟨rfl, rfl⟩
  · exact .inl ⟨_, rfl⟩
  · exact .inl ⟨_, rfl⟩

/-- The code and the message of an error may fail only for their size. -/
theorem failure_error {t : Ty} {code : Int32} {message : String} {rest : Emission}
    (h : ((emitWord order 4 code.toInt).andThen ((emitString order (Utf8.encode message)).andThen rest)).failure =
      some e) : Fault t d e ∨ rest.failure = some e := by
  rcases failure_andThen_eq_some h with h | h
  · cases h
  rcases failure_andThen_eq_some h with h | h
  · obtain ⟨n, target, rfl⟩ := failure_string h
    exact .inl .outOfRange
  · exact .inr h

theorem failure_visit {t : Ty} {b : Emission} (h : (Emission.andThen ⟨[.visit d t], Option.none⟩ b).failure = some e) :
    b.failure = some e := by
  rcases failure_andThen_eq_some h with h | h
  · cases h
  · exact h

mutual

/-- Flattening fails with the fault of a part. -/
theorem exists_fault : (t : Ty) → ∀ {d}, (t.emit order d).failure = some e → ∃ u x, Faces t d u x ∧ Fault u x e
  | none, d, h => by
    cases d <;> simp only [emit] at h <;> cases failure_visit h <;> exact ⟨_, _, .self, .mismatch⟩
  | bool, d, h => by
    cases d <;> simp only [emit] at h <;> cases failure_visit h <;> exact ⟨_, _, .self, .mismatch⟩
  | int, d, h => by
    rw [emit] at h
    rcases failure_view (failure_visit h) with h | ⟨n, h⟩
    · exact ⟨_, _, .self, h⟩
    · rcases failure_guarded h with h | ⟨_, _, h⟩
      · cases checkInt_eq_error h
        exact ⟨_, _, .self, .outOfRange⟩
      · cases h
  | word, d, h => by
    rw [emit] at h
    rcases failure_view (failure_visit h) with h | ⟨n, h⟩
    · exact ⟨_, _, .self, h⟩
    · rcases failure_guarded h with h | ⟨_, _, h⟩
      · cases checkWord_eq_error h
        exact ⟨_, _, .self, .outOfRange⟩
      · cases h
  | str, d, h => by
    rw [emit] at h
    rcases failure_view (failure_visit h) with h | ⟨xs, h⟩
    · exact ⟨_, _, .self, h⟩
    · obtain ⟨n, target, rfl⟩ := failure_string h
      exact ⟨_, _, .self, .outOfRange⟩
  | time, d, h => by
    cases d <;> simp only [emit] at h <;> replace h := failure_visit h
    case time =>
      rcases failure_andThen_eq_some h with h | h <;> cases h
    all_goals
      cases h
      exact ⟨_, _, .self, .mismatch⟩
  | value u, d, h => by
    rw [emit] at h
    rcases failure_view (failure_visit h) with h | ⟨r, h⟩
    · exact ⟨_, _, .self, h⟩
    rcases failure_guarded h with h | ⟨_, _, h⟩
    · rcases failure_label h with ⟨want, rfl⟩ | ⟨rfl, rfl⟩
      · exact ⟨_, _, .self, .unit⟩
      · exact ⟨_, _, .self, .openValue⟩
    · cases h
  | complex u, d, h => by
    rw [emit] at h
    rcases failure_view (failure_visit h) with h | ⟨r, h⟩
    · exact ⟨_, _, .self, h⟩
    rcases failure_guarded h with h | ⟨_, _, h⟩
    · rcases failure_label h with ⟨want, rfl⟩ | ⟨rfl, rfl⟩
      · exact ⟨_, _, .self, .unit⟩
      · exact ⟨_, _, .self, .openComplex⟩
    · rcases failure_andThen_eq_some h with h | h <;> cases h
  | cluster ts, d, h => by
    cases d <;> simp only [emit] at h <;> replace h := failure_visit h
    case tuple ds =>
      split at h
      · rename_i hl
        obtain ⟨t, x, hm, u, y, hf, hu⟩ := exists_fault_member ts h
        exact ⟨u, y, .member hl hm hf, hu⟩
      · rename_i hl
        cases h
        exact ⟨_, _, .self, .arity hl⟩
    all_goals
      cases h
      exact ⟨_, _, .self, .mismatch⟩
  | list (some t) depth, d, h => by
    rw [emit] at h
    rcases failure_guarded (failure_visit h) with h | ⟨g, hg, h⟩
    · obtain ⟨e', hg, rfl⟩ := mapError_eq_error.1 h
      exact ⟨_, _, .self, .grid hg⟩
    rcases failure_andThen_eq_some h with h | h
    · obtain ⟨n, target, rfl⟩ := failure_shape h
      exact ⟨_, _, .self, .outOfRange⟩
    · obtain ⟨x, hx, h⟩ := failure_sequence_map h
      obtain ⟨u, y, hf, hu⟩ := exists_fault t h
      exact ⟨u, y, .leaf (mapError_eq_ok.1 hg) hx hf, hu⟩
  | list .none depth, d, h => by
    rw [emit] at h
    rcases failure_guarded (failure_visit h) with h | ⟨g, hg, h⟩
    · obtain ⟨e', hg, rfl⟩ := mapError_eq_error.1 h
      exact ⟨_, _, .self, .grid hg⟩
    rcases failure_andThen_eq_some h with h | h
    · obtain ⟨n, target, rfl⟩ := failure_shape h
      exact ⟨_, _, .self, .outOfRange⟩
    · split at h
      · cases h
      · -- there are elements, and nothing says what they are
        rename_i hl
        cases h
        exact ⟨_, _, .self, .openElement (mapError_eq_ok.1 hg) (mt List.isEmpty_iff.2 hl)⟩
  | error (some p), d, h => by
    cases d <;> simp only [emit] at h <;> replace h := failure_visit h
    case error code message payload =>
      rcases failure_error h with h | h
      · exact ⟨_, _, .self, h⟩
      · cases payload with
        | none => cases h
        | some q =>
          rcases failure_andThen_eq_some h with h | h
          · cases h
          · obtain ⟨u, y, hf, hu⟩ := exists_fault p h
            exact ⟨u, y, .payload hf, hu⟩
    all_goals
      cases h
      exact ⟨_, _, .self, .mismatch⟩
  | error .none, d, h => by
    cases d <;> simp only [emit] at h <;> replace h := failure_visit h
    case error code message payload =>
      rcases failure_error h with h | h
      · exact ⟨_, _, .self, h⟩
      · cases payload with
        | none => cases h
        | some q =>
          cases h
          exact ⟨_, _, .self, .mismatch⟩
    all_goals
      cases h
      exact ⟨_, _, .self, .mismatch⟩

theorem exists_fault_member : (ts : List Ty) → ∀ {ds}, (emitMembers order ts ds).failure = some e →
    ∃ t x, (t, x) ∈ ts.zip ds ∧ ∃ u y, Faces t x u y ∧ Fault u y e
  | t :: ts, d :: ds, h => by
    rw [emitMembers] at h
    rcases failure_andThen_eq_some h with h | h
    · exact ⟨t, d, List.mem_cons_self, exists_fault t h⟩
    · obtain ⟨u, x, hm, hf⟩ := exists_fault_member ts h
      exact ⟨u, x, List.mem_cons_of_mem _ hm, hf⟩
  | [], ds, h => by
    rw [emitMembers] at h
    · cases h
    · simp
  | t :: ts, [], h => by
    rw [emitMembers] at h
    · cases h
    · simp

end

theorem failure_ne_bufferFull (t : Ty) (d : Data) : (t.emit order d).failure ≠ some .bufferFull := by
  intro h
  obtain ⟨u, x, _, hf⟩ := exists_fault t h
  cases hf

end Ty

end TagWire
