/-!
# Type tags

A `Ty` describes data on the wire. A `Hint` is what a caller proposes as a type: it has the same shape, and
may hold a wildcard anywhere, which a type never does.
-/

namespace TagWire

/-- What a `v` or `c` tag says about its unit. -/
inductive UnitMark where
  /-- No brackets: the unit is not known yet. -/
  | unspecified
  /-- Empty brackets: a plain number. -/
  | dimensionless
  /-- A unit label, which is never interpreted. -/
  | named (label : String)
deriving DecidableEq, Inhabited, Repr

namespace UnitMark

/-- The mark of data under a label; the empty label is dimensionless. -/
def ofLabel (label : String) : UnitMark :=
  if label = "" then dimensionless else named label

/-- The label between the brackets, if there are brackets. -/
def label? : UnitMark → Option String
  | unspecified => none
  | dimensionless => some ""
  | named label => some label

/-- The label between the brackets, empty if there are none. -/
def label (u : UnitMark) : String := u.label?.getD ""

end UnitMark

/-- A type of data. -/
inductive Ty where
  | none
  | bool
  | int
  | word
  | str
  | time
  | value (unit : UnitMark)
  | complex (unit : UnitMark)
  | cluster (members : List Ty)
  /-- A list of a number of dimensions. Without an element type it can only be empty. -/
  | list (elem : Option Ty) (depth : Nat)
  | error (payload : Option Ty)
deriving Inhabited, Repr

/-- A proposed type. -/
inductive Hint where
  | none
  | bool
  | int
  | word
  | str
  | time
  | value (unit : UnitMark)
  | complex (unit : UnitMark)
  | cluster (members : List Hint)
  | list (elem : Option Hint) (depth : Nat)
  | error (payload : Option Hint)
  | wildcard
deriving Inhabited, Repr

/-! ## Equality -/

namespace Ty

mutual

def same : Ty → Ty → Bool
  | none, none | bool, bool | int, int | word, word | str, str | time, time => true
  | value u, value v | complex u, complex v => u = v
  | cluster ms, cluster ns => sameAll ms ns
  | list (some a) d, list (some b) e => a.same b && d = e
  | list .none d, list .none e => d = e
  | error (some a), error (some b) => a.same b
  | error .none, error .none => true
  | _, _ => false

def sameAll : List Ty → List Ty → Bool
  | [], [] => true
  | a :: as, b :: bs => a.same b && sameAll as bs
  | _, _ => false

end

mutual

theorem eq_of_same : (a b : Ty) → a.same b = true → a = b
  | none, b, h | bool, b, h | int, b, h | word, b, h | str, b, h | time, b, h | value _, b, h | complex _, b, h => by
    cases b <;> simp_all [same]
  | cluster ms, b, h => by
    cases b <;> simp [same] at h
    rw [eq_of_sameAll _ _ h]
  | list (some a) d, b, h => by
    cases b with
    | list x e =>
      cases x with
      | none => simp [same] at h
      | some b =>
        simp only [same, Bool.and_eq_true, decide_eq_true_eq] at h
        rw [eq_of_same a b h.1, h.2]
    | _ => simp [same] at h
  | list .none d, b, h => by
    cases b with
    | list x e => cases x <;> simp_all [same]
    | _ => simp [same] at h
  | error (some a), b, h => by
    cases b with
    | error q =>
      cases q with
      | none => simp [same] at h
      | some b => rw [eq_of_same a b h]
    | _ => simp [same] at h
  | error .none, b, h => by
    cases b with
    | error q => cases q <;> simp_all [same]
    | _ => simp [same] at h

theorem eq_of_sameAll : (as bs : List Ty) → sameAll as bs = true → as = bs
  | [], bs, h => by cases bs <;> simp_all [sameAll]
  | a :: as, bs, h => by
    cases bs <;> simp [sameAll] at h
    rw [eq_of_same _ _ h.1, eq_of_sameAll _ _ h.2]

end

mutual

theorem same_self : (a : Ty) → a.same a = true
  | none | bool | int | word | str | time | value _ | complex _ | list .none _ | error .none => by simp [same]
  | cluster ms => by simp [same, sameAll_self ms]
  | list (some a) d => by simp [same, same_self a]
  | error (some a) => by simp [same, same_self a]

theorem sameAll_self : (as : List Ty) → sameAll as as = true
  | [] => by simp [sameAll]
  | a :: as => by simp [sameAll, same_self a, sameAll_self as]

end

theorem same_iff {a b : Ty} : a.same b = true ↔ a = b :=
  ⟨eq_of_same a b, fun h => h ▸ same_self a⟩

instance : DecidableEq Ty := fun _ _ => decidable_of_iff _ same_iff

end Ty

namespace Hint

mutual

def same : Hint → Hint → Bool
  | none, none | bool, bool | int, int | word, word | str, str | time, time | wildcard, wildcard => true
  | value u, value v | complex u, complex v => u = v
  | cluster ms, cluster ns => sameAll ms ns
  | list (some a) d, list (some b) e => a.same b && d = e
  | list .none d, list .none e => d = e
  | error (some a), error (some b) => a.same b
  | error .none, error .none => true
  | _, _ => false

def sameAll : List Hint → List Hint → Bool
  | [], [] => true
  | a :: as, b :: bs => a.same b && sameAll as bs
  | _, _ => false

end

mutual

theorem eq_of_same : (a b : Hint) → a.same b = true → a = b
  | none, b, h | bool, b, h | int, b, h | word, b, h | str, b, h | time, b, h | value _, b, h | complex _, b, h
  | wildcard, b, h => by
    cases b <;> simp_all [same]
  | cluster ms, b, h => by
    cases b <;> simp [same] at h
    rw [eq_of_sameAll _ _ h]
  | list (some a) d, b, h => by
    cases b with
    | list x e =>
      cases x with
      | none => simp [same] at h
      | some b =>
        simp only [same, Bool.and_eq_true, decide_eq_true_eq] at h
        rw [eq_of_same a b h.1, h.2]
    | _ => simp [same] at h
  | list .none d, b, h => by
    cases b with
    | list x e => cases x <;> simp_all [same]
    | _ => simp [same] at h
  | error (some a), b, h => by
    cases b with
    | error q =>
      cases q with
      | none => simp [same] at h
      | some b => rw [eq_of_same a b h]
    | _ => simp [same] at h
  | error .none, b, h => by
    cases b with
    | error q => cases q <;> simp_all [same]
    | _ => simp [same] at h

theorem eq_of_sameAll : (as bs : List Hint) → sameAll as bs = true → as = bs
  | [], bs, h => by cases bs <;> simp_all [sameAll]
  | a :: as, bs, h => by
    cases bs <;> simp [sameAll] at h
    rw [eq_of_same _ _ h.1, eq_of_sameAll _ _ h.2]

end

mutual

theorem same_self : (a : Hint) → a.same a = true
  | none | bool | int | word | str | time | value _ | complex _ | list .none _ | error .none | wildcard => by
    simp [same]
  | cluster ms => by simp [same, sameAll_self ms]
  | list (some a) d => by simp [same, same_self a]
  | error (some a) => by simp [same, same_self a]

theorem sameAll_self : (as : List Hint) → sameAll as as = true
  | [] => by simp [sameAll]
  | a :: as => by simp [sameAll, same_self a, sameAll_self as]

end

theorem same_iff {a b : Hint} : a.same b = true ↔ a = b :=
  ⟨eq_of_same a b, fun h => h ▸ same_self a⟩

instance : DecidableEq Hint := fun _ _ => decidable_of_iff _ same_iff

end Hint

end TagWire
