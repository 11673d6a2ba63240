import TagWire.Data.Height
import TagWire.Typing.Resolve

/-!
# Unknown elements of lists

A type may leave the elements of a list unknown, because the value that it was taken from was empty there.
All items of one list share the element type, so it is refined item by item, from the first one that has
something to say, and then every item has to conform to the result.
-/

namespace TagWire

/-- The unit of data under a label conforms to a mark. -/
def UnitMark.labelConforms (u : UnitMark) (label : String) : Bool :=
  u = .unspecified || u = .ofLabel label

/-- A plain number conforms to a mark. -/
def UnitMark.plainConforms : UnitMark → Bool
  | named _ => false
  | _ => true

namespace Ty

mutual

/-- Whether a value has the structure of a type. The size of integers is not looked at. -/
def conforms : Ty → Data → Bool
  | none, .none | bool, .bool _ | str, .bytes _ | str, .text _ | time, .time _ => true
  | int, d | word, d => d.integer?.isSome
  | value u, .float _ | value u, .int _ | value u, .word _ => u.plainConforms
  | value u, .value _ label => u.labelConforms label
  | complex u, .complex _ | complex u, .float _ | complex u, .int _ | complex u, .word _ => u.plainConforms
  | complex u, .complexValue _ label | complex u, .value _ label => u.labelConforms label
  | cluster ts, .tuple ds => allConform ts ds
  | list (some t) depth, d =>
    match d.grid depth with
    | .ok g => g.leaves.all t.conforms
    | .error _ => false
  | list Option.none depth, d =>
    match d.grid depth with
    | .ok g => g.leaves.isEmpty
    | .error _ => false
  | error (some t), .error _ _ (some p) => t.conforms p
  | error _, .error _ _ Option.none => true
  | _, _ => false

def allConform : List Ty → List Data → Bool
  | [], [] => true
  | t :: ts, d :: ds => t.conforms d && allConform ts ds
  | _, _ => false

end

/-- The element type of a list is there and leaves nothing open. -/
def knowsElement : Option Ty → Bool
  | some t => t.isConcrete
  | Option.none => false

end Ty

mutual

/-- A type with the unknown elements of lists filled in from a value. -/
def specialize (d : Data) (t : Ty) : Except FlattenError Ty :=
  match d, t with
  | .tuple ds, .cluster ts =>
    if ds.length = ts.length then (specializeAll ds ts).map .cluster else .ok (.cluster ts)
  | d, .list elem depth =>
    if Ty.knowsElement elem then .ok (.list elem depth)
    else
      match _hg : d.grid depth with
      | .error e => .error (.ofGrid depth d e)
      | .ok g => do
        match ← refine elem g.leaves with
        | none => .ok (.list none depth)
        | some t =>
          match g.leaves.find? fun leaf => !t.conforms leaf with
          | some bad => .error (.conflict t bad)
          | none => .ok (.list (some t) depth)
  | .error _ _ (some p), .error (some t) => (specialize p t).map fun t => .error (some t)
  | _, t => .ok t
termination_by (d.height, 0)
decreasing_by
  · exact Prod.Lex.left _ _ (by simp [Data.height])
  · exact Prod.Lex.left _ _ (Data.heightAll_grid _hg)
  · exact Prod.Lex.left _ _ (by simp [Data.height])

/-- The members of a cluster with the unknown elements filled in from those of a tuple. -/
def specializeAll (ds : List Data) (ts : List Ty) : Except FlattenError (List Ty) :=
  match ds, ts with
  | d :: ds, t :: ts => do
    let t ← specialize d t
    let ts ← specializeAll ds ts
    .ok (t :: ts)
  | _, _ => .ok []
termination_by (Data.heightAll ds, ds.length + 1)
decreasing_by
  · simp only [Data.heightAll, Prod.lex_def, List.length_cons]; omega
  · simp only [Data.heightAll, Prod.lex_def, List.length_cons]; omega

/-- The element type of a list, refined by one item after the other. The first item gives it if it is
unknown. -/
def refine (elem : Option Ty) (leaves : List Data) : Except FlattenError (Option Ty) :=
  match leaves with
  | [] => .ok elem
  | d :: ds => do
    let current ← match elem with
      | some t => .ok t
      | none => d.infer.mapError .untyped
    let t ← specialize d current
    refine (some t) ds
termination_by (Data.heightAll leaves, leaves.length + 1)
decreasing_by
  · simp only [Data.heightAll, Prod.lex_def, List.length_cons]; omega
  · simp only [Data.heightAll, Prod.lex_def, List.length_cons]; omega

end

/-- Induction along specializing, refining and specializing members. -/
theorem specialize_induction {S : Data → Ty → Prop} {R : Option Ty → List Data → Prop} {A : List Data → List Ty → Prop}
    (cluster : ∀ ds ts, ds.length = ts.length → A ds ts → S (.tuple ds) (.cluster ts))
    (ragged : ∀ d elem depth e, ¬ Ty.knowsElement elem → d.grid depth = .error e → S d (.list elem depth))
    (list : ∀ d elem depth g, ¬ Ty.knowsElement elem → d.grid depth = .ok g → R elem g.leaves → S d (.list elem depth))
    (payload : ∀ code message p t, S p t → S (.error code message (some p)) (.error (some t)))
    (unchanged : ∀ d t, specialize d t = .ok t → S d t)
    (noItem : ∀ elem, R elem [])
    (firstItem : ∀ d ds, (∀ t, S d t) → (∀ t, R (some t) ds) → R none (d :: ds))
    (nextItem : ∀ t d ds, (∀ t, S d t) → (∀ t, R (some t) ds) → R (some t) (d :: ds))
    (cons : ∀ d ds t ts, S d t → A ds ts → A (d :: ds) (t :: ts))
    (uneven : ∀ ds ts, ds = [] ∨ ts = [] → A ds ts) :
    (∀ d t, S d t) ∧ (∀ elem leaves, R elem leaves) ∧ ∀ ds ts, A ds ts := by
  refine specialize.mutual_induct S R A cluster (fun ds ts hl => ?_) (fun d elem depth he => ?_)
    (fun d elem depth he e hg => ragged d elem depth e he hg) (fun d elem depth he g hg => list d elem depth g he hg)
    payload (fun d t hc hl hp => ?_) noItem (fun d ds t => nextItem t d ds) firstItem cons fun ds ts hn => ?_
  · exact unchanged _ _ (by rw [specialize, if_neg hl])
  · exact unchanged _ _ (by rw [specialize, if_pos he])
  · exact unchanged d t (by rw [specialize] <;> assumption)
  · cases ds with
    | nil => exact uneven [] ts (.inl rfl)
    | cons d ds =>
      cases ts with
      | nil => exact uneven (d :: ds) [] (.inr rfl)
      | cons t ts => exact (hn d ds t ts rfl rfl).elim

end TagWire
