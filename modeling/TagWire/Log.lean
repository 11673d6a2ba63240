import TagWire.Codec

/-!
# Logs

A codec can tell what it does: which hints it tries, where it finds the element type of a list, and which
values it flattens and unflattens. The functions here give the entries in the order in which things happen,
up to a failure if there is one.
-/

namespace TagWire

inductive LogEntry where
  | accepted (hint : Hint) (found : Data) (ty : Ty)
  | rejected (hint : Hint) (found : Data) (cause : FlattenError)
  /-- The unknown element type of a list is taken from its first item. -/
  | elementType (ty : Ty) (found : Data)
  | encode (found : Data) (ty : Ty)
  | decode (ty : Ty) (offset : Nat)
deriving Inhabited

/-- An entry as a line: its level and what happened. -/
def LogEntry.text : LogEntry → String
  | accepted h d t => "DEBUG hint '" ++ h.text ++ "' accepted " ++ d.describe ++ " as '" ++ t.text ++ "'"
  | rejected h d e => "DEBUG hint '" ++ h.text ++ "' rejected " ++ d.describe ++ ": " ++ e.message
  | elementType t d => "DEBUG list element type '" ++ t.text ++ "' taken from " ++ d.describe
  | encode d t => "TRACE encode " ++ d.describe ++ " as '" ++ t.text ++ "'"
  | decode t offset => "TRACE decode '" ++ t.text ++ "' at offset " ++ toString offset

/-! ## Choosing a type -/

/-- The hints that are tried, up to the first that a value satisfies. -/
def hintLog (units : Units) (d : Data) : List Hint → List LogEntry
  | [] => []
  | h :: hs =>
    match h.accept units d with
    | .ok t => [.accepted h d t]
    | .error e => .rejected h d e :: hintLog units d hs

/-- Entries, and the result that an activity ends with. -/
def thenLog {ε α : Type} (entries : List LogEntry) (result : Except ε α) (next : α → List LogEntry) : List LogEntry :=
  match result with
  | .ok a => entries ++ next a
  | .error _ => entries

mutual

/-- The element types that are taken from items when a type is specialized. -/
def specializeLog (d : Data) (t : Ty) : List LogEntry :=
  match d, t with
  | .tuple ds, .cluster ts => if ds.length = ts.length then specializeAllLog ds ts else []
  | d, .list elem depth =>
    if Ty.knowsElement elem then []
    else
      match _hg : d.grid depth with
      | .error _ => []
      | .ok g => refineLog elem g.leaves
  | .error _ _ (some p), .error (some t) => specializeLog p t
  | _, _ => []
termination_by (d.height, 0)
decreasing_by
  · exact Prod.Lex.left _ _ (by simp [Data.height])
  · exact Prod.Lex.left _ _ (Data.heightAll_grid _hg)
  · exact Prod.Lex.left _ _ (by simp [Data.height])

def specializeAllLog (ds : List Data) (ts : List Ty) : List LogEntry :=
  match ds, ts with
  | d :: ds, t :: ts => thenLog (specializeLog d t) (specialize d t) fun _ => specializeAllLog ds ts
  | _, _ => []
termination_by (Data.heightAll ds, ds.length + 1)
decreasing_by
  · simp only [Data.heightAll, Prod.lex_def, List.length_cons]; omega
  · simp only [Data.heightAll, Prod.lex_def, List.length_cons]; omega

def refineLog (elem : Option Ty) (leaves : List Data) : List LogEntry :=
  match leaves, elem with
  | [], _ => []
  | d :: ds, some t => thenLog (specializeLog d t) (specialize d t) fun t => refineLog (some t) ds
  | d :: ds, none =>
    match d.infer with
    | .error _ => []
    | .ok t =>
      .elementType t d :: thenLog (specializeLog d t) (specialize d t) fun t => refineLog (some t) ds
termination_by (Data.heightAll leaves, leaves.length + 1)
decreasing_by
  all_goals simp only [Data.heightAll, Prod.lex_def, List.length_cons]; omega

end

/-! ## Flattening -/

/-- The values that an emission looks at. -/
def Emission.log (e : Emission) : List LogEntry :=
  e.steps.filterMap fun
    | .visit d t => some (.encode d t)
    | .write _ => none

/-! ## Unflattening -/

/-- The values that are read one after the other. -/
def readTimesLog {α : Type} (read : Reader α) (log : Input → List LogEntry) : Nat → Input → List LogEntry
  | 0, _ => []
  | n + 1, s => thenLog (log s) (read s) fun r => readTimesLog read log n r.2

namespace Ty

mutual

/-- The values that are read for a value of a type, with their places in a buffer of a size. Numbers of an
array are read without being told. -/
def readLog (order : ByteOrder) (size : Nat) (t : Ty) (s : Input) : List LogEntry :=
  .decode t (size - s.rest.length) ::
    match t with
    | cluster ts => readMembersLog order size ts s
    | list (some e) depth =>
      let opened := do
        let (shape, s) ← readShape order depth s
        let (total, s) ← enterList e shape s
        .ok (shape, total, s)
      match opened with
      | .error _ => []
      | .ok (shape, total, s) =>
        match shape, readArray? order e total with
        | [_], some _ => []
        | _, _ => readTimesLog (e.read order) (e.readLog order size) total s
    | error (some p) =>
      let opened := do
        let (_, s) ← readSigned order 4 s
        let (_, s) ← readString order s
        readByte s
      match opened with
      | .error _ => []
      | .ok (flag, s) => if flag = 1 then p.readLog order size s else []
    | _ => []

def readMembersLog (order : ByteOrder) (size : Nat) : List Ty → Input → List LogEntry
  | [], _ => []
  | t :: ts, s => thenLog (t.readLog order size s) (t.read order s) fun r => readMembersLog order size ts r.2

end

end Ty

/-! ## The codec -/

namespace Codec

/-- What happens when a type is chosen for a value. -/
def resolveLog (c : Codec) (d : Data) (hints : List Hint) : List LogEntry :=
  thenLog (hintLog c.units d hints) (TagWire.resolve c.units d hints) fun t => specializeLog d t

/-- What happens when a value is flattened. -/
def flattenLog (c : Codec) (d : Data) (hints : List Hint) : List LogEntry :=
  thenLog (c.resolveLog d hints) (c.resolve d hints) fun t => (c.emission d t).log

def flattenIntoLog (c : Codec) (b : Buffer) (d : Data) (t : Ty) : List LogEntry :=
  ((c.emission d t).within b.room).log

def unflattenLog (c : Codec) (bytes : List UInt8) (t : Ty) : List LogEntry :=
  t.readLog c.order bytes.length ⟨bytes, maxFreeCells⟩

end Codec

end TagWire
