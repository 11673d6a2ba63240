import TagWire.Time.Stamp
import TagWire.Typing.Resolve
import TagWire.Wire.Emission
import TagWire.Wire.Word

/-!
# Flattening

The layout of a value under a type. Nothing is written for `_`, a byte for `b`, four bytes for `i` and `w`,
eight or sixteen for `v`, `c` and `t`; a string is preceded by its length, a list by its lengths, outermost
first; the members of a cluster and the elements of a list follow each other. An error is its code, its
message, and with a payload type a byte that tells whether a payload follows.
-/

namespace TagWire

/-- A word of a length, as one write. -/
def emitWord (order : ByteOrder) (width : Nat) (n : Int) : Emission := .write (Word.encode order width n)

def emitDouble (order : ByteOrder) (x : Double) : Emission := emitWord order 8 x.bits.toNat

/-- A string: its length and its bytes. -/
def emitString (order : ByteOrder) (bytes : List UInt8) : Emission :=
  if bytes.length < 0x100000000 then (emitWord order 4 bytes.length).andThen (.write bytes)
  else .fail (.outOfRange bytes.length .word)

/-- The lengths of a list, each as one write. -/
def emitShape (order : ByteOrder) (shape : List Nat) : Emission :=
  .sequence <| shape.map fun (n : Nat) =>
    if n < 0x80000000 then emitWord order 4 n else .fail (.outOfRange n .int)

/-- Something that is emitted unless a check fails. -/
def Emission.guarded {α : Type} (check : Except FlattenError α) (emit : α → Emission) : Emission :=
  match check with
  | .ok a => emit a
  | .error e => .fail e

/-- Data under a label may be written in exactly that unit. Nothing is converted. -/
def UnitMark.checkLabel (u : UnitMark) (ty : Ty) (label : String) : Except FlattenError Unit :=
  match u with
  | named want => if want = label then .ok () else .error (.unitMismatch want label)
  | dimensionless => if label = "" then .ok () else .error (.unitMismatch "" label)
  | unspecified => if label = "" then .ok () else .error (.unresolved ty)

/-- A real number and its label. -/
def Data.real? : Data → Option (Double × String)
  | float x => some (x, "")
  | int n => some (.ofInt n.toInt, "")
  | word n => some (.ofInt n.toNat, "")
  | value x label => some (x, label)
  | _ => Option.none

/-- A complex number and its label. Real numbers are complex ones. -/
def Data.complex? : Data → Option (Complex × String)
  | complex z => some (z, "")
  | complexValue z label => some (z, label)
  | d => d.real?.map fun r => (⟨r.1, .zero⟩, r.2)

def Data.bytes? : Data → Option (List UInt8)
  | bytes bs => some bs
  | text s => some (Utf8.encode s)
  | _ => Option.none

namespace Ty

/-- A value that is of another kind than the type. -/
def mismatch (t : Ty) (d : Data) : Emission := .fail (.mismatch (.ofTy t) d)

/-- A scalar of some view of data, or a mismatch. -/
def emitView {α : Type} (t : Ty) (d : Data) (view : Option α) (emit : α → Emission) : Emission :=
  match view with
  | some a => emit a
  | Option.none => t.mismatch d

mutual

/-- The layout of a value under a type. -/
def emit (order : ByteOrder) (t : Ty) (d : Data) : Emission :=
  Emission.andThen ⟨[.visit d t], Option.none⟩ <|
    match t with
    | none =>
      match d with
      | .none => .done
      | _ => none.mismatch d
    | bool =>
      match d with
      | .bool b => .write [if b then 1 else 0]
      | _ => bool.mismatch d
    | int => int.emitView d d.integer? fun n => .guarded (checkInt n) (emitWord order 4)
    | word => word.emitView d d.integer? fun n => .guarded (checkWord n) (emitWord order 4)
    | str => str.emitView d d.bytes? (emitString order)
    | time =>
      match d with
      | .time i =>
        let s := Stamp.ofInstant i
        (emitWord order 8 s.seconds.toInt).andThen (emitWord order 8 s.fraction.toNat)
      | _ => time.mismatch d
    | value u =>
      (value u).emitView d d.real? fun r =>
        .guarded (u.checkLabel (value u) r.2) fun _ => emitDouble order r.1
    | complex u =>
      (complex u).emitView d d.complex? fun z =>
        .guarded (u.checkLabel (complex u) z.2) fun _ => (emitDouble order z.1.re).andThen (emitDouble order z.1.im)
    | cluster ts =>
      match d with
      | .tuple ds =>
        if ds.length = ts.length then emitMembers order ts ds
        else .fail (.arityMismatch (.ofTy (cluster ts)) ts.length ds.length)
      | _ => (cluster ts).mismatch d
    | list (some e) depth =>
      .guarded ((d.grid depth).mapError (.ofGrid depth d)) fun g =>
        (emitShape order g.shape).andThen (.sequence (g.leaves.map (e.emit order)))
    | list Option.none depth =>
      .guarded ((d.grid depth).mapError (.ofGrid depth d)) fun g =>
        (emitShape order g.shape).andThen
          (if g.leaves.isEmpty then .done else .fail (.unresolved (list Option.none depth)))
    | error (some p) =>
      match d with
      | .error code message payload =>
        (emitWord order 4 code.toInt).andThen <| (emitString order (Utf8.encode message)).andThen <|
          match payload with
          | some q => (Emission.write [1]).andThen (p.emit order q)
          | Option.none => .write [0]
      | _ => (error (some p)).mismatch d
    | error Option.none =>
      match d with
      | .error code message payload =>
        (emitWord order 4 code.toInt).andThen <| (emitString order (Utf8.encode message)).andThen <|
          match payload with
          | some _ => (error Option.none).mismatch d
          | Option.none => .done
      | _ => (error Option.none).mismatch d

def emitMembers (order : ByteOrder) : List Ty → List Data → Emission
  | t :: ts, d :: ds => (t.emit order d).andThen (emitMembers order ts ds)
  | _, _ => .done

end

end Ty

end TagWire
