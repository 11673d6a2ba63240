import TagWire.Tag.Error
import TagWire.Tag.Lexeme
import TagWire.Tag.Matching

/-!
# Reading tags

A tag is read lexeme by lexeme. What has been begun and not finished lies on a stack: clusters that are
open, lists that wait for their element, and errors that take the next element, if one comes, as their
payload. A lexeme that no open construct can use is the fault of the tag.

This is the grammar of `TagWire.Proofs.Tag.OrderedChoice` without going back. Each element is known by its
first character, so at most one rule gets past the first character of its text. A frame is a rule of that
kind that has begun, and a value that is pending is one whose rule may still find a unit. Only an error is
ever finished by a failure, that of its payload, and then nothing else can use the text that was no payload.
The lexeme that cannot be used is therefore at the furthest place where a rule is tried.
-/

namespace TagWire

/-- A construct that has been begun. -/
inductive Frame where
  /-- An open parenthesis and the members behind it, latest first. -/
  | cluster (members : List Hint)
  /-- A star, and the number of dimensions if it is given. -/
  | list (depth : Option Nat)
  /-- An error without payload so far. -/
  | error
deriving DecidableEq, Repr

/-- How far a tag has been read. -/
structure TagState where
  /-- The constructs that are begun, innermost first. -/
  frames : List Frame := []
  /-- The finished elements of the tag, latest first. -/
  elements : List Hint := []
  /-- A value or complex number at the end, which a label may follow. -/
  pending : Option Quantity := none
deriving DecidableEq, Repr

namespace TagState

/-- Hands a finished element to the innermost construct. Lists and errors are finished by it in turn. -/
def complete (elements : List Hint) (h : Hint) : List Frame → TagState
  | .list depth :: frames => complete elements (.list (some h) (depth.getD 1)) frames
  | .error :: frames => complete elements (.error (some h)) frames
  | .cluster members :: frames => ⟨.cluster (h :: members) :: frames, elements, none⟩
  | [] => ⟨[], h :: elements, none⟩

/-- Finishes an element. -/
def push (s : TagState) (h : Hint) : TagState := complete s.elements h s.frames

def begin (s : TagState) (f : Frame) : TagState := { s with frames := f :: s.frames }

/-- Finishes a value or complex number that no label follows. -/
def settle (s : TagState) : TagState :=
  match s.pending with
  | none => s
  | some q => s.push (q.hint .unspecified)

/-- Finishes an error that no payload follows. -/
def closeError (s : TagState) : TagState :=
  match s.frames with
  | .error :: frames => complete s.elements (.error none) frames
  | _ => s

/-- Reads a token that is not a label, once a value before it is finished. -/
def stepSettled (s : TagState) : Token → Option TagState
  | .underscore =>
    match s.frames with
    | .list depth :: frames => some (complete s.elements (.list none (depth.getD 1)) frames)
    | _ => some (s.push .none)
  | .simple h => some (s.push h)
  | .quantity q => some { s with pending := some q }
  | .star => some (s.begin (.list none))
  | .digit n =>
    match s.frames with
    | .list none :: frames => some { s with frames := .list (some n) :: frames }
    | _ => none
  | .error => some (s.begin .error)
  | .opening => some (s.begin (.cluster []))
  | .closing =>
    match s.closeError with
    | ⟨.cluster (m :: ms) :: frames, elements, _⟩ => some (complete elements (.cluster (m :: ms).reverse) frames)
    | _ => none
  | .label _ | .stray => none

/-- Reads one token, unless it cannot come next. -/
def step (s : TagState) (t : Token) : Option TagState :=
  match t, s.pending with
  | .label cs, some q => some (s.push (q.hint (.ofLabel (String.ofList (Text.trim cs)))))
  | t, _ => s.settle.stepSettled t

/-- The elements of the tag, if it may end here. -/
def finish (s : TagState) : Option (List Hint) :=
  match s.settle.closeError with
  | ⟨[], elements, _⟩ => some elements.reverse
  | _ => none

/-- What could come next, apart from an element. -/
def expected (s : TagState) : Expected where
  endOfTag := s.finish.isSome
  unit := s.pending.isSome
  depth := s.pending.isNone && s.frames.head? = some (.list none)
  unknownElement := s.pending.isNone && (s.frames.head?.any fun f => f matches .list _)

end TagState

/-- A tag with several elements is a cluster of them, and one without any is the empty element. -/
def Hint.ofElements : List Hint → Hint
  | [] => none
  | [h] => h
  | hs => cluster hs

/-- Reads lexemes. A failure tells the state in which no further token could be read, and the rest of the
body. -/
def TagState.run (s : TagState) : List Lexeme → Except (TagState × List Char) TagState
  | [] => .ok s
  | l :: ls =>
    match s.step l.token with
    | some s' => run s' ls
    | none => .error (s, l.here)

/-- The elements that lexemes stand for. -/
def tagElements (ls : List Lexeme) : Except (TagState × List Char) (List Hint) := do
  let s ← TagState.run {} ls
  match s.finish with
  | some hs => .ok hs
  | none => .error (s, [])

/-! ## Lists of no dimensions -/

/-- The rest of the body behind an element that may be followed by a part of it which is not there. The blanks
before the place of that part belong to the element. -/
def Lexeme.openEnd (l : Lexeme) : List Char := l.after.dropWhile Text.isSeparator

/-- The rest of the body behind the element that lexemes begin with, inside of a number of parentheses. -/
def elementEnd (depth : Nat) : List Lexeme → List Char
  | [] => []
  | l :: ls =>
    match l.token, depth with
    | .opening, _ => elementEnd (depth + 1) ls
    | .closing, d + 2 => elementEnd (d + 1) ls
    | .quantity _, 0 =>
      match ls with
      | ⟨.label _, _, after⟩ :: _ => after
      | _ => l.openEnd
    | .error, 0 =>
      match ls with
      | [] | ⟨.closing, _, _⟩ :: _ => l.openEnd
      | _ => elementEnd 0 ls
    | .star, _ | .digit _, _ => elementEnd depth ls
    | .closing, _ | _, 0 => l.after
    | _, _ => elementEnd depth ls

/-- The text of the first list that is given zero dimensions. -/
def depthZeroList? : List Lexeme → Option (List Char)
  | ⟨.star, here, after⟩ :: ⟨.digit 0, here', after'⟩ :: ls =>
    some (Lexeme.textUpTo ⟨.star, here, after⟩ (elementEnd 0 (⟨.digit 0, here', after'⟩ :: ls)))
  | _ :: ls => depthZeroList? ls
  | [] => none

/-! ## Tags -/

/-- Reads the tag of a hint. -/
def Hint.parse (tag : String) : Except TagError Hint :=
  let body := tagBody tag.toList
  let lexemes := Lexeme.ofBody body
  match tagElements lexemes with
  | .error (s, rest) =>
    let fault := if rest.length = body.length then .noElement else .unexpected s.expected
    .error ⟨tag, String.ofList rest, fault⟩
  | .ok elements =>
    match depthZeroList? lexemes with
    | some text => .error ⟨tag, String.ofList text, .depthZero⟩
    | .none => .ok (.ofElements elements)

/-- Reads the tag of a type, which holds no wildcard. -/
def Ty.parse (tag : String) : Except TagError Ty := do
  let h ← Hint.parse tag
  match h.toTy? with
  | some t => .ok t
  | .none => .error ⟨tag, String.ofList ((tagBody tag.toList).dropWhile (· ≠ '?')), .wildcard⟩

/-- Reads several tags of hints, up to the first that cannot be read. -/
def Hint.parseAll (tags : List String) : Except TagError (List Hint) := tags.mapM Hint.parse

end TagWire
