import TagWire.Tag.Parser

/-!
# Tags by ordered choice

The grammar of tags as rules that are tried at a place of the text, take what they may be in a fixed order, and keep to
the first that succeeds. A text that does not fit is at fault at the furthest place where a rule was tried. This says
what a tag is, and where it goes wrong, without lexemes and without a stack.
-/

namespace TagWire

/-! ## The grammar -/

/-- The rules that have a name, in the order in which they are reported. -/
inductive Rule where
  | endOfTag
  | tag
  | none
  | boolean
  | int
  | word
  | string
  | time
  | wildcard
  | value
  | complex
  | units
  | unitLabel
  | cluster
  | list
  | depth
  | emptyElement
  | error
deriving DecidableEq, Repr

/-- What a rule looks for. -/
inductive Peg where
  | empty
  /-- A character of a class. -/
  | one (p : Char → Bool)
  | atEnd
  | seq (p q : Peg)
  /-- The second one only if the first one fails. -/
  | alt (p q : Peg)
  | opt (p : Peg)
  /-- As often as it succeeds. -/
  | many (p : Peg)
  /-- As often as it succeeds, behind one that has succeeded. -/
  | again (p : Peg)
  | call (r : Rule)

namespace Peg

def char (c : Char) : Peg := one (· = c)

/-- The first of some rules that succeeds. -/
def firstOf : List Rule → Peg
  | [] => one fun _ => false
  | r :: rs => alt (call r) (firstOf rs)

end Peg

/-- The elements of a tag, in the order in which they are tried. -/
def Rule.elements : List Rule :=
  [cluster, list, error, value, complex, wildcard, none, boolean, int, word, string, time]

def Peg.element : Peg := firstOf Rule.elements

namespace Rule

open Peg in
def body : Rule → Peg
  | endOfTag => atEnd
  | tag => seq empty (seq (many element) (call endOfTag))
  | none | emptyElement => char '_'
  | boolean => char 'b'
  | int => char 'i'
  | word => char 'w'
  | string => char 's'
  | time => char 't'
  | wildcard => char '?'
  | value => seq (char 'v') (opt (call units))
  | complex => seq (char 'c') (opt (call units))
  | units => seq (char '[') (seq (call unitLabel) (char ']'))
  | unitLabel => many (one (· ≠ ']'))
  | cluster => seq (char '(') (seq (seq element (many element)) (char ')'))
  | list => seq (char '*') (seq (opt (call depth)) (alt (call emptyElement) element))
  | depth => one Char.isDigit
  | error => seq (char 'E') (opt element)

/-- No blanks are skipped inside of these. -/
def atomic : Rule → Bool
  | unitLabel | depth => true
  | _ => false

end Rule

/-! ## Runs -/

/-- A rule that has succeeded, with its text and the rules that have succeeded inside of it. -/
inductive RuleTree where
  | node (rule : Rule) (text : List Char) (parts : List RuleTree)

/-- A rule that has failed, and the rest of the body where it was tried. -/
abbrev Attempt := Rule × List Char

namespace Peg

/-- A text without the blanks before it. -/
def skip (cs : List Char) : List Char := cs.dropWhile Text.isSeparator

/-- Between the parts of a rule blanks are skipped. -/
def gap (atomic : Bool) (cs : List Char) : List Char := if atomic then cs else skip cs

/-- A text is run: it succeeds with some trees and a rest, or it fails. The attempts are all those that have failed on
the way, whether the whole succeeds or not. -/
inductive Runs : Bool → Peg → List Char → Option (List RuleTree × List Char) → List Attempt → Prop where
  | empty {a : Bool} {cs : List Char} : Runs a empty cs (some ([], cs)) []
  | one {a : Bool} {p : Char → Bool} {c : Char} {cs : List Char} : p c = true →
    Runs a (one p) (c :: cs) (some ([], cs)) []
  | oneFails {a : Bool} {p : Char → Bool} {cs : List Char} : (∀ c ∈ cs.head?, p c = false) → Runs a (one p) cs none []
  | atEnd {a : Bool} : Runs a atEnd [] (some ([], [])) []
  | atEndFails {a : Bool} {c : Char} {cs : List Char} : Runs a atEnd (c :: cs) none []
  | seq {a : Bool} {p q : Peg} {cs ds es : List Char} {ts us : List RuleTree} {fs gs : List Attempt} :
    Runs a p cs (some (ts, ds)) fs → Runs a q (gap a ds) (some (us, es)) gs →
    Runs a (seq p q) cs (some (ts ++ us, es)) (fs ++ gs)
  | seqFailsLeft {a : Bool} {p q : Peg} {cs : List Char} {fs : List Attempt} : Runs a p cs none fs →
    Runs a (seq p q) cs none fs
  | seqFails {a : Bool} {p q : Peg} {cs ds : List Char} {ts : List RuleTree} {fs gs : List Attempt} :
    Runs a p cs (some (ts, ds)) fs → Runs a q (gap a ds) none gs → Runs a (seq p q) cs none (fs ++ gs)
  | altLeft {a : Bool} {p q : Peg} {cs ds : List Char} {ts : List RuleTree} {fs : List Attempt} :
    Runs a p cs (some (ts, ds)) fs → Runs a (alt p q) cs (some (ts, ds)) fs
  | altRight {a : Bool} {p q : Peg} {cs : List Char} {out : Option (List RuleTree × List Char)}
    {fs gs : List Attempt} : Runs a p cs none fs → Runs a q cs out gs → Runs a (alt p q) cs out (fs ++ gs)
  | opt {a : Bool} {p : Peg} {cs ds : List Char} {ts : List RuleTree} {fs : List Attempt} :
    Runs a p cs (some (ts, ds)) fs → Runs a (opt p) cs (some (ts, ds)) fs
  | optSkips {a : Bool} {p : Peg} {cs : List Char} {fs : List Attempt} : Runs a p cs none fs →
    Runs a (opt p) cs (some ([], cs)) fs
  | many {a : Bool} {p : Peg} {cs ds es : List Char} {ts us : List RuleTree} {fs gs : List Attempt} :
    Runs a p cs (some (ts, ds)) fs → Runs a (again p) ds (some (us, es)) gs →
    Runs a (many p) cs (some (ts ++ us, es)) (fs ++ gs)
  | manyStops {a : Bool} {p : Peg} {cs : List Char} {fs : List Attempt} : Runs a p cs none fs →
    Runs a (many p) cs (some ([], cs)) fs
  | again {a : Bool} {p : Peg} {cs ds es : List Char} {ts us : List RuleTree} {fs gs : List Attempt} :
    Runs a p (gap a cs) (some (ts, ds)) fs → Runs a (again p) ds (some (us, es)) gs →
    Runs a (again p) cs (some (ts ++ us, es)) (fs ++ gs)
  | againStops {a : Bool} {p : Peg} {cs : List Char} {fs : List Attempt} : Runs a p (gap a cs) none fs →
    Runs a (again p) cs (some ([], cs)) fs
  | call {a : Bool} {r : Rule} {cs ds : List Char} {ts : List RuleTree} {fs : List Attempt} :
    Runs (a || r.atomic) r.body cs (some (ts, ds)) fs →
    Runs a (call r) cs (some ([.node r (cs.take (cs.length - ds.length)) ts], ds)) fs
  | callFails {a : Bool} {r : Rule} {cs : List Char} {fs : List Attempt} : Runs (a || r.atomic) r.body cs none fs →
    Runs a (call r) cs none (fs ++ [(r, cs)])

/-- A text is run in one way only. -/
theorem Runs.unique {a : Bool} {p : Peg} {cs : List Char} {out out' : Option (List RuleTree × List Char)}
    {fs fs' : List Attempt} (h : Runs a p cs out fs) (h' : Runs a p cs out' fs') : out = out' ∧ fs = fs' := by
  induction h generalizing out' fs' with
  | empty | atEnd | atEndFails =>
    cases h'
    exact ⟨rfl, rfl⟩
  | one hp =>
    cases h' with
    | one _ => exact ⟨rfl, rfl⟩
    | oneFails hn => rw [hn _ rfl] at hp; cases hp
  | oneFails hn =>
    cases h' with
    | one hp => rw [hn _ rfl] at hp; cases hp
    | oneFails _ => exact ⟨rfl, rfl⟩
  | seq _ _ ihp ihq =>
    cases h' with
    | seq hp hq =>
      obtain ⟨⟨⟩, rfl⟩ := ihp hp
      obtain ⟨⟨⟩, rfl⟩ := ihq hq
      exact ⟨rfl, rfl⟩
    | seqFailsLeft hp => cases (ihp hp).1
    | seqFails hp hq =>
      obtain ⟨⟨⟩, rfl⟩ := ihp hp
      cases (ihq hq).1
  | seqFailsLeft _ ihp =>
    cases h' with
    | seqFailsLeft hp => exact ⟨rfl, (ihp hp).2⟩
    | seq hp _ | seqFails hp _ => cases (ihp hp).1
  | seqFails _ _ ihp ihq =>
    cases h' with
    | seq hp hq =>
      obtain ⟨⟨⟩, rfl⟩ := ihp hp
      cases (ihq hq).1
    | seqFailsLeft hp => cases (ihp hp).1
    | seqFails hp hq =>
      obtain ⟨⟨⟩, rfl⟩ := ihp hp
      exact ⟨rfl, congrArg _ (ihq hq).2⟩
  | altLeft _ ihp =>
    cases h' with
    | altLeft hp => exact ihp hp
    | altRight hp _ => cases (ihp hp).1
  | altRight _ _ ihp ihq =>
    cases h' with
    | altLeft hp => cases (ihp hp).1
    | altRight hp hq =>
      obtain ⟨-, rfl⟩ := ihp hp
      obtain ⟨rfl, rfl⟩ := ihq hq
      exact ⟨rfl, rfl⟩
  | opt _ ih =>
    cases h' with
    | opt hp => exact ih hp
    | optSkips hp => cases (ih hp).1
  | optSkips _ ih =>
    cases h' with
    | opt hp => cases (ih hp).1
    | optSkips hp => exact ⟨rfl, (ih hp).2⟩
  | many _ _ ihp ihq =>
    cases h' with
    | many hp hq =>
      obtain ⟨⟨⟩, rfl⟩ := ihp hp
      obtain ⟨⟨⟩, rfl⟩ := ihq hq
      exact ⟨rfl, rfl⟩
    | manyStops hp => cases (ihp hp).1
  | manyStops _ ih =>
    cases h' with
    | many hp _ => cases (ih hp).1
    | manyStops hp => exact ⟨rfl, (ih hp).2⟩
  | again _ _ ihp ihq =>
    cases h' with
    | again hp hq =>
      obtain ⟨⟨⟩, rfl⟩ := ihp hp
      obtain ⟨⟨⟩, rfl⟩ := ihq hq
      exact ⟨rfl, rfl⟩
    | againStops hp => cases (ihp hp).1
  | againStops _ ih =>
    cases h' with
    | again hp _ => cases (ih hp).1
    | againStops hp => exact ⟨rfl, (ih hp).2⟩
  | call _ ih =>
    cases h' with
    | call hp =>
      obtain ⟨⟨⟩, rfl⟩ := ih hp
      exact ⟨rfl, rfl⟩
    | callFails hp => cases (ih hp).1
  | callFails _ ih =>
    cases h' with
    | call hp => cases (ih hp).1
    | callFails hp => exact ⟨rfl, congrArg (· ++ _) (ih hp).2⟩

end Peg

/-! ## From trees to hints -/

namespace RuleTree

def rule : RuleTree → Rule
  | node rule _ _ => rule

def text : RuleTree → List Char
  | node _ text _ => text

/-- The unit of a value or complex number, from the parts of its rule. -/
def unit : List RuleTree → UnitMark
  | node _ _ (label :: _) :: _ => .ofLabel (String.ofList (Text.trim label.text))
  | _ => .unspecified

mutual

/-- The element that a tree stands for. A list of no dimensions makes the text of its rule the fault. The last case is
for the rules that are no elements. -/
def build : RuleTree → Except (List Char) Hint
  | node .none _ _ => .ok .none
  | node .boolean _ _ => .ok .bool
  | node .int _ _ => .ok .int
  | node .word _ _ => .ok .word
  | node .string _ _ => .ok .str
  | node .time _ _ => .ok .time
  | node .wildcard _ _ => .ok .wildcard
  | node .value _ parts => .ok (.value (unit parts))
  | node .complex _ parts => .ok (.complex (unit parts))
  | node .cluster _ parts => (buildAll parts).map .cluster
  | node .list text parts => buildList text 1 none parts
  | node .error _ [] => .ok (.error none)
  | node .error _ (payload :: _) => (build payload).map fun p => .error (some p)
  | node _ text _ => .error text

def buildAll : List RuleTree → Except (List Char) (List Hint)
  | [] => .ok []
  | t :: ts => do return (← build t) :: (← buildAll ts)

/-- A list from its parts, one after the other. -/
def buildList (text : List Char) (depth : Nat) (element : Option Hint) : List RuleTree → Except (List Char) Hint
  | [] => .ok (.list element depth)
  | node .depth digits _ :: ts =>
    let depth := digits.foldl (fun n c => 10 * n + (c.toNat - '0'.toNat)) 0
    if depth = 0 then .error text else buildList text depth element ts
  | node .emptyElement _ _ :: ts => buildList text depth none ts
  | t :: ts => do buildList text depth (some (← build t)) ts

end

end RuleTree

/-! ## What is reported -/

/-- The furthest place of some attempts. -/
def furthest (body : List Char) : List Attempt → List Char
  | [] => body
  | a :: fs => if a.2.length < (furthest body fs).length then a.2 else furthest body fs

/-- The fault of a body whose rules fail at a place. The rule of the whole tag stands for all that fail where it
begins. -/
def faultAt (fs : List Attempt) (p : List Char) : TagFault :=
  if (.tag, p) ∈ fs then .noElement
  else .unexpected
    { endOfTag := (.endOfTag, p) ∈ fs, unit := (.units, p) ∈ fs, depth := (.depth, p) ∈ fs,
      unknownElement := (.emptyElement, p) ∈ fs }

/-- What a tag is read as if the rules of its body have some outcome. -/
def report (tag : String) : Option (List RuleTree × List Char) → List Attempt → Except TagError Hint
  | some ([.node .tag _ parts], _), _ =>
    match RuleTree.buildAll (parts.filter fun t => t.rule ≠ .endOfTag) with
    | .ok hs => .ok (.ofElements hs)
    | .error text => .error ⟨tag, String.ofList text, .depthZero⟩
  | _, fs =>
    let p := furthest (tagBody tag.toList) fs
    .error ⟨tag, String.ofList p, faultAt fs p⟩

theorem report_none (tag : String) (fs : List Attempt) : report tag none fs =
    .error ⟨tag, String.ofList (furthest (tagBody tag.toList) fs), faultAt fs (furthest (tagBody tag.toList) fs)⟩ := rfl

theorem furthest_eq {body p : List Char} {fs : List Attempt} (hp : p <:+ body) (hsuf : ∀ a ∈ fs, p <:+ a.2)
    (hmem : ∃ a ∈ fs, a.2 = p) : furthest body fs = p := by
  have hs : ∀ {fs : List Attempt}, (∀ a ∈ fs, p <:+ a.2) → p <:+ furthest body fs := by
    intro fs hsuf
    induction fs with
    | nil => exact hp
    | cons a fs ih =>
      obtain ⟨ha, hsuf⟩ := List.forall_mem_cons.1 hsuf
      rw [furthest]
      split
      · exact ha
      · exact ih hsuf
  have hl : ∀ {fs : List Attempt}, (∃ a ∈ fs, a.2 = p) → (furthest body fs).length ≤ p.length := by
    intro fs hmem
    induction fs with
    | nil => simp at hmem
    | cons a fs ih =>
      rw [furthest]
      obtain ⟨b, hb, rfl⟩ := hmem
      obtain rfl | hb := List.mem_cons.1 hb
      · split <;> omega
      · have hb := ih ⟨b, hb, rfl⟩
        split <;> omega
  exact ((hs hsuf).eq_of_length_le (hl hmem)).symm

/-! ## What may stand at a place -/

namespace Rule

def all : List Rule :=
  [endOfTag, tag, none, boolean, int, word, string, time, wildcard, value, complex, units, unitLabel, cluster, list,
    depth, emptyElement, error]

def name : Rule → String
  | endOfTag => "EOI"
  | tag => "tag"
  | none => "none"
  | boolean => "boolean"
  | int => "int"
  | word => "word"
  | string => "string"
  | time => "time"
  | wildcard => "wildcard"
  | value => "value"
  | complex => "complex"
  | units => "units"
  | unitLabel => "unit_label"
  | cluster => "cluster"
  | list => "list"
  | depth => "depth"
  | emptyElement => "empty_elem"
  | error => "error"

end Rule

namespace Expected

/-- The rules that are expected. An element always is. -/
def has (e : Expected) : Rule → Bool
  | .endOfTag => e.endOfTag
  | .units => e.unit
  | .depth => e.depth
  | .emptyElement => e.unknownElement
  | .tag | .unitLabel => false
  | _ => true

theorem names_eq (e : Expected) : e.names ++ ["error"] = (Rule.all.filter e.has).map Rule.name := by
  obtain ⟨endOfTag, unit, depth, unknownElement⟩ := e
  revert endOfTag unit depth unknownElement
  decide

end Expected

end TagWire
