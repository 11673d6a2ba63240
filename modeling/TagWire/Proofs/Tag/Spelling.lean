import Mathlib.Data.List.DropRight
import TagWire.Tag.Printer
import TagWire.Text.Blank

/-!
# Hints that a tag can spell

A tag has room for nine dimensions, for clusters with members, and for labels without blanks at their ends. The
empty element and the unknown element of a list are written alike, and a list is read as one of unknown elements.
-/

namespace TagWire

/-! ## Labels -/

/-- A label that can stand between brackets as it is: it does not close the bracket, does not begin a comment,
and has no blanks at its ends. -/
structure PlainLabel (label : String) : Prop where
  bracket : ']' ∉ label.toList
  colon : ':' ∉ label.toList
  head : ∀ c ∈ label.toList.head?, Text.isBlank c = false
  last : ∀ c ∈ label.toList.getLast?, Text.isBlank c = false

namespace Text

theorem dropWhile_eq_self {p : Char → Bool} {cs : List Char} (h : ∀ c ∈ cs.head?, p c = false) :
    cs.dropWhile p = cs := by
  cases cs with
  | nil => rfl
  | cons c cs => rw [List.dropWhile_cons_of_neg (by simp [h c rfl])]

/-- Nothing is dropped from a text without blanks at its ends. -/
theorem trim_eq_self {cs : List Char} (hh : ∀ c ∈ cs.head?, isBlank c = false)
    (hl : ∀ c ∈ cs.getLast?, isBlank c = false) : trim cs = cs := by
  have hr : ∀ c ∈ cs.reverse.head?, isBlank c = false := by
    intro c hc
    rw [List.head?_reverse] at hc
    exact hl c hc
  rw [trim, dropWhile_eq_self hh, dropWhile_eq_self hr, List.reverse_reverse]

theorem head?_dropWhile {p : Char → Bool} (cs : List Char) : ∀ c ∈ (cs.dropWhile p).head?, p c = false := by
  intro c hc
  have h := List.head?_dropWhile_not p cs
  rw [Option.mem_def.1 hc] at h
  exact h

theorem getLast?_trim (cs : List Char) : ∀ c ∈ (trim cs).getLast?, isBlank c = false := by
  intro c hc
  rw [trim, List.getLast?_reverse] at hc
  exact head?_dropWhile _ c hc

theorem head?_trim (cs : List Char) : ∀ c ∈ (trim cs).head?, isBlank c = false := by
  intro c hc
  obtain ⟨t, ht⟩ : trim cs <+: cs.dropWhile isBlank := List.rdropWhile_prefix _ _
  have hm : c ∈ (cs.dropWhile isBlank).head? := by
    rw [← ht]
    cases hcs : trim cs with
    | nil => rw [hcs] at hc; cases hc
    | cons d ds => rw [hcs] at hc; exact hc
  exact head?_dropWhile _ c hm

theorem mem_of_mem_trim {cs : List Char} {c : Char} (h : c ∈ trim cs) : c ∈ cs := by
  rw [trim, List.mem_reverse] at h
  have h₁ := (List.dropWhile_sublist _).subset h
  rw [List.mem_reverse] at h₁
  exact (List.dropWhile_sublist _).subset h₁

end Text

/-- What stands between brackets is a plain label once its ends are trimmed. -/
theorem PlainLabel.trim {cs : List Char} (hb : ']' ∉ cs) (hc : ':' ∉ cs) : PlainLabel (String.ofList (Text.trim cs)) where
  bracket h := hb (Text.mem_of_mem_trim (by simpa using h))
  colon h := hc (Text.mem_of_mem_trim (by simpa using h))
  head := by simpa using Text.head?_trim cs
  last := by simpa using Text.getLast?_trim cs

/-- A mark that can be written. -/
def UnitMark.Spelled : UnitMark → Prop
  | named label => label ≠ "" ∧ PlainLabel label
  | _ => True

theorem UnitMark.spelled_ofLabel {label : String} (h : PlainLabel label) : (ofLabel label).Spelled := by
  unfold ofLabel
  by_cases he : label = ""
  · rw [if_pos he]
    trivial
  · rw [if_neg he]
    exact ⟨he, h⟩

/-! ## Hints -/

namespace Hint

mutual

/-- A hint that can be written: clusters have members, lists have one to nine dimensions, and labels are plain. -/
def Spelled : Hint → Prop
  | value u | complex u => u.Spelled
  | cluster ms => ms ≠ [] ∧ AllSpelled ms
  | list (some e) depth => (1 ≤ depth ∧ depth ≤ 9) ∧ e.Spelled
  | list .none depth => 1 ≤ depth ∧ depth ≤ 9
  | error (some p) => p.Spelled
  | _ => True

def AllSpelled : List Hint → Prop
  | [] => True
  | m :: ms => m.Spelled ∧ AllSpelled ms

end

/-- The tag of a hint ends in an error without payload. -/
def endsInBareError : Hint → Bool
  | error .none => true
  | error (some p) => p.endsInBareError
  | list (some e) _ => e.endsInBareError
  | _ => false

mutual

/-- A cluster member other than the last ends in an error without payload. -/
def printsAmbiguously : Hint → Bool
  | cluster ms => membersPrintAmbiguously ms
  | list (some e) _ => e.printsAmbiguously
  | error (some p) => p.printsAmbiguously
  | _ => false

def membersPrintAmbiguously : List Hint → Bool
  | [] => false
  | m :: ms => m.printsAmbiguously || (m.endsInBareError && !ms.isEmpty) || membersPrintAmbiguously ms

end

/-- An element as it is read behind the star of a list. -/
def elemAsRead : Hint → Option Hint
  | none => .none
  | e => some e

mutual

/-- The hint that a tag is read as: the elements of a list are unknown if they are empty. -/
def asRead : Hint → Hint
  | cluster ms => cluster (allAsRead ms)
  | list (some e) depth => list e.asRead.elemAsRead depth
  | error (some p) => error (some p.asRead)
  | h => h

def allAsRead : List Hint → List Hint
  | [] => []
  | m :: ms => m.asRead :: allAsRead ms

end

theorem elemAsRead_of_ne {e : Hint} (h : e ≠ none) : e.elemAsRead = some e := by
  cases e <;> first | rfl | exact absurd rfl h

theorem asRead_ne_none {e : Hint} (h : e ≠ none) : e.asRead ≠ none := by
  intro he
  cases e with
  | list x _ => cases x <;> cases he
  | error p => cases p <;> cases he
  | _ => first | exact h rfl | cases he

mutual

/-- Somewhere the elements of a list are the empty element. -/
def hasEmptyElement : Hint → Bool
  | cluster ms => anyHasEmptyElement ms
  | list (some e) _ => e = none || e.hasEmptyElement
  | error (some p) => p.hasEmptyElement
  | _ => false

def anyHasEmptyElement : List Hint → Bool
  | [] => false
  | m :: ms => m.hasEmptyElement || anyHasEmptyElement ms

end

mutual

/-- A tag is read as the hint that it was written for unless it has lists of empty elements. -/
theorem asRead_eq_self_iff : (h : Hint) → (h.asRead = h ↔ h.hasEmptyElement = false)
  | cluster ms => by
    rw [asRead, hasEmptyElement, cluster.injEq]
    exact allAsRead_eq_self_iff ms
  | list (some e) depth => by
    rw [asRead, hasEmptyElement, list.injEq]
    by_cases he : e = none
    · subst he
      simp [elemAsRead, asRead]
    · rw [elemAsRead_of_ne (asRead_ne_none he), Option.some.injEq, asRead_eq_self_iff e]
      simp [he]
  | error (some p) => by
    rw [asRead, hasEmptyElement, error.injEq, Option.some.injEq]
    exact asRead_eq_self_iff p
  | none | bool | int | word | str | time | value _ | complex _ | list .none _ | error .none | wildcard => by
    simp [asRead, hasEmptyElement]

theorem allAsRead_eq_self_iff : (ms : List Hint) → (allAsRead ms = ms ↔ anyHasEmptyElement ms = false)
  | [] => by simp [allAsRead, anyHasEmptyElement]
  | m :: ms => by
    rw [allAsRead, anyHasEmptyElement, List.cons.injEq, asRead_eq_self_iff m, allAsRead_eq_self_iff ms,
      Bool.or_eq_false_iff]

end

end Hint

/-! ## Types -/

namespace Ty

/-- A type that can be written. -/
def Spelled (t : Ty) : Prop := (Hint.ofTy t).Spelled

def AllSpelled (ts : List Ty) : Prop := Hint.AllSpelled (Hint.ofTys ts)

theorem endsInBareError_ofTy : (t : Ty) → (Hint.ofTy t).endsInBareError = t.endsInBareError
  | list (some e) _ => endsInBareError_ofTy e
  | error (some p) => endsInBareError_ofTy p
  | none | bool | int | word | str | time | value _ | complex _ | cluster _ | list .none _ | error .none => rfl

theorem isEmpty_ofTys (ts : List Ty) : (Hint.ofTys ts).isEmpty = ts.isEmpty := by
  cases ts <;> rfl

mutual

theorem printsAmbiguously_ofTy : (t : Ty) → (Hint.ofTy t).printsAmbiguously = t.printsAmbiguously
  | cluster ts => membersPrintAmbiguously_ofTys ts
  | list (some e) _ => printsAmbiguously_ofTy e
  | error (some p) => printsAmbiguously_ofTy p
  | none | bool | int | word | str | time | value _ | complex _ | list .none _ | error .none => rfl

theorem membersPrintAmbiguously_ofTys : (ts : List Ty) →
    Hint.membersPrintAmbiguously (Hint.ofTys ts) = membersPrintAmbiguously ts
  | [] => rfl
  | t :: ts => by
    rw [Hint.ofTys, Hint.membersPrintAmbiguously, membersPrintAmbiguously, printsAmbiguously_ofTy t,
      membersPrintAmbiguously_ofTys ts, endsInBareError_ofTy, isEmpty_ofTys]

end

/-- Somewhere the elements of a list are the empty element, which is written like an unknown one. -/
def hasEmptyElement (t : Ty) : Bool := (Hint.ofTy t).hasEmptyElement

mutual

theorem toTy?_ofTy : (t : Ty) → (Hint.ofTy t).toTy? = some t
  | cluster ts => by rw [Hint.ofTy, Hint.toTy?, toTys?_ofTys ts, Option.map_some]
  | list (some e) depth => by rw [Hint.ofTy, Hint.toTy?, toTy?_ofTy e, Option.map_some]
  | error (some p) => by rw [Hint.ofTy, Hint.toTy?, toTy?_ofTy p, Option.map_some]
  | none | bool | int | word | str | time | value _ | complex _ | list .none _ | error .none => rfl

theorem toTys?_ofTys : (ts : List Ty) → Hint.toTys? (Hint.ofTys ts) = some ts
  | [] => rfl
  | t :: ts => by rw [Hint.ofTys, Hint.toTys?, toTy?_ofTy t, toTys?_ofTys ts]

end

mutual

theorem ofTy_of_toTy? : (h : Hint) → ∀ {t}, h.toTy? = some t → Hint.ofTy t = h
  | .cluster ms, t, h => by
    rw [Hint.toTy?, Option.map_eq_some_iff] at h
    obtain ⟨ts, hts, rfl⟩ := h
    rw [Hint.ofTy, ofTys_of_toTys? ms hts]
  | .list (some e) depth, t, h => by
    rw [Hint.toTy?, Option.map_eq_some_iff] at h
    obtain ⟨u, hu, rfl⟩ := h
    rw [Hint.ofTy, ofTy_of_toTy? e hu]
  | .error (some p), t, h => by
    rw [Hint.toTy?, Option.map_eq_some_iff] at h
    obtain ⟨u, hu, rfl⟩ := h
    rw [Hint.ofTy, ofTy_of_toTy? p hu]
  | .none, t, h | .bool, t, h | .int, t, h | .word, t, h | .str, t, h | .time, t, h | .value _, t, h
  | .complex _, t, h | .list .none _, t, h | .error .none, t, h | .wildcard, t, h => by
    cases h <;> rfl

theorem ofTys_of_toTys? : (hs : List Hint) → ∀ {ts}, Hint.toTys? hs = some ts → Hint.ofTys ts = hs
  | [], ts, h => by
    cases h
    rfl
  | m :: ms, ts, h => by
    rw [Hint.toTys?] at h
    split at h
    · rename_i u us hu hus
      cases h
      rw [Hint.ofTys, ofTy_of_toTy? m hu, ofTys_of_toTys? ms hus]
    · cases h

end

end Ty

end TagWire
