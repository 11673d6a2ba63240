import Mathlib.Logic.ExistsUnique
import TagWire.Proofs.Tag.Parsed

/-!
# The language of tags

The reader of tags accepts the sentences of the grammar and nothing else. Of the elements that a sentence derives it
returns those in which each `E` has taken the element behind it.
-/

namespace TagWire

namespace Hint

theorem parse_eq_ok {tag : String} {h : Hint} :
    parse tag = .ok h ↔ ∃ es, Sentence es (tagBody tag.toList) ∧ AllGreedy es ∧ h = ofElements es := by
  constructor
  · exact sentence_of_parse
  · rintro ⟨es, hs, hg, rfl⟩
    obtain ⟨he, hd⟩ := tagElements_of_sentence hs hg
    simp only [parse, he, hd]

theorem eq_ofElements_iff {h : Hint} {es : List Hint} :
    h = ofElements es ↔ es = [] ∧ h = none ∨ es = [h] ∨ 2 ≤ es.length ∧ h = cluster es := by
  match es with
  | [] => simp [ofElements]
  | [e] => simp [ofElements, eq_comm]
  | e :: e' :: es => simp [ofElements]

theorem Sentence.eq_of_allGreedy {es fs : List Hint} {body : List Char} (he : Sentence es body) (hf : Sentence fs body)
    (hge : AllGreedy es) (hgf : AllGreedy fs) : es = fs := by
  have h := (tagElements_of_sentence he hge).1
  rw [(tagElements_of_sentence hf hgf).1] at h
  cases h
  rfl

theorem Sentence.exists_greedy {es : List Hint} {body : List Char} (h : Sentence es body) :
    ∃ fs, Sentence fs body ∧ AllGreedy fs := by
  obtain ⟨cs, bs, hcs, hbs, rfl⟩ := h
  exact ⟨_, ⟨cs, bs, hcs.allAsRead.regroupAll, hbs, rfl⟩, allGreedy_regroupAll _ (anyHasEmptyElement_allAsRead es)⟩

theorem exists_parse_eq_ok {tag : String} : (∃ h, parse tag = .ok h) ↔ ∃ es, Sentence es (tagBody tag.toList) := by
  constructor
  · rintro ⟨h, hp⟩
    obtain ⟨es, hs, -⟩ := parse_eq_ok.1 hp
    exact ⟨es, hs⟩
  · rintro ⟨es, hs⟩
    obtain ⟨fs, hfs, hg⟩ := hs.exists_greedy
    exact ⟨_, parse_eq_ok.2 ⟨fs, hfs, hg, rfl⟩⟩

/-! ## Wildcards -/

mutual

/-- A wildcard stands somewhere in a hint. -/
def hasWildcard : Hint → Bool
  | wildcard => true
  | cluster ms => anyHasWildcard ms
  | list (some e) _ => e.hasWildcard
  | error (some p) => p.hasWildcard
  | _ => false

def anyHasWildcard : List Hint → Bool
  | [] => false
  | m :: ms => m.hasWildcard || anyHasWildcard ms

end

mutual

theorem isSome_toTy? : (h : Hint) → h.toTy?.isSome = !h.hasWildcard
  | cluster ms => by rw [toTy?, hasWildcard, Option.isSome_map, isSome_toTys? ms]
  | list (some e) depth => by rw [toTy?, hasWildcard, Option.isSome_map, isSome_toTy? e]
  | error (some p) => by rw [toTy?, hasWildcard, Option.isSome_map, isSome_toTy? p]
  | none | bool | int | word | str | time | value _ | complex _ | list .none _ | error .none | wildcard => rfl

theorem isSome_toTys? : (ms : List Hint) → (toTys? ms).isSome = !anyHasWildcard ms
  | [] => rfl
  | m :: ms => by
    rw [toTys?, anyHasWildcard, Bool.not_or, ← isSome_toTy? m, ← isSome_toTys? ms]
    cases m.toTy? <;> cases toTys? ms <;> rfl

end

theorem hasWildcard_ofTy (t : Ty) : (ofTy t).hasWildcard = false := by
  have hs := isSome_toTy? (ofTy t)
  rw [Ty.toTy?_ofTy] at hs
  simpa using hs.symm

mutual

theorem hasWildcard_asRead : (h : Hint) → h.hasWildcard = false → h.asRead.hasWildcard = false
  | cluster ms, h => anyHasWildcard_allAsRead ms h
  | list (some e) depth, h => by
    rw [asRead]
    by_cases hn : e = none
    · subst hn
      rfl
    · rw [elemAsRead_of_ne (asRead_ne_none hn)]
      exact hasWildcard_asRead e h
  | error (some p), h => hasWildcard_asRead p h
  | none, h | bool, h | int, h | word, h | str, h | time, h | value _, h | complex _, h | list .none _, h
  | error .none, h | wildcard, h => h

theorem anyHasWildcard_allAsRead : (ms : List Hint) → anyHasWildcard ms = false → anyHasWildcard (allAsRead ms) = false
  | [], _ => rfl
  | m :: ms, h => by
    rw [anyHasWildcard, Bool.or_eq_false_iff] at h
    rw [allAsRead, anyHasWildcard, hasWildcard_asRead m h.1, anyHasWildcard_allAsRead ms h.2]
    rfl

end

theorem hasWildcard_withPayload {p : Hint} (hp : p.hasWildcard = false) : (h : Hint) → h.endsInBareError = true →
    (h.withPayload p).hasWildcard = false
  | error .none, _ => hp
  | error (some q), hb => hasWildcard_withPayload hp q hb
  | list (some e) _, hb => hasWildcard_withPayload hp e hb

theorem anyHasWildcard_pushFront {h : Hint} {hs : List Hint} (hh : h.hasWildcard = false)
    (hhs : anyHasWildcard hs = false) : anyHasWildcard (h.pushFront hs) = false := by
  cases hs with
  | nil => simp [pushFront, anyHasWildcard, hh]
  | cons p ps =>
    obtain ⟨hp, hps⟩ := Bool.or_eq_false_iff.1 hhs
    rw [pushFront]
    split
    · rename_i hb
      simp [anyHasWildcard, hasWildcard_withPayload hp h hb, hps]
    · simp [anyHasWildcard, hh, hp, hps]

mutual

theorem hasWildcard_regroup : (h : Hint) → h.hasWildcard = false → h.regroup.hasWildcard = false
  | cluster ms, h => anyHasWildcard_regroupAll ms h
  | list (some e) _, h => hasWildcard_regroup e h
  | error (some p), h => hasWildcard_regroup p h
  | none, h | bool, h | int, h | word, h | str, h | time, h | value _, h | complex _, h | list .none _, h
  | error .none, h | wildcard, h => h

theorem anyHasWildcard_regroupAll : (ms : List Hint) → anyHasWildcard ms = false →
    anyHasWildcard (regroupAll ms) = false
  | [], _ => rfl
  | m :: ms, h => by
    obtain ⟨hm, hms⟩ := Bool.or_eq_false_iff.1 h
    exact anyHasWildcard_pushFront (hasWildcard_regroup m hm) (anyHasWildcard_regroupAll ms hms)

end

end Hint

theorem Ty.parse_eq_ok {tag : String} {t : Ty} : Ty.parse tag = .ok t ↔ Hint.parse tag = .ok (Hint.ofTy t) := by
  rw [Ty.parse, bind_eq_ok]
  constructor
  · rintro ⟨h, hp, ht⟩
    split at ht
    · rename_i u hu
      cases ht
      rw [ofTy_of_toTy? h hu, hp]
    · cases ht
  · intro hp
    exact ⟨_, hp, by rw [toTy?_ofTy]⟩

theorem Ty.exists_parse_eq_ok {tag : String} :
    (∃ t, Ty.parse tag = .ok t) ↔ ∃ h, Hint.parse tag = .ok h ∧ h.hasWildcard = false := by
  constructor
  · rintro ⟨t, ht⟩
    exact ⟨_, Ty.parse_eq_ok.1 ht, Hint.hasWildcard_ofTy t⟩
  · rintro ⟨h, hp, hw⟩
    have hs := Hint.isSome_toTy? h
    rw [hw] at hs
    obtain ⟨t, ht⟩ := Option.isSome_iff_exists.1 hs
    exact ⟨t, Ty.parse_eq_ok.2 (by rw [ofTy_of_toTy? h ht, hp])⟩

/-- The reader of tags accepts exactly the sentences of the grammar. A sentence is read as the elements that it derives
with each `E` taking the element behind it and each `*_` being a list of unknown elements: no element is the empty one,
one stands for itself, and several are a cluster. They are a type if no wildcard is among them. -/
theorem parse_iff_sentence (tag : String) :
    ((∃ h, Hint.parse tag = .ok h) ↔ ∃ es, Hint.Sentence es (tagBody tag.toList)) ∧
    ((∃ h, Hint.parse tag = .ok h) ↔ ∃! es, Hint.Sentence es (tagBody tag.toList) ∧ Hint.AllGreedy es) ∧
    (∀ h, Hint.parse tag = .ok h ↔ ∃ es, Hint.Sentence es (tagBody tag.toList) ∧ Hint.AllGreedy es ∧
      (es = [] ∧ h = .none ∨ es = [h] ∨ 2 ≤ es.length ∧ h = .cluster es)) ∧
    (∀ t, Ty.parse tag = .ok t ↔ Hint.parse tag = .ok (Hint.ofTy t)) ∧
    ((∃ t, Ty.parse tag = .ok t) ↔ ∃ h, Hint.parse tag = .ok h ∧ h.hasWildcard = false) := by
  refine ⟨Hint.exists_parse_eq_ok, ?_, fun h => ?_, fun t => Ty.parse_eq_ok, Ty.exists_parse_eq_ok⟩
  · rw [Hint.exists_parse_eq_ok]
    constructor
    · rintro ⟨es, hs⟩
      obtain ⟨fs, hfs, hg⟩ := hs.exists_greedy
      exact ⟨fs, ⟨hfs, hg⟩, fun gs hgs => hgs.1.eq_of_allGreedy hfs hgs.2 hg⟩
    · rintro ⟨es, hs, -⟩
      exact ⟨es, hs.1⟩
  · simp only [Hint.parse_eq_ok, Hint.eq_ofElements_iff]

example : Hint.parse " E i * 1 _ v[ m ]: x" =
    .ok (.cluster [.error (some .int), .list none 1, .value (.named "m")]) := by decide

/-! ## The text of hints -/

namespace Hint

/-- The text of a hint is read as the hint with whatever would be read differently as it is read. -/
theorem parse_text {h : Hint} (hs : h.Spelled) : parse h.text = .ok h.reread := by
  have hbody : tagBody h.text.toList = h.chars := by
    rw [text, String.toList_ofList, tagBody, List.takeWhile_eq_self_iff]
    intro c hc
    have hne : c ≠ ':' := fun he => colon_not_mem_chars h hs (he ▸ hc)
    simpa using hne
  rw [parse_eq_ok, hbody]
  refine ⟨[h.reread], ⟨h.chars, [], ?_, fun _ hc => (by cases hc), by rw [List.append_nil]⟩, ?_, rfl⟩
  · simpa using AllDerive.cons (derives_chars h hs).reread .nil
  · exact allGreedy_cons.2 ⟨greedy_reread h, fun hn => absurd rfl hn, allGreedy_nil⟩

theorem spelled_ofElements : ∀ {es : List Hint}, AllSpelled es → (ofElements es).Spelled
  | [], _ => trivial
  | [_], h => h.1
  | e :: e' :: es, h => ⟨List.cons_ne_nil e (e' :: es), h⟩

theorem spelled_of_parse {tag : String} {h : Hint} (hp : parse tag = .ok h) : h.Spelled := by
  obtain ⟨es, ⟨cs, bs, hcs, -, hbody⟩, -, rfl⟩ := parse_eq_ok.1 hp
  have hc : ':' ∉ tagBody tag.toList := fun hm => by simpa using List.mem_takeWhile_imp hm
  rw [hbody] at hc
  exact spelled_ofElements (hcs.spelled (mt (List.mem_append_left bs) hc))

end Hint

namespace Ty

theorem parse_text_iff_greedy {t : Ty} (hs : t.Spelled) : Ty.parse t.text = .ok t ↔ (Hint.ofTy t).Greedy := by
  have hp : Hint.parse t.text = .ok (Hint.ofTy t).reread := Hint.parse_text hs
  rw [Ty.parse_eq_ok, hp, Except.ok.injEq, Hint.reread_eq_self_iff]

theorem exists_parse_text {t : Ty} (hs : t.Spelled) : ∃ u, Ty.parse t.text = .ok u :=
  exists_parse_eq_ok.2 ⟨_, Hint.parse_text hs,
    Hint.hasWildcard_regroup _ (Hint.hasWildcard_asRead _ (Hint.hasWildcard_ofTy t))⟩

/-- The text of a type is read as the type exactly if none of its lists has empty elements. -/
theorem parse_text_iff {t : Ty} (hs : t.Spelled) (ha : t.printsAmbiguously = false) :
    Ty.parse t.text = .ok t ↔ t.hasEmptyElement = false := by
  rw [parse_text_iff_greedy hs]
  exact ⟨fun h => h.list, fun h => ⟨(printsAmbiguously_ofTy t).trans ha, h⟩⟩

end Ty

end TagWire
