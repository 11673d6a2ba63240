import TagWire.Proofs.Tag.Spelling

/-!
# The grammar of tags

The tags of hints as a context-free language, independent of how a tag is read. It is ambiguous in two places: an
element behind an `E` may be its payload or the next element, and the `_` of `*_` may be the unknown element or an
empty one.
-/

namespace TagWire

/-- Characters that are skipped between the parts of a tag. -/
def Blanks (cs : List Char) : Prop := ∀ c ∈ cs, Text.isSeparator c = true

/-- A character of a tag and the blanks before it. -/
def Mark (c : Char) (cs : List Char) : Prop := ∃ bs, Blanks bs ∧ cs = bs ++ [c]

/-- The unit of a `v` or `c`: no brackets, or brackets around any text, of which the blank ends do not count. -/
inductive UnitMark.Derives : UnitMark → List Char → Prop where
  | absent : Derives unspecified []
  | label {op label : List Char} : Mark '[' op → ']' ∉ label →
    Derives (ofLabel (String.ofList (Text.trim label))) (op ++ label ++ [']'])

/-- The number of dimensions of a list: a digit that is not 0, or 1 without one. -/
inductive DepthDerives : Nat → List Char → Prop where
  | absent : DepthDerives 1 []
  | digit {depth : Nat} {cs : List Char} : 1 ≤ depth → depth ≤ 9 → Mark (Nat.digitChar depth) cs → DepthDerives depth cs

/-- The elements of one character. -/
inductive Letter : Char → Hint → Prop where
  | none : Letter '_' .none
  | bool : Letter 'b' .bool
  | int : Letter 'i' .int
  | word : Letter 'w' .word
  | str : Letter 's' .str
  | time : Letter 't' .time
  | wildcard : Letter '?' .wildcard

namespace Hint

mutual

/-- A text is an element. -/
inductive Derives : Hint → List Char → Prop where
  | letter {c : Char} {h : Hint} {cs : List Char} : Letter c h → Mark c cs → Derives h cs
  | value {u : UnitMark} {vs us : List Char} : Mark 'v' vs → u.Derives us → Derives (value u) (vs ++ us)
  | complex {u : UnitMark} {vs us : List Char} : Mark 'c' vs → u.Derives us → Derives (complex u) (vs ++ us)
  | cluster {hs : List Hint} {op cs cl : List Char} : Mark '(' op → hs ≠ [] → AllDerive hs cs → Mark ')' cl →
    Derives (cluster hs) (op ++ cs ++ cl)
  | list {e : Hint} {depth : Nat} {st ds cs : List Char} : Mark '*' st → DepthDerives depth ds → Derives e cs →
    Derives (list (some e) depth) (st ++ ds ++ cs)
  | unknownList {depth : Nat} {st ds cs : List Char} : Mark '*' st → DepthDerives depth ds → Mark '_' cs →
    Derives (list .none depth) (st ++ ds ++ cs)
  | error {p : Hint} {er cs : List Char} : Mark 'E' er → Derives p cs → Derives (error (some p)) (er ++ cs)
  | bareError {er : List Char} : Mark 'E' er → Derives (error .none) er

/-- A text is several elements behind each other. -/
inductive AllDerive : List Hint → List Char → Prop where
  | nil : AllDerive [] []
  | cons {h : Hint} {hs : List Hint} {cs ds : List Char} : Derives h cs → AllDerive hs ds →
    AllDerive (h :: hs) (cs ++ ds)

end

/-- A text is the body of a tag with some elements. -/
def Sentence (hs : List Hint) (body : List Char) : Prop := ∃ cs bs, AllDerive hs cs ∧ Blanks bs ∧ body = cs ++ bs

theorem AllDerive.append {hs gs : List Hint} {cs ds : List Char} (h : AllDerive hs cs) (hg : AllDerive gs ds) :
    AllDerive (hs ++ gs) (cs ++ ds) := by
  induction hs generalizing cs with
  | nil =>
    cases h
    exact hg
  | cons _ hs ih =>
    cases h with
    | cons h₁ h₂ =>
      rw [List.cons_append, List.append_assoc]
      exact .cons h₁ (ih h₂)

theorem AllDerive.snoc {hs : List Hint} {h : Hint} {cs ds : List Char} (hhs : AllDerive hs cs) (hh : h.Derives ds) :
    AllDerive (hs ++ [h]) (cs ++ ds) := by
  have ha := hhs.append (.cons hh .nil)
  rwa [List.append_nil] at ha

end Hint

/-! ## Derived hints can be spelled -/

theorem mark_self (c : Char) : Mark c [c] := ⟨[], fun _ h => (by cases h), rfl⟩

theorem DepthDerives.bounds {depth : Nat} {cs : List Char} (h : DepthDerives depth cs) : 1 ≤ depth ∧ depth ≤ 9 := by
  cases h with
  | absent => exact ⟨by decide, by decide⟩
  | digit h₁ h₂ _ => exact ⟨h₁, h₂⟩

theorem UnitMark.Derives.spelled {u : UnitMark} {cs : List Char} (h : u.Derives cs) (hc : ':' ∉ cs) : u.Spelled := by
  cases h with
  | absent => trivial
  | label _ hb =>
    refine spelled_ofLabel (PlainLabel.trim hb fun hm => hc ?_)
    simp [hm]

namespace Hint

mutual

theorem Derives.spelled {h : Hint} {cs : List Char} (hd : h.Derives cs) (hc : ':' ∉ cs) : h.Spelled := by
  match hd with
  | .letter hl _ => cases hl <;> trivial
  | .value _ hu | .complex _ hu => exact hu.spelled (mt (List.mem_append_right _) hc)
  | .cluster _ hne hs _ =>
    exact ⟨hne, hs.spelled (mt (fun hm => List.mem_append_left _ (List.mem_append_right _ hm)) hc)⟩
  | .list _ hdepth he => exact ⟨hdepth.bounds, he.spelled (mt (List.mem_append_right _) hc)⟩
  | .unknownList _ hdepth _ => exact hdepth.bounds
  | .error _ hp => exact hp.spelled (mt (List.mem_append_right _) hc)
  | .bareError _ => trivial

theorem AllDerive.spelled {hs : List Hint} {cs : List Char} (hd : AllDerive hs cs) (hc : ':' ∉ cs) : AllSpelled hs := by
  match hd with
  | .nil => trivial
  | .cons h hs =>
    exact ⟨h.spelled (mt (List.mem_append_left _) hc), hs.spelled (mt (List.mem_append_right _) hc)⟩

end

end Hint

/-! ## The derivation that is read

Of the derivations of a text there is one in which an `E` takes whatever element follows it as its payload, and in
which the `_` of `*_` is the unknown element.
-/

namespace Hint

/-- Nothing in an element would be read differently. -/
structure Greedy (h : Hint) : Prop where
  /-- No bare error stands before another element. -/
  error : h.printsAmbiguously = false
  /-- No list has the empty element for its elements. -/
  list : h.hasEmptyElement = false

/-- Nothing in elements behind each other would be read differently. -/
structure AllGreedy (hs : List Hint) : Prop where
  error : membersPrintAmbiguously hs = false
  list : anyHasEmptyElement hs = false

theorem greedy_cluster {hs : List Hint} : (cluster hs).Greedy ↔ AllGreedy hs :=
  ⟨fun h => ⟨h.error, h.list⟩, fun h => ⟨h.error, h.list⟩⟩

theorem greedy_error {p : Hint} : (Hint.error (some p)).Greedy ↔ p.Greedy :=
  ⟨fun h => ⟨h.error, h.list⟩, fun h => ⟨h.error, h.list⟩⟩

theorem greedy_list {e : Hint} {depth : Nat} : (Hint.list (some e) depth).Greedy ↔ e ≠ none ∧ e.Greedy := by
  constructor
  · rintro ⟨ha, hn⟩
    simp only [hasEmptyElement, Bool.or_eq_false_iff, decide_eq_false_iff_not] at hn
    exact ⟨hn.1, ha, hn.2⟩
  · rintro ⟨hne, ha, hn⟩
    exact ⟨ha, by simp [hasEmptyElement, hne, hn]⟩

theorem allGreedy_cons {h : Hint} {hs : List Hint} :
    AllGreedy (h :: hs) ↔ h.Greedy ∧ (hs ≠ [] → h.endsInBareError = false) ∧ AllGreedy hs := by
  constructor
  · rintro ⟨ha, hn⟩
    simp only [membersPrintAmbiguously, anyHasEmptyElement, Bool.or_eq_false_iff] at ha hn
    exact ⟨⟨ha.1.1, hn.1⟩, fun hne => by simpa [hne] using ha.1.2, ha.2, hn.2⟩
  · rintro ⟨⟨ha, hn⟩, hb, has, hns⟩
    refine ⟨?_, by simp [anyHasEmptyElement, hn, hns]⟩
    cases hs with
    | nil => simp [membersPrintAmbiguously, ha]
    | cons g gs => rw [membersPrintAmbiguously, ha, hb (List.cons_ne_nil g gs), has]; rfl

theorem allGreedy_nil : AllGreedy [] := ⟨rfl, rfl⟩

theorem greedy_letter {c : Char} {h : Hint} (hl : Letter c h) : h.Greedy := by
  cases hl <;> exact ⟨rfl, rfl⟩

theorem endsInBareError_letter {c : Char} {h : Hint} (hl : Letter c h) : h.endsInBareError = false := by
  cases hl <;> rfl

/-! ### The unknown element behind a star -/

theorem hasEmptyElement_list {e : Hint} {depth : Nat} :
    (Hint.list (some e) depth).hasEmptyElement = false ↔ e ≠ none ∧ e.hasEmptyElement = false := by
  simp [hasEmptyElement]

mutual

theorem hasEmptyElement_asRead : (h : Hint) → h.asRead.hasEmptyElement = false
  | cluster ms => anyHasEmptyElement_allAsRead ms
  | list (some e) depth => by
    rw [asRead]
    by_cases hn : e = none
    · subst hn
      rfl
    · rw [elemAsRead_of_ne (asRead_ne_none hn)]
      exact hasEmptyElement_list.2 ⟨asRead_ne_none hn, hasEmptyElement_asRead e⟩
  | error (some p) => hasEmptyElement_asRead p
  | none | bool | int | word | str | time | value _ | complex _ | list .none _ | error .none | wildcard => rfl

theorem anyHasEmptyElement_allAsRead : (ms : List Hint) → anyHasEmptyElement (allAsRead ms) = false
  | [] => rfl
  | m :: ms => by
    rw [allAsRead, anyHasEmptyElement, hasEmptyElement_asRead m, anyHasEmptyElement_allAsRead ms]
    rfl

end

theorem allAsRead_ne_nil {hs : List Hint} (hne : hs ≠ []) : allAsRead hs ≠ [] := by
  cases hs with
  | nil => exact hne
  | cons h hs => exact List.cons_ne_nil _ _

mutual

/-- A `_` behind a star is derived as the unknown element, too. -/
theorem Derives.asRead {h : Hint} {cs : List Char} (hd : h.Derives cs) : h.asRead.Derives cs := by
  match hd with
  | .letter hl hm => cases hl <;> exact .letter (by constructor) hm
  | .value hv hu => exact .value hv hu
  | .complex hv hu => exact .complex hv hu
  | .cluster hop hne hms hcl => exact .cluster hop (allAsRead_ne_nil hne) hms.allAsRead hcl
  | .list (e := e) hst hds he =>
    by_cases hn : e = none
    · subst hn
      cases he with
      | letter hl hm =>
        cases hl
        exact .unknownList hst hds hm
    · rw [Hint.asRead, elemAsRead_of_ne (asRead_ne_none hn)]
      exact .list hst hds he.asRead
  | .unknownList hst hds hu => exact .unknownList hst hds hu
  | .error her hp => exact .error her hp.asRead
  | .bareError her => exact .bareError her

theorem AllDerive.allAsRead {hs : List Hint} {cs : List Char} (hd : AllDerive hs cs) :
    AllDerive (allAsRead hs) cs := by
  match hd with
  | .nil => exact .nil
  | .cons hh hhs => exact .cons hh.asRead hhs.allAsRead

end

/-! ### The payload behind an `E` -/

/-- Gives the bare error at the end of an element a payload. -/
def withPayload : Hint → Hint → Hint
  | error .none, p => error (some p)
  | error (some q), p => error (some (q.withPayload p))
  | list (some e) depth, p => list (some (e.withPayload p)) depth
  | h, _ => h

/-- Puts an element before others. A bare error at its end takes the first of them as its payload. -/
def pushFront (h : Hint) : List Hint → List Hint
  | [] => [h]
  | p :: ps => if h.endsInBareError then h.withPayload p :: ps else h :: p :: ps

mutual

/-- A hint with the same text in which each bare error has taken the element behind it. -/
def regroup : Hint → Hint
  | cluster ms => cluster (regroupAll ms)
  | list (some e) depth => list (some e.regroup) depth
  | error (some p) => error (some p.regroup)
  | h => h

def regroupAll : List Hint → List Hint
  | [] => []
  | m :: ms => m.regroup.pushFront (regroupAll ms)

end

variable {h p : Hint} {hs : List Hint} {cs ds : List Char}

theorem withPayload_spec (hp : p.Greedy) : (h : Hint) → h.endsInBareError = true →
    h.withPayload p ≠ none ∧ (h.withPayload p).Greedy ∧ (h.withPayload p).endsInBareError = p.endsInBareError
  | error .none, _ => ⟨nofun, greedy_error.2 hp, rfl⟩
  | error (some q), hb => ⟨nofun, greedy_error.2 (withPayload_spec hp q hb).2.1, (withPayload_spec hp q hb).2.2⟩
  | list (some e) depth, hb => by
    obtain ⟨hne, hg, he⟩ := withPayload_spec hp e hb
    exact ⟨nofun, greedy_list.2 ⟨hne, hg⟩, he⟩

theorem Derives.withPayload (hp : p.Derives ds) : (h : Hint) → ∀ {cs}, h.endsInBareError = true → h.Derives cs →
    (h.withPayload p).Derives (cs ++ ds)
  | .error .none, _, _, hd => by
    cases hd with
    | letter hl => cases hl
    | bareError her => exact .error her hp
  | .error (some q), _, hb, hd => by
    cases hd with
    | letter hl => cases hl
    | error her hq =>
      rw [List.append_assoc]
      exact .error her (hp.withPayload q hb hq)
  | .list (some e) depth, _, hb, hd => by
    cases hd with
    | letter hl => cases hl
    | list hst hds he =>
      rw [List.append_assoc]
      exact .list hst hds (hp.withPayload e hb he)

theorem pushFront_ne_nil : h.pushFront hs ≠ [] := by
  cases hs with
  | nil => exact List.cons_ne_nil _ _
  | cons p ps =>
    rw [pushFront]
    split <;> exact List.cons_ne_nil _ _

theorem pushFront_eq_cons (hb : hs ≠ [] → h.endsInBareError = false) : h.pushFront hs = h :: hs := by
  cases hs with
  | nil => rfl
  | cons p ps =>
    rw [pushFront, hb (List.cons_ne_nil p ps)]
    rfl

theorem AllDerive.pushFront (hh : h.Derives cs) (hd : AllDerive hs ds) : AllDerive (h.pushFront hs) (cs ++ ds) := by
  cases hd with
  | nil => exact .cons hh .nil
  | cons hp hps =>
    rw [Hint.pushFront]
    split
    · rename_i hb
      rw [← List.append_assoc]
      exact .cons (hp.withPayload h hb hh) hps
    · exact .cons hh (.cons hp hps)

theorem allGreedy_pushFront (hh : h.Greedy) (hhs : AllGreedy hs) : AllGreedy (h.pushFront hs) := by
  cases hs with
  | nil => exact allGreedy_cons.2 ⟨hh, fun hn => absurd rfl hn, hhs⟩
  | cons p ps =>
    obtain ⟨hp, hpb, hps⟩ := allGreedy_cons.1 hhs
    rw [pushFront]
    split
    · -- what stands behind the element now is what stood behind its payload
      rename_i hb
      obtain ⟨-, hg, he⟩ := withPayload_spec hp h hb
      exact allGreedy_cons.2 ⟨hg, he ▸ hpb, hps⟩
    · rename_i hb
      exact allGreedy_cons.2 ⟨hh, fun _ => by simpa using hb, hhs⟩

theorem regroupAll_ne_nil (hne : hs ≠ []) : regroupAll hs ≠ [] := by
  cases hs with
  | nil => exact hne
  | cons m ms => exact pushFront_ne_nil

theorem regroup_ne_none (hne : h ≠ none) : h.regroup ≠ none := by
  intro he
  cases h with
  | list e _ => cases e <;> cases he
  | error p => cases p <;> cases he
  | _ => first | exact hne rfl | cases he

mutual

/-- The text stays the same if a bare error takes the element behind it. -/
theorem Derives.regroup {h : Hint} {cs : List Char} (hd : h.Derives cs) : h.regroup.Derives cs := by
  match hd with
  | .letter hl hm => cases hl <;> exact .letter (by constructor) hm
  | .value hv hu => exact .value hv hu
  | .complex hv hu => exact .complex hv hu
  | .cluster hop hne hms hcl => exact .cluster hop (regroupAll_ne_nil hne) hms.regroupAll hcl
  | .list hst hds he => exact .list hst hds he.regroup
  | .unknownList hst hds hu => exact .unknownList hst hds hu
  | .error her hp => exact .error her hp.regroup
  | .bareError her => exact .bareError her

theorem AllDerive.regroupAll {hs : List Hint} {cs : List Char} (hd : AllDerive hs cs) :
    AllDerive (regroupAll hs) cs := by
  match hd with
  | .nil => exact .nil
  | .cons hh hhs => exact .pushFront hh.regroup hhs.regroupAll

end

mutual

theorem greedy_regroup : (h : Hint) → h.hasEmptyElement = false → h.regroup.Greedy
  | cluster ms, h => greedy_cluster.2 (allGreedy_regroupAll ms h)
  | list (some e) depth, h => by
    obtain ⟨hne, he⟩ := hasEmptyElement_list.1 h
    exact greedy_list.2 ⟨regroup_ne_none hne, greedy_regroup e he⟩
  | error (some p), h => greedy_error.2 (greedy_regroup p h)
  | none, _ | bool, _ | int, _ | word, _ | str, _ | time, _ | value _, _ | complex _, _ | list .none _, _
  | error .none, _ | wildcard, _ => ⟨rfl, rfl⟩

theorem allGreedy_regroupAll : (ms : List Hint) → anyHasEmptyElement ms = false → AllGreedy (regroupAll ms)
  | [], _ => allGreedy_nil
  | m :: ms, h => by
    rw [anyHasEmptyElement, Bool.or_eq_false_iff] at h
    exact allGreedy_pushFront (greedy_regroup m h.1) (allGreedy_regroupAll ms h.2)

end

mutual

theorem regroup_eq_self : (h : Hint) → h.Greedy → h.regroup = h
  | cluster ms, h => by rw [regroup, regroupAll_eq_self ms (greedy_cluster.1 h)]
  | list (some e) depth, h => by rw [regroup, regroup_eq_self e (greedy_list.1 h).2]
  | error (some p), h => by rw [regroup, regroup_eq_self p (greedy_error.1 h)]
  | none, _ | bool, _ | int, _ | word, _ | str, _ | time, _ | value _, _ | complex _, _ | list .none _, _
  | error .none, _ | wildcard, _ => rfl

theorem regroupAll_eq_self : (ms : List Hint) → AllGreedy ms → regroupAll ms = ms
  | [], _ => rfl
  | m :: ms, h => by
    obtain ⟨hm, hb, hms⟩ := allGreedy_cons.1 h
    rw [regroupAll, regroup_eq_self m hm, regroupAll_eq_self ms hms, pushFront_eq_cons hb]

end

/-- The hint that the text of a hint is read as. -/
def reread (h : Hint) : Hint := h.asRead.regroup

theorem Derives.reread (hd : h.Derives cs) : h.reread.Derives cs := hd.asRead.regroup

theorem greedy_reread (h : Hint) : h.reread.Greedy := greedy_regroup _ (hasEmptyElement_asRead h)

/-- A hint is read as itself unless something in it would be read differently. -/
theorem reread_eq_self_iff {h : Hint} : h.reread = h ↔ h.Greedy := by
  constructor
  · intro he
    rw [← he]
    exact greedy_reread h
  · intro hg
    rw [reread, (asRead_eq_self_iff h).2 hg.list, regroup_eq_self h hg]

end Hint

/-! ## The text of a hint -/

theorem derives_depthChars {depth : Nat} (h : 1 ≤ depth ∧ depth ≤ 9) : DepthDerives depth (Hint.depthChars depth) := by
  unfold Hint.depthChars
  by_cases h1 : 1 < depth
  · rw [if_pos h1, Nat.toDigits_of_lt_base (by omega)]
    exact .digit h.1 h.2 (mark_self _)
  · obtain rfl : depth = 1 := by omega
    exact .absent

theorem derives_unit {u : UnitMark} (h : u.Spelled) : u.Derives u.chars := by
  have hl : ∀ l : String, PlainLabel l → (UnitMark.ofLabel l).Derives ('[' :: l.toList ++ [']']) := by
    intro l hl
    have hd := UnitMark.Derives.label (mark_self '[') hl.bracket
    rwa [Text.trim_eq_self hl.head hl.last, String.ofList_toList] at hd
  cases u with
  | unspecified => exact .absent
  | dimensionless => exact hl "" ⟨by decide, by decide, fun _ hc => (by cases hc), fun _ hc => by cases hc⟩
  | named label =>
    have hd := hl label h.2
    rwa [UnitMark.ofLabel, if_neg h.1] at hd

namespace Hint

mutual

theorem derives_chars : (h : Hint) → h.Spelled → h.Derives h.chars
  | value u, h => by
    rw [chars]
    exact .value (mark_self 'v') (derives_unit h)
  | complex u, h => by
    rw [chars]
    exact .complex (mark_self 'c') (derives_unit h)
  | cluster ms, ⟨hne, hms⟩ => by
    rw [chars]
    exact .cluster (mark_self '(') hne (derive_memberChars ms hms) (mark_self ')')
  | list (some e) depth, ⟨hd, he⟩ => by
    rw [chars]
    exact .list (mark_self '*') (derives_depthChars hd) (derives_chars e he)
  | list .none depth, hd => by
    rw [chars]
    exact .unknownList (mark_self '*') (derives_depthChars hd) (mark_self '_')
  | error (some p), hp => by
    rw [chars]
    exact .error (mark_self 'E') (derives_chars p hp)
  | error .none, _ => .bareError (mark_self 'E')
  | none, _ => .letter .none (mark_self _)
  | bool, _ => .letter .bool (mark_self _)
  | int, _ => .letter .int (mark_self _)
  | word, _ => .letter .word (mark_self _)
  | str, _ => .letter .str (mark_self _)
  | time, _ => .letter .time (mark_self _)
  | wildcard, _ => .letter .wildcard (mark_self _)

theorem derive_memberChars : (ms : List Hint) → AllSpelled ms → AllDerive ms (memberChars ms)
  | [], _ => .nil
  | m :: ms, ⟨hm, hms⟩ => by
    rw [memberChars]
    exact .cons (derives_chars m hm) (derive_memberChars ms hms)

end

theorem colon_not_mem_depthChars {depth : Nat} (h : depth ≤ 9) : ':' ∉ depthChars depth := by
  revert h
  revert depth
  decide

theorem colon_not_mem_unit {u : UnitMark} (h : u.Spelled) : ':' ∉ u.chars := by
  cases u with
  | unspecified | dimensionless => decide
  | named label =>
    have hc := h.2.colon
    simp [UnitMark.chars, UnitMark.label?, hc]

mutual

theorem colon_not_mem_chars : (h : Hint) → h.Spelled → ':' ∉ h.chars
  | value u, h | complex u, h => by
    have hu := colon_not_mem_unit h
    simp [chars, hu]
  | cluster ms, ⟨_, hms⟩ => by
    have hm := colon_not_mem_memberChars ms hms
    simp [chars, hm]
  | list (some e) depth, ⟨⟨_, hd⟩, he⟩ => by
    have hdc := colon_not_mem_depthChars hd
    have hec := colon_not_mem_chars e he
    simp [chars, hdc, hec]
  | list .none depth, ⟨_, hd⟩ => by
    have hdc := colon_not_mem_depthChars hd
    simp [chars, hdc]
  | error (some p), hp => by
    have hpc := colon_not_mem_chars p hp
    simp [chars, hpc]
  | none, _ | bool, _ | int, _ | word, _ | str, _ | time, _ | error .none, _ | wildcard, _ => by decide

theorem colon_not_mem_memberChars : (ms : List Hint) → AllSpelled ms → ':' ∉ memberChars ms
  | [], _ => List.not_mem_nil
  | m :: ms, ⟨hm, hms⟩ => by
    have hmc := colon_not_mem_chars m hm
    have hmsc := colon_not_mem_memberChars ms hms
    simp [memberChars, hmc, hmsc]

end

end Hint

end TagWire
