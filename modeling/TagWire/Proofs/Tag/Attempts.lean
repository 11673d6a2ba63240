import TagWire.Proofs.Tag.OrderedChoice
import TagWire.Proofs.Tag.Parsed

/-!
# Rules and reader at one place

What is needed to follow the rules of ordered choice and the reader side by side: what either does with the text from
some place on, which rules have failed by then, and when the reader cannot go on.
-/

namespace TagWire

open Peg

/-! ## Lexemes at a place -/

theorem gap_false (cs : List Char) : gap false cs = skip cs := rfl

theorem skip_suffix (cs : List Char) : skip cs <:+ cs := List.dropWhile_suffix _

theorem skip_suffix_cons (c : Char) (cs : List Char) : skip cs <:+ c :: cs :=
  (skip_suffix cs).trans (List.suffix_cons c cs)

theorem length_skip_lt (c : Char) (cs : List Char) : (skip cs).length < (c :: cs).length :=
  Nat.lt_succ_of_le (skip_suffix cs).length_le

theorem skip_skip (cs : List Char) : skip (skip cs) = skip cs := Text.dropWhile_eq_self (Text.head?_dropWhile cs)

theorem skip_cons {c : Char} {cs : List Char} (h : Text.isSeparator c = false) : skip (c :: cs) = c :: cs :=
  Text.dropWhile_eq_self fun _ hc => (Option.some.inj hc) ▸ h

theorem separator_of_skip {c : Char} {cs : List Char} (h : skip (c :: cs) = c :: cs) : Text.isSeparator c = false :=
  Text.head?_dropWhile (c :: cs) c (by rw [← skip, h]; rfl)

theorem not_suffix_of_length {α : Type} {l m : List α} (h : l.length < m.length) : ¬ m <:+ l :=
  fun hs => absurd hs.length_le (Nat.not_le_of_lt h)

theorem scan_skip (cs : List Char) : Lexeme.scan none (skip cs) = Lexeme.scan none cs := by
  induction cs with
  | nil => rfl
  | cons c cs ih =>
    by_cases hc : Text.isSeparator c = true
    · rw [skip, List.dropWhile_cons_of_pos hc, Lexeme.scan, if_pos hc]
      exact ih
    · rw [skip_cons (by simpa using hc)]

theorem scan_char {c : Char} (hs : Text.isSeparator c = false) (hb : c ≠ '[') (cs : List Char) :
    Lexeme.scan none (c :: cs) = ⟨.ofChar c, c :: cs, cs⟩ :: Lexeme.scan none cs := by
  rw [Lexeme.scan, if_neg (by simp [hs]), if_neg hb]

theorem scan_closed : ∀ {cs ds : List Char} (here acc : List Char), cs.dropWhile (· ≠ ']') = ']' :: ds →
    Lexeme.scan (some ⟨here, acc⟩) cs =
      ⟨.label (acc.reverse ++ cs.takeWhile (· ≠ ']')), here, ds⟩ :: Lexeme.scan none ds
  | [], _, _, _, h => by cases h
  | c :: cs, ds, here, acc, h => by
    by_cases hc : c = ']'
    · subst hc
      cases h
      simp [Lexeme.scan]
    · rw [List.dropWhile_cons_of_pos (by simpa using hc)] at h
      rw [Lexeme.scan, if_neg hc, scan_closed here (c :: acc) h, List.takeWhile_cons_of_pos (by simpa using hc)]
      simp

theorem scan_unclosed : ∀ {cs : List Char} (here acc : List Char), cs.dropWhile (· ≠ ']') = [] →
    Lexeme.scan (some ⟨here, acc⟩) cs = [⟨.stray, here, []⟩]
  | [], _, _, _ => rfl
  | c :: cs, here, acc, h => by
    by_cases hc : c = ']'
    · subst hc
      cases h
    · rw [List.dropWhile_cons_of_pos (by simpa using hc)] at h
      rw [Lexeme.scan, if_neg hc, scan_unclosed here (c :: acc) h]

theorem dropWhile_bracket (cs : List Char) :
    cs.dropWhile (· ≠ ']') = [] ∨ ∃ ds, cs.dropWhile (· ≠ ']') = ']' :: ds := by
  cases h : cs.dropWhile (· ≠ ']') with
  | nil => exact .inl rfl
  | cons c ds =>
    have hc := Text.head?_dropWhile (p := (· ≠ ']')) cs c (by rw [h]; rfl)
    obtain rfl : c = ']' := by simpa using hc
    exact .inr ⟨ds, rfl⟩

/-- The lexeme at a place. Where a bracket stands, it depends on whether that is ever closed. -/
theorem exists_lexeme {c : Char} (hs : Text.isSeparator c = false) (cs : List Char) :
    ∃ l ls, Lexeme.scan none (c :: cs) = l :: ls ∧ l.here = c :: cs ∧
      (c ≠ '[' ∧ l.token = .ofChar c ∨ c = '[' ∧ cs.dropWhile (· ≠ ']') = [] ∧ l.token = .stray ∨
        c = '[' ∧ cs.dropWhile (· ≠ ']') ≠ [] ∧ ∃ label, l.token = .label label) := by
  by_cases hb : c = '['
  · subst hb
    obtain hu | ⟨ds, hc⟩ := dropWhile_bracket cs
    · exact ⟨_, _, scan_unclosed _ _ hu, rfl, .inr (.inl ⟨rfl, hu, rfl⟩)⟩
    · exact ⟨_, _, scan_closed _ _ hc, rfl, .inr (.inr ⟨rfl, by rw [hc]; exact List.cons_ne_nil _ _, _, rfl⟩)⟩
  · exact ⟨_, _, scan_char hs hb cs, rfl, .inl ⟨hb, rfl⟩⟩

theorem ofChar_ne_label (c : Char) (label : List Char) : Token.ofChar c ≠ .label label := by
  intro h
  have hc := Token.isChar_ofChar c
  rw [h] at hc
  exact hc

theorem isDigit_of_ofChar {c : Char} {n : Nat} (h : Token.ofChar c = .digit n) : c.isDigit = true := by
  have hc := Token.isChar_ofChar c
  rw [h] at hc
  have hd : ∀ n ≤ 9, (Nat.digitChar n).isDigit = true := by decide
  rw [hc.2]
  exact hd n hc.1

theorem ofChar_of_isDigit {c : Char} (h : c.isDigit = true) : Token.ofChar c = .digit (c.toNat - '0'.toNat) ∧
    Text.isSeparator c = false ∧ c ≠ '[' := by
  obtain ⟨hn, hc⟩ := digitChar_of_isDigit h
  have hd := ofChar_digitChar hn
  rwa [← hc] at hd

theorem exists_char_of_lexeme {p : List Char} (hp : skip p = p) {l : Lexeme}
    (hl : l ∈ (Lexeme.scan none p).head?) : ∃ c cs, p = c :: cs ∧ (c ≠ '[' ∧ l.token = .ofChar c ∨
      c = '[' ∧ cs.dropWhile (· ≠ ']') = [] ∧ l.token = .stray ∨
        c = '[' ∧ cs.dropWhile (· ≠ ']') ≠ [] ∧ ∃ label, l.token = .label label) := by
  cases p with
  | nil => cases hl
  | cons c cs =>
    obtain ⟨l', ls, hscan, -, hc⟩ := exists_lexeme (separator_of_skip hp) cs
    rw [hscan] at hl
    cases hl
    exact ⟨c, cs, rfl, hc⟩

/-- No label stands at a place. -/
theorem token_ne_label {p : List Char} (hp : skip p = p) (h : ∀ cs, p = '[' :: cs → cs.dropWhile (· ≠ ']') = []) :
    ∀ l ∈ (Lexeme.scan none p).head?, ∀ label, l.token ≠ .label label := by
  intro l hl label ht
  obtain ⟨c, cs, rfl, ⟨-, hc⟩ | ⟨-, -, hc⟩ | ⟨rfl, hne, -⟩⟩ := exists_char_of_lexeme hp hl
  · exact ofChar_ne_label c label (hc.symm.trans ht)
  · cases hc.symm.trans ht
  · exact hne (h cs rfl)

/-- No digit stands at a place. -/
theorem token_ne_digit {p : List Char} (hp : skip p = p) (h : ∀ c es, p = c :: es → c.isDigit = false) :
    ∀ l ∈ (Lexeme.scan none p).head?, ∀ n, l.token ≠ .digit n := by
  intro l hl n ht
  obtain ⟨c, cs, rfl, ⟨-, hc⟩ | ⟨-, -, hc⟩ | ⟨-, -, label, hc⟩⟩ := exists_char_of_lexeme hp hl
  · have hd := h c cs rfl
    rw [isDigit_of_ofChar (hc.symm.trans ht)] at hd
    cases hd
  all_goals cases hc.symm.trans ht

/-! ## The reader at a place -/

namespace TagState

/-- Reads the rest of a body. -/
def readRest (s : TagState) (cs : List Char) : Except (TagState × List Char) (List Hint) := do
  let s ← s.run (Lexeme.scan none cs)
  match s.finish with
  | some hs => .ok hs
  | none => .error (s, [])

variable {s s' : TagState} {c : Char} {cs ds : List Char}

theorem readRest_skip (s : TagState) (cs : List Char) : s.readRest (skip cs) = s.readRest cs := by
  rw [readRest, scan_skip]
  rfl

theorem readRest_lexeme {l : Lexeme} (hl : Lexeme.scan none cs = l :: Lexeme.scan none ds)
    (h : s.step l.token = some s') : s.readRest cs = s'.readRest ds := by
  rw [readRest, hl, run, h]
  rfl

theorem readRest_char {t : Token} (hs : Text.isSeparator c = false) (hb : c ≠ '[') (ht : Token.ofChar c = t)
    (h : s.step t = some s') : s.readRest (c :: cs) = s'.readRest (skip cs) := by
  subst ht
  rw [readRest_skip]
  exact readRest_lexeme (scan_char hs hb cs) h

theorem readRest_error {l : Lexeme} {ls : List Lexeme} (hl : Lexeme.scan none cs = l :: ls)
    (h : s.step l.token = none) : s.readRest cs = .error (s, l.here) := by
  rw [readRest, hl, run, h]
  rfl

theorem readRest_nil (h : s.finish = none) : s.readRest [] = .error (s, []) := by
  simp only [readRest, Lexeme.scan, run, bind, Except.bind, h]

theorem step_label_none (h : s.pending = none) (label : List Char) : s.step (.label label) = none := by
  obtain ⟨_, _, _⟩ := s
  cases h
  rfl

/-- The reader is between two elements, in a cluster or in the tag. An error may still wait for a payload. -/
def Between (s : TagState) : Prop := s.settle.closeError.Collects

theorem Between.not_list (h : s.Between) (d : Option Nat) (frames : List Frame) :
    s.settle.frames ≠ .list d :: frames := by
  intro hf
  have hc : s.settle.closeError = s.settle := by rw [closeError, hf]
  rw [Between, hc] at h
  exact h.not_list d frames hf

theorem Between.step_digit (h : s.Between) (n : Nat) : s.step (.digit n) = none := by
  rw [step_eq (t := .digit n) nofun, stepSettled]
  split
  · rename_i frames hf
    exact absurd hf (h.not_list none frames)
  · rfl

/-- The rules that the reader could go on with, apart from the end of the tag. -/
def Offers (s : TagState) (r : Rule) : Prop :=
  r ∈ Rule.elements ∨ r = .units ∧ s.expected.unit = true ∨ r = .depth ∧ s.expected.depth = true ∨
    r = .emptyElement ∧ s.expected.unknownElement = true

theorem Between.offers (h : s.Between) {r : Rule} :
    s.Offers r ↔ r ∈ Rule.elements ∨ r = .units ∧ s.pending.isSome = true := by
  refine or_congr_right ⟨fun ho => ?_, .inl⟩
  obtain ho | ⟨-, hd⟩ | ⟨-, hd⟩ := ho
  · exact ho
  all_goals
    obtain ⟨hp, hf⟩ := Bool.and_eq_true_iff.1 hd
    have hl := h.not_list
    rw [settle_eq_self (Option.isNone_iff_eq_none.1 hp)] at hl
    obtain ⟨_ | ⟨_ | d | _, gs⟩, es, q⟩ := s
    case cons.list => exact absurd rfl (hl d gs)
    all_goals cases hf

theorem offers_list {depth : Option Nat} (hs : s.pending = none) {r : Rule} : (s.begin (.list depth)).Offers r ↔
    r ∈ Rule.elements ∨ r = .depth ∧ depth = none ∨ r = .emptyElement := by
  simp [Offers, expected, begin, hs]

theorem has_expected (s : TagState) (r : Rule) :
    s.expected.has r = true ↔ s.Offers r ∨ r = .endOfTag ∧ s.finish.isSome = true := by
  cases r <;> simp [Expected.has, Offers, Rule.elements, expected]

end TagState

/-! ## The rules at a place -/

/-- Attempts that are added to others and lie no further on than some place. -/
structure Adds (cs : List Char) (fs gs : List Attempt) : Prop where
  subset : fs ⊆ gs
  places : ∀ a ∈ gs, a ∈ fs ∨ cs <:+ a.2

theorem Adds.refl (cs : List Char) (fs : List Attempt) : Adds cs fs fs := ⟨List.Subset.refl _, fun _ ha => .inl ha⟩

theorem adds_append {cs : List Char} {fs gs : List Attempt} (h : ∀ a ∈ gs, a ∈ fs ∨ cs <:+ a.2) :
    Adds cs fs (fs ++ gs) where
  subset := List.subset_append_left _ _
  places a ha := (List.mem_append.1 ha).elim .inl (h a)

theorem adds_prepend {cs : List Char} {fs gs : List Attempt} (h : ∀ a ∈ gs, a ∈ fs ∨ cs <:+ a.2) :
    Adds cs fs (gs ++ fs) where
  subset := List.subset_append_right _ _
  places a ha := (List.mem_append.1 ha).elim (h a) .inl

theorem places_here {fs : List Attempt} (r : Rule) (cs : List Char) : ∀ a ∈ [(r, cs)], a ∈ fs ∨ cs <:+ a.2 := by
  intro a ha
  cases List.mem_singleton.1 ha
  exact .inr List.suffix_rfl

theorem places_map (rs : List Rule) (cs : List Char) : ∀ a ∈ rs.map (·, cs), cs <:+ a.2 := by
  intro a ha
  obtain ⟨r, -, rfl⟩ := List.mem_map.1 ha
  exact List.suffix_rfl

theorem Adds.trans {cs ds : List Char} {fs gs ks : List Attempt} (h : Adds ds fs gs) (h' : Adds cs gs ks)
    (hs : ds <:+ cs) : Adds ds fs ks where
  subset := List.Subset.trans h.subset h'.subset
  places a ha := (h'.places a ha).elim (h.places a) fun hc => .inr (hs.trans hc)

namespace Rule

/-- The character that an element begins with. -/
def first : Rule → Char
  | cluster => '('
  | list => '*'
  | error => 'E'
  | value => 'v'
  | complex => 'c'
  | wildcard => '?'
  | boolean => 'b'
  | int => 'i'
  | word => 'w'
  | string => 's'
  | time => 't'
  | _ => '_'

theorem body_eq {r : Rule} (hr : r ∈ elements) : r.body = char r.first ∨ ∃ q, r.body = seq (char r.first) q := by
  cases r <;> first | exact .inl rfl | exact .inr ⟨_, rfl⟩ | exact absurd hr (by decide)

theorem atomic_eq : ∀ {r : Rule}, r ∈ elements → r.atomic = false := by decide

theorem first_inj : ∀ r ∈ elements, ∀ r' ∈ elements, r.first = r'.first → r = r' := by decide

theorem nodup_elements : elements.Nodup := by decide

theorem separator_first : ∀ {r : Rule}, r ∈ elements → Text.isSeparator r.first = false ∧ r.first ≠ '[' := by decide

end Rule

/-- An element begins here. -/
def Starts (cs : List Char) : Prop := ∃ r ∈ Rule.elements, ∃ rest, cs = r.first :: rest

theorem not_closing {p : List Char} (h : Starts p) : ∀ rest, p ≠ ')' :: rest := by
  rintro rest rfl
  obtain ⟨r, hr, _, he⟩ := h
  have hne : ∀ r ∈ Rule.elements, r.first ≠ ')' := by decide
  exact hne r hr (List.cons.inj he).1.symm

theorem token_of_starts {p : List Char} (h : Starts p) :
    ∃ l ls, Lexeme.scan none p = l :: ls ∧ l.token ≠ .closing := by
  obtain ⟨r, hr, rest, rfl⟩ := h
  obtain ⟨hs, hb⟩ := Rule.separator_first hr
  have hc : ∀ r ∈ Rule.elements, Token.ofChar r.first ≠ .closing := by decide
  exact ⟨_, _, scan_char hs hb rest, hc r hr⟩

theorem token_of_not_starts {c : Char} {cs : List Char} (h : ¬ Starts (c :: cs)) :
    c = ')' ∨ c.isDigit = true ∧ (∃ n, Token.ofChar c = .digit n) ∨ Token.ofChar c = .stray := by
  have hne : ∀ r ∈ Rule.elements, c ≠ r.first := fun r hr hc => h ⟨r, hr, cs, by rw [hc]⟩
  simp only [Rule.elements, List.forall_mem_cons, Rule.first, List.not_mem_nil, false_implies, implies_true,
    and_true] at hne
  by_cases hc : c = ')'
  · exact .inl hc
  · by_cases hd : c.isDigit = true <;> simp [Token.ofChar, hne, hc, hd]

namespace Peg

variable {a : Bool} {c : Char} {cs : List Char} {r : Rule} {rs : List Rule} {fs : List Attempt}
  {out : Option (List RuleTree × List Char)}

theorem runs_char (a : Bool) (c : Char) (cs : List Char) : Runs a (char c) (c :: cs) (some ([], cs)) [] :=
  .one (by simp)

theorem runs_char_fails (h : ∀ rest, cs ≠ c :: rest) : Runs a (char c) cs none [] := by
  refine .oneFails fun d hd => ?_
  obtain ⟨rest, rfl⟩ := List.head?_eq_some_iff.1 hd
  simpa using fun hc => h rest (by rw [hc])

theorem runs_char_seq {q : Peg} (c : Char) (h : Runs false q (skip cs) out fs) :
    Runs false (seq (char c) q) (c :: cs) out fs := by
  cases out with
  | none => exact .seqFails (runs_char false c cs) h
  | some out => exact .seq (runs_char false c cs) h

theorem runs_seq_char {p : Peg} {ds es : List Char} {ts : List RuleTree} (h : Runs false p cs (some (ts, ds)) fs)
    (he : skip ds = c :: es) : Runs false (seq p (char c)) cs (some (ts, es)) fs := by
  have hc : Runs false (char c) (gap false ds) (some ([], es)) [] := by
    rw [gap_false, he]
    exact runs_char false c es
  simpa only [List.append_nil] using Runs.seq h hc

theorem runs_seq_char_fails {p : Peg} (h : Runs false p cs out fs)
    (hc : ∀ ts ds, out = some (ts, ds) → ∀ es, skip ds ≠ c :: es) : Runs false (seq p (char c)) cs none fs := by
  cases out with
  | none => exact .seqFailsLeft h
  | some out => simpa only [List.append_nil] using Runs.seqFails h (runs_char_fails (hc _ _ rfl))

theorem runs_call {ds : List Char} {ts : List RuleTree} (hr : r.atomic = false)
    (h : Runs false r.body cs (some (ts, ds)) fs) :
    Runs false (call r) cs (some ([.node r (cs.take (cs.length - ds.length)) ts], ds)) fs :=
  .call (by rwa [hr])

theorem runs_call_none (hr : r.atomic = false) (h : Runs false r.body cs none fs) :
    Runs false (call r) cs none (fs ++ [(r, cs)]) :=
  .callFails (by rwa [hr])

theorem runs_call_fails (hr : r ∈ Rule.elements) (h : ∀ rest, cs ≠ r.first :: rest) :
    Runs false (call r) cs none [(r, cs)] := by
  have hb : Runs false r.body cs none [] := by
    obtain hb | ⟨q, hb⟩ := Rule.body_eq hr
    · rw [hb]
      exact runs_char_fails h
    · rw [hb]
      exact .seqFailsLeft (runs_char_fails h)
  exact runs_call_none (Rule.atomic_eq hr) hb

theorem runs_firstOf_fails (hrs : ∀ r ∈ rs, r ∈ Rule.elements) (h : ∀ r ∈ rs, ∀ rest, cs ≠ r.first :: rest) :
    Runs false (firstOf rs) cs none (rs.map (·, cs)) := by
  induction rs with
  | nil => exact .oneFails fun _ _ => rfl
  | cons r rs ih =>
    obtain ⟨hr, hrs⟩ := List.forall_mem_cons.1 hrs
    obtain ⟨h₁, h⟩ := List.forall_mem_cons.1 h
    exact .altRight (runs_call_fails hr h₁) (ih hrs h)

/-- Of some elements only the one that a text begins with is not tried in vain. -/
theorem runs_firstOf {rest : List Char} (h : Runs false (call r) (r.first :: rest) out fs) (hr : r ∈ rs)
    (hrs : ∀ r ∈ rs, r ∈ Rule.elements) (hd : rs.Nodup) :
    ∃ gs, Runs false (firstOf rs) (r.first :: rest) out gs ∧ Adds (r.first :: rest) fs gs := by
  induction rs with
  | nil => cases hr
  | cons r' rs ih =>
    obtain ⟨hr', hrs'⟩ := List.forall_mem_cons.1 hrs
    obtain ⟨hn, hd⟩ := List.nodup_cons.1 hd
    have hel : r ∈ Rule.elements := hrs r hr
    have hother : ∀ r₁ ∈ Rule.elements, r₁ ≠ r → ∀ rest', r.first :: rest ≠ r₁.first :: rest' :=
      fun r₁ h₁ hne rest' he => hne (Rule.first_inj r₁ h₁ r hel (List.cons.inj he).1.symm)
    obtain rfl | hmem := List.mem_cons.1 hr
    · cases out with
      | some out => exact ⟨fs, .altLeft h, .refl _ _⟩
      | none =>
        have hfails := runs_firstOf_fails hrs' fun r₁ h₁ => hother r₁ (hrs' r₁ h₁) fun he => hn (he ▸ h₁)
        exact ⟨_, .altRight h hfails, adds_append fun a ha => .inr (places_map rs _ a ha)⟩
    · obtain ⟨gs, hgs, ha⟩ := ih hmem hrs' hd
      have hfails := runs_call_fails hr' (hother r' hr' fun he => hn (he ▸ hmem))
      exact ⟨_, .altRight hfails hgs, ha.trans (adds_prepend (places_here _ _)) List.suffix_rfl⟩

theorem runs_element {rest : List Char} (h : Runs false (call r) (r.first :: rest) out fs) (hr : r ∈ Rule.elements) :
    ∃ gs, Runs false element (r.first :: rest) out gs ∧ Adds (r.first :: rest) fs gs :=
  runs_firstOf h hr (fun _ hr => hr) Rule.nodup_elements

theorem runs_absent (h : ¬ Starts cs) : Runs false element cs none (Rule.elements.map (·, cs)) :=
  runs_firstOf_fails (fun _ hr => hr) fun r hr rest he => h ⟨r, hr, rest, he⟩

end Peg

/-! ## Attempts along a text -/

/-- Up to a place the rules have failed no further on than there, and at that place only those that may be left out
behind what has been read. -/
structure Along (s : TagState) (cs : List Char) (fs : List Attempt) : Prop where
  places : ∀ a ∈ fs, skip cs <:+ a.2
  last : ∀ r, (r, skip cs) ∈ fs → r ∈ Rule.elements ∨ r = .units ∧ s.pending.isSome = true
  units : s.pending.isSome = true → (.units, skip cs) ∈ fs
  label : s.pending.isSome = true → ∀ rest, skip cs = '[' :: rest → rest.dropWhile (· ≠ ']') = []

/-- The reader cannot go on from some place further on. The rules have failed no further on than there, and at that
place those that it could go on with. -/
structure StuckAt (s : TagState) (cs : List Char) (fs : List Attempt) (s' : TagState) (p : List Char) : Prop where
  reads : s.readRest cs = .error (s', p)
  suffix : p <:+ cs
  shorter : p.length < cs.length
  places : ∀ a ∈ fs, p <:+ a.2
  tried : ∀ r, (r, p) ∈ fs ↔ s'.Offers r
  unfinished : s'.finish = none

def Stuck (s : TagState) (cs : List Char) (fs : List Attempt) (p : List Char) : Prop := ∃ s', StuckAt s cs fs s' p

section

variable {s s' s₁ : TagState} {cs ds p : List Char} {fs gs : List Attempt}

theorem along_nil (h : s.pending = none) (cs : List Char) : Along s cs [] :=
  ⟨nofun, nofun, fun hp => (by rw [h] at hp; cases hp), fun hp => (by rw [h] at hp; cases hp)⟩

theorem Along.adds (h : Along s ds fs) (ha : Adds cs fs gs) (hs : ds <:+ cs) (hl : ds.length < cs.length) :
    Along s ds gs where
  places a hm := (ha.places a hm).elim (h.places a) fun hc => ((skip_suffix ds).trans hs).trans hc
  last r hm := h.last r <| (ha.places _ hm).resolve_right <|
    not_suffix_of_length (Nat.lt_of_le_of_lt (skip_suffix ds).length_le hl)
  units hp := ha.subset (h.units hp)
  label := h.label

/-- Where no element begins, all of them are tried. -/
theorem Along.elements (h : Along s cs fs) : Along s (skip cs) (fs ++ Rule.elements.map (·, skip cs)) where
  places a ha := by
    rw [skip_skip]
    obtain ha | ha := List.mem_append.1 ha
    · exact h.places a ha
    · exact places_map _ _ a ha
  last r hm := by
    rw [skip_skip] at hm
    obtain hm | hm := List.mem_append.1 hm
    · exact h.last r hm
    · obtain ⟨r', hr, he⟩ := List.mem_map.1 hm
      cases he
      exact .inl hr
  units hp := by
    rw [skip_skip]
    exact List.mem_append_left _ (h.units hp)
  label hp := by
    rw [skip_skip]
    exact h.label hp

theorem mem_elements {r : Rule} (hr : r ∈ Rule.elements) : (r, cs) ∈ fs ++ Rule.elements.map (·, cs) :=
  List.mem_append_right _ (List.mem_map.2 ⟨r, hr, rfl⟩)

theorem Stuck.adds (h : Stuck s₁ ds fs p) (hr : s.readRest cs = s₁.readRest ds) (hs : ds <:+ cs) (ha : Adds ds fs gs) :
    Stuck s cs gs p := by
  obtain ⟨s', h⟩ := h
  exact ⟨s', {
    reads := hr.trans h.reads
    suffix := h.suffix.trans hs
    shorter := Nat.lt_of_lt_of_le h.shorter hs.length_le
    places a hm := (ha.places a hm).elim (h.places a) h.suffix.trans
    tried r := by
      rw [← h.tried]
      exact ⟨fun hm => (ha.places _ hm).resolve_right (not_suffix_of_length h.shorter), fun hm => ha.subset hm⟩
    unfinished := h.unfinished }⟩

/-- The reader cannot go on where no element begins and nothing else may come next. -/
theorem readRest_stuck (hp : skip p = p) (hn : ¬ Starts p) (hend : p = [] → s.finish = none)
    (hclosing : ∀ rest, p = ')' :: rest → s.step .closing = none)
    (hdigit : ∀ c rest, p = c :: rest → c.isDigit = true → ∀ n, s.step (.digit n) = none)
    (hlabel : s.pending.isSome = true → ∀ rest, p = '[' :: rest → rest.dropWhile (· ≠ ']') = []) :
    s.readRest p = .error (s, p) := by
  cases p with
  | nil => exact TagState.readRest_nil (hend rfl)
  | cons c cs =>
    obtain ⟨l, ls, hl, hhere, ht⟩ := exists_lexeme (separator_of_skip hp) cs
    suffices hs : s.step l.token = none by rw [TagState.readRest_error hl hs, hhere]
    obtain ⟨-, ht⟩ | ⟨-, -, ht⟩ | ⟨rfl, hclosed, label, ht⟩ := ht
    · rw [ht]
      obtain rfl | ⟨hd, n, ht⟩ | ht := token_of_not_starts hn
      · exact hclosing cs rfl
      · rw [ht]
        exact hdigit c cs rfl hd n
      · rw [ht]
        exact TagState.step_stray s
    · rw [ht]
      exact TagState.step_stray s
    · rw [ht]
      cases hq : s.pending with
      | none => exact TagState.step_label_none hq label
      | some q => exact absurd (hlabel (by rw [hq]; rfl) cs rfl) hclosed

/-- The same between two elements. -/
theorem readRest_stuck_between (hb : s'.Between) (hp : skip p = p) (hn : ¬ Starts p) (hend : p = [] → s'.finish = none)
    (hclosing : ∀ rest, p = ')' :: rest → s'.step .closing = none) (hal : Along s' p fs) :
    s'.readRest p = .error (s', p) :=
  readRest_stuck hp hn hend hclosing (fun _ _ _ _ => hb.step_digit) fun hq rest he => hal.label hq rest (hp.trans he)

theorem tried_between (hb : s'.Between) (hp : skip p = p) (hal : Along s' p fs)
    (htried : ∀ r ∈ Rule.elements, (r, p) ∈ fs) (r : Rule) : (r, p) ∈ fs ↔ s'.Offers r := by
  rw [hb.offers]
  refine ⟨fun hm => hal.last r (hp.symm ▸ hm), fun hr => ?_⟩
  obtain hr | ⟨rfl, hq⟩ := hr
  · exact htried r hr
  · exact hp ▸ hal.units hq

end

end TagWire
