import TagWire.Proofs.Tag.Attempts

/-!
# Elements by ordered choice

What becomes of the rules where an element begins, beside the reader: both read the same element, or the rules fail and
the reader is stuck at the furthest place where one of them was tried. An `E` is the exception, since it succeeds
without the payload that could not be read. The element that begins there then fails in the same way. This is shown here
for the elements without parts, and for several elements behind each other.
-/

namespace TagWire

open Peg

theorem Text.isBlank_of_isSeparator {c : Char} (h : isSeparator c = true) : isBlank c = true := by
  simp only [isSeparator, Bool.or_eq_true, decide_eq_true_eq] at h
  rcases h with ((rfl | rfl) | rfl) | rfl <;> decide

/-! ## Outcomes -/

/-- What the reader's search for lists of no dimensions finds in a text is what building its trees finds. -/
def SameZero {α : Type} (built : Except (List Char) α) (x : α) (cs ds : List Char) : Prop :=
  built = .ok x ∧ depthZeroList? (Lexeme.scan none cs) = depthZeroList? (Lexeme.scan none ds) ∨
    ∃ text, built = .error text ∧ depthZeroList? (Lexeme.scan none cs) = some text

/-- What may stand behind an element of a tag. -/
def Follows (cs : List Char) : Prop := cs = [] ∨ (∃ rest, cs = ')' :: rest) ∨ Starts cs

/-- The rules have read an element as a tree, and the reader has read it as a hint. -/
structure ElementRead (s : TagState) (cs : List Char) (t : RuleTree) (h : Hint) (ds : List Char) (fs : List Attempt)
    (s' : TagState) : Prop where
  isElement : t.rule ∈ Rule.elements
  suffix : ds <:+ cs
  shorter : ds.length < cs.length
  reads : s.readRest cs = s'.readRest ds
  hasRead : s.settle.HasRead h s'
  along : Along s' ds fs
  bare : h.endsInBareError = true → ¬ Starts (skip ds)
  ends : Follows (skip ds) → elementEnd 0 (Lexeme.scan none cs) = ds
  inside : ∀ k, elementEnd (k + 1) (Lexeme.scan none cs) = elementEnd (k + 1) (Lexeme.scan none ds)
  zero : Follows (skip ds) → SameZero t.build h cs ds

/-- An element begins behind what has been read, and the reader is stuck further on. -/
structure Ahead (p ds : List Char) : Prop where
  starts : Starts (skip ds)
  suffix : p <:+ skip ds
  shorter : p.length < (skip ds).length

/-- The rules find no element there. -/
structure Resumes (p ds : List Char) (fs : List Attempt) : Prop extends Ahead p ds where
  fails : ∃ gs, gs ⊆ fs ∧ Runs false element (skip ds) none gs

/-- What becomes of an element. -/
inductive Outcome (p : Peg) (s : TagState) (cs : List Char) : Prop where
  | stuck {out : Option (List RuleTree × List Char)} {fs : List Attempt} {q : List Char} : Runs false p cs out fs →
    Stuck s cs fs q → (∀ ts ds, out = some (ts, ds) → Resumes q ds fs) → Outcome p s cs
  | read {t : RuleTree} {h : Hint} {ds : List Char} {fs : List Attempt} {s' : TagState} :
    Runs false p cs (some ([t], ds)) fs → ElementRead s cs t h ds fs s' → Outcome p s cs

/-- An element may be read at a place: behind a star it is not the unknown element. -/
structure AtElement (s : TagState) (cs : List Char) : Prop where
  starts : Starts cs
  known : ∀ d frames, s.settle.frames = .list d :: frames → ∀ rest, cs ≠ '_' :: rest

/-- Each element that is shorter than a bound is as it should be. -/
def ElementsBelow (n : Nat) : Prop := ∀ cs, cs.length < n → ∀ s, AtElement s cs → Outcome element s cs

section

variable {n : Nat} {r : Rule} {s s' : TagState} {cs ds es rest p : List Char} {fs : List Attempt}

theorem ahead_of_stuck (hs : Starts (skip ds)) (hst : Stuck s (skip ds) fs p) (he : skip es = skip ds) :
    Ahead p es := by
  obtain ⟨_, hst⟩ := hst
  exact ⟨he ▸ hs, he ▸ hst.suffix, he ▸ hst.shorter⟩

theorem Ahead.congr (h : Ahead p ds) (he : skip es = skip ds) : Ahead p es :=
  ⟨he ▸ h.starts, he ▸ h.suffix, he ▸ h.shorter⟩

theorem Resumes.mono {gs : List Attempt} (h : Resumes p ds fs) (hs : fs ⊆ gs) : Resumes p ds gs :=
  { h with fails := h.fails.imp fun _ hr => ⟨List.Subset.trans hr.1 hs, hr.2⟩ }

theorem Outcome.element (hr : r ∈ Rule.elements) (h : Outcome (call r) s (r.first :: rest)) :
    Outcome element s (r.first :: rest) := by
  cases h with
  | stuck hrun hst hres =>
    obtain ⟨gs, hgs, ha⟩ := runs_element hrun hr
    exact .stuck hgs (hst.adds rfl List.suffix_rfl ha) fun ts ds he => (hres ts ds he).mono ha.subset
  | read hrun h =>
    obtain ⟨gs, hgs, ha⟩ := runs_element hrun hr
    exact .read hgs { h with along := h.along.adds ha h.suffix h.shorter }

theorem Outcome.failed_call (hr : r.atomic = false) (h : Runs false r.body cs none fs) (hst : Stuck s cs fs p) :
    Outcome (call r) s cs :=
  .stuck (runs_call_none hr h) (hst.adds rfl List.suffix_rfl (adds_append (places_here r cs))) nofun

theorem Outcome.stuck_call {out : Option (List RuleTree × List Char)} (hr : r.atomic = false)
    (h : Runs false r.body cs out fs) (hst : Stuck s cs fs p)
    (hres : ∀ ts ds, out = some (ts, ds) → Resumes p ds fs) : Outcome (call r) s cs := by
  cases out with
  | none => exact .failed_call hr h hst
  | some out => exact .stuck (runs_call hr h) hst fun ts ds he => (by cases he; exact hres _ _ rfl)

namespace SameZero

variable {α β : Type} {built : Except (List Char) α} {x : α} {cs' ds' : List Char}

theorem congr (h : SameZero built x cs ds)
    (hc : depthZeroList? (Lexeme.scan none cs') = depthZeroList? (Lexeme.scan none cs))
    (hd : depthZeroList? (Lexeme.scan none ds) = depthZeroList? (Lexeme.scan none ds')) : SameZero built x cs' ds' :=
  h.imp (fun h => ⟨h.1, by rw [hc, h.2, hd]⟩) fun ⟨text, h⟩ => ⟨text, h.1, by rw [hc, h.2]⟩

theorem map (h : SameZero built x cs ds) (f : α → β) : SameZero (built.map f) (f x) cs ds :=
  h.imp (fun h => ⟨by rw [h.1]; rfl, h.2⟩) fun ⟨text, h⟩ => ⟨text, by rw [h.1]; rfl, h.2⟩

theorem cons {t : RuleTree} {h : Hint} {ts : List RuleTree} {hs : List Hint} (hz : SameZero t.build h cs ds)
    (hzs : SameZero (RuleTree.buildAll ts) hs ds es) : SameZero (RuleTree.buildAll (t :: ts)) (h :: hs) cs es := by
  obtain ⟨hb, hd⟩ | ⟨text, hb, hd⟩ := hz
  · obtain ⟨hbs, hds⟩ | ⟨text, hbs, hds⟩ := hzs
    · exact .inl ⟨by rw [RuleTree.buildAll, hb, hbs]; rfl, hd.trans hds⟩
    · exact .inr ⟨text, by rw [RuleTree.buildAll, hb, hbs]; rfl, hd.trans hds⟩
  · exact .inr ⟨text, by rw [RuleTree.buildAll, hb]; rfl, hd⟩

theorem nil (cs : List Char) : SameZero (RuleTree.buildAll []) [] cs cs := .inl ⟨by rw [RuleTree.buildAll], rfl⟩

end SameZero

end

/-! ## Letters -/

/-- The elements of one character. -/
def Rule.letter? : Rule → Option Hint
  | none => some .none
  | boolean => some .bool
  | int => some .int
  | word => some .word
  | string => some .str
  | time => some .time
  | wildcard => some .wildcard
  | _ => .none

theorem Rule.letter?_spec {r : Rule} {h : Hint} (hr : r.letter? = some h) : r ∈ elements ∧ r.body = char r.first ∧
    Letter r.first h ∧ ∀ text, (RuleTree.node r text []).build = .ok h := by
  cases r <;> cases hr <;> exact ⟨by decide, rfl, by constructor, fun _ => by simp only [RuleTree.build]⟩

theorem elementEnd_letter {l : Lexeme} (h : l.token = .underscore ∨ ∃ e, l.token = .simple e) (ls : List Lexeme) :
    elementEnd 0 (l :: ls) = l.after ∧ (∀ k, elementEnd (k + 1) (l :: ls) = elementEnd (k + 1) ls) ∧
      depthZeroList? (l :: ls) = depthZeroList? ls := by
  obtain ⟨t, here, after⟩ := l
  obtain rfl | ⟨e, rfl⟩ : t = .underscore ∨ ∃ e, t = .simple e := h
  · exact ⟨rfl, fun _ => rfl, rfl⟩
  · exact ⟨rfl, fun _ => rfl, rfl⟩

theorem outcome_letter {r : Rule} {h : Hint} (hr : r.letter? = some h) (s : TagState) (rest : List Char)
    (hf : h = .none → ∀ d frames, s.settle.frames ≠ .list d :: frames) : Outcome (call r) s (r.first :: rest) := by
  obtain ⟨hel, hbody, hl, hbuild⟩ := Rule.letter?_spec hr
  obtain ⟨hsep, hb, ht⟩ := ofChar_letter hl
  have hscan := scan_char hsep hb rest
  have hrun : Runs false r.body (r.first :: rest) (some ([], rest)) [] := hbody ▸ runs_char false r.first rest
  have hshape : Token.ofChar r.first = .underscore ∨ ∃ e, Token.ofChar r.first = .simple e :=
    ht.elim (fun ht => .inr ⟨h, ht⟩) fun ht => .inl ht.2
  obtain ⟨hend, hin, hzero⟩ :=
    elementEnd_letter (l := ⟨.ofChar r.first, r.first :: rest, rest⟩) hshape (Lexeme.scan none rest)
  exact .read (runs_call (Rule.atomic_eq hel) hrun) {
    isElement := hel
    suffix := List.suffix_cons _ _
    shorter := Nat.lt_succ_self _
    reads := TagState.readRest_lexeme hscan (TagState.step_letter hl hf)
    hasRead := TagState.hasRead_push _ _
    along := along_nil (TagState.pending_push _ _) _
    bare := fun he => by rw [Hint.endsInBareError_letter hl] at he; cases he
    ends := fun _ => by rw [hscan, hend]
    inside := fun k => by rw [hscan, hin]
    zero := fun _ => .inl ⟨hbuild _, by rw [hscan, hzero]⟩ }

/-! ## Values and complex numbers -/

/-- The elements that a label may follow. -/
def Rule.quantity? : Rule → Option Quantity
  | value => some .value
  | complex => some .complex
  | _ => .none

theorem Rule.quantity?_spec {r : Rule} {q : Quantity} (hr : r.quantity? = some q) : r ∈ elements ∧
    r.body = seq (char r.first) (opt (call .units)) ∧ Token.ofChar r.first = .quantity q ∧
    ∀ text parts, (RuleTree.node r text parts).build = .ok (q.hint (RuleTree.unit parts)) := by
  cases r <;> cases hr <;>
    exact ⟨by decide, rfl, by decide, fun _ _ => by simp only [RuleTree.build, Quantity.hint]⟩

section

variable {cs ds rest p : List Char} {r : Rule} {q : Quantity}

theorem bracket_skip (cs : List Char) : (skip cs).dropWhile (· ≠ ']') = cs.dropWhile (· ≠ ']') ∧
    (skip cs).takeWhile (· ≠ ']') = skip (cs.takeWhile (· ≠ ']')) := by
  induction cs with
  | nil => exact ⟨rfl, rfl⟩
  | cons c cs ih =>
    by_cases hs : Text.isSeparator c = true
    · have hp : decide (c ≠ ']') = true := by
        rw [decide_eq_true_eq]
        rintro rfl
        cases hs
      rw [List.dropWhile_cons_of_pos (p := (· ≠ ']')) hp, List.takeWhile_cons_of_pos (p := (· ≠ ']')) hp]
      simp only [skip, List.dropWhile_cons_of_pos hs]
      exact ih
    · have hs' : Text.isSeparator c = false := by simpa using hs
      rw [skip_cons hs']
      refine ⟨rfl, ?_⟩
      by_cases hc : c = ']'
      · subst hc
        rfl
      · rw [List.takeWhile_cons_of_pos (by simpa using hc), skip_cons hs']

theorem trim_skip (cs : List Char) : Text.trim (skip cs) = Text.trim cs := by
  have hd : (skip cs).dropWhile Text.isBlank = cs.dropWhile Text.isBlank := by
    induction cs with
    | nil => rfl
    | cons c cs ih =>
      by_cases hs : Text.isSeparator c = true
      · rw [skip, List.dropWhile_cons_of_pos hs, List.dropWhile_cons_of_pos (Text.isBlank_of_isSeparator hs)]
        exact ih
      · rw [skip_cons (by simpa using hs)]
  rw [Text.trim, hd, Text.trim]

theorem take_left (pre ds : List Char) : (pre ++ ds).take ((pre ++ ds).length - ds.length) = pre := by simp

theorem runs_again_label : ∀ cs : List Char,
    Runs true (again (one (· ≠ ']'))) cs (some ([], cs.dropWhile (· ≠ ']'))) []
  | [] => .againStops (.oneFails fun _ hc => by cases hc)
  | c :: cs => by
    by_cases hc : c = ']'
    · subst hc
      exact .againStops (.oneFails fun _ hd => by cases hd; rfl)
    · rw [List.dropWhile_cons_of_pos (by simpa using hc)]
      exact .again (.one (by simpa using hc)) (runs_again_label cs)

theorem many_of_again {a : Bool} {p : Peg} {out : Option (List RuleTree × List Char)} {fs : List Attempt}
    (hc : gap a cs = cs) (h : Runs a (again p) cs out fs) : Runs a (many p) cs out fs := by
  cases h with
  | again hp hq => exact .many (hc ▸ hp) hq
  | againStops hp => exact .manyStops (hc ▸ hp)

theorem runs_label (cs : List Char) : Runs false (call .unitLabel) cs
    (some ([.node .unitLabel (cs.takeWhile (· ≠ ']')) []], cs.dropWhile (· ≠ ']'))) [] := by
  have hb := many_of_again rfl (runs_again_label cs)
  have ht := take_left (cs.takeWhile (· ≠ ']')) (cs.dropWhile (· ≠ ']'))
  rw [List.takeWhile_append_dropWhile] at ht
  have h := Runs.call (a := false) (r := .unitLabel) hb
  rwa [ht] at h

theorem runs_units (h : cs.dropWhile (· ≠ ']') = ']' :: ds) :
    ∃ t, Runs false (call .units) ('[' :: cs) (some ([t], ds)) [] ∧
      RuleTree.unit [t] = .ofLabel (String.ofList (Text.trim (cs.takeWhile (· ≠ ']')))) := by
  obtain ⟨hd, ht⟩ := bracket_skip cs
  have hl := runs_label (skip cs)
  rw [hd, h, ht] at hl
  exact ⟨_, runs_call rfl (runs_char_seq '[' (runs_seq_char hl (skip_cons rfl))),
    congrArg (fun label => UnitMark.ofLabel (String.ofList label)) (trim_skip _)⟩

theorem runs_units_fails (h : ∀ cs, p = '[' :: cs → cs.dropWhile (· ≠ ']') = []) :
    Runs false (call .units) p none [(.units, p)] := by
  suffices hu : Runs false (Rule.body .units) p none [] from runs_call_none rfl hu
  by_cases hp : ∃ cs, p = '[' :: cs
  · obtain ⟨cs, rfl⟩ := hp
    have hl := runs_label (skip cs)
    rw [(bracket_skip cs).1, h cs rfl] at hl
    exact runs_char_seq '[' (runs_seq_char_fails hl fun ts ds he => (by cases he; exact nofun))
  · exact .seqFailsLeft (runs_char_fails fun rest he => hp ⟨rest, he⟩)

theorem elementEnd_quantity {here after : List Char} {ls : List Lexeme}
    (h : ∀ l ∈ ls.head?, ∀ label, l.token ≠ .label label) :
    elementEnd 0 (⟨.quantity q, here, after⟩ :: ls) = skip after := by
  obtain _ | ⟨⟨t, here', after'⟩, ls⟩ := ls
  · rfl
  · cases t with
    | label label => exact absurd rfl (h _ rfl label)
    | _ => rfl

theorem quantity_label (hr : r.quantity? = some q) (s : TagState) (hp : skip rest = '[' :: cs)
    (hc : cs.dropWhile (· ≠ ']') = ']' :: ds) : Outcome (call r) s (r.first :: rest) := by
  obtain ⟨hel, hbody, ht, hbuild⟩ := Rule.quantity?_spec hr
  obtain ⟨hsep, hb⟩ := Rule.separator_first hel
  obtain ⟨t, hu, hunit⟩ := runs_units hc
  have hscan := scan_char hsep hb rest
  rw [ht] at hscan
  have hscan' : Lexeme.scan none rest = ⟨.label (cs.takeWhile (· ≠ ']')), '[' :: cs, ds⟩ :: Lexeme.scan none ds := by
    rw [← scan_skip, hp]
    exact scan_closed _ _ hc
  have hstep : s.step (.quantity q) = some { s.settle with pending := some q } := rfl
  have hrun : Runs false r.body (r.first :: rest) (some ([t], ds)) [] := by
    rw [hbody]
    exact runs_char_seq r.first (.opt (hp ▸ hu))
  have hlabel : ds <:+ cs := (List.suffix_cons ']' ds).trans (hc ▸ List.dropWhile_suffix _)
  have hsuf : ds <:+ rest := (hlabel.trans (List.suffix_cons '[' cs)).trans (hp ▸ skip_suffix rest)
  exact .read (runs_call (Rule.atomic_eq hel) hrun) {
    isElement := hel
    suffix := hsuf.trans (List.suffix_cons _ _)
    shorter := Nat.lt_succ_of_le hsuf.length_le
    reads := (TagState.readRest_lexeme hscan hstep).trans (TagState.readRest_lexeme hscan' rfl)
    hasRead := TagState.hasRead_push _ _
    along := along_nil (TagState.pending_push _ _) _
    bare := fun he => by cases q <;> cases he
    ends := fun _ => by rw [hscan, hscan']; rfl
    inside := fun k => by rw [hscan, hscan']; rfl
    zero := fun _ => .inl ⟨by rw [hbuild, hunit], by rw [hscan, hscan']; rfl⟩ }

theorem quantity_open (hr : r.quantity? = some q) (s : TagState)
    (hopen : ∀ cs, skip rest = '[' :: cs → cs.dropWhile (· ≠ ']') = []) : Outcome (call r) s (r.first :: rest) := by
  obtain ⟨hel, hbody, ht, hbuild⟩ := Rule.quantity?_spec hr
  obtain ⟨hsep, hb⟩ := Rule.separator_first hel
  have hscan := scan_char hsep hb rest
  rw [ht] at hscan
  have hstep : s.step (.quantity q) = some { s.settle with pending := some q } := rfl
  have hrun : Runs false r.body (r.first :: rest) (some ([], skip rest)) [(.units, skip rest)] := by
    rw [hbody]
    exact runs_char_seq r.first (.optSkips (runs_units_fails hopen))
  have hne := token_ne_label (skip_skip rest) hopen
  rw [scan_skip] at hne
  exact .read (runs_call (Rule.atomic_eq hel) hrun) {
    isElement := hel
    suffix := skip_suffix_cons _ _
    shorter := length_skip_lt _ _
    reads := (TagState.readRest_lexeme hscan hstep).trans (TagState.readRest_skip _ _).symm
    hasRead := TagState.hasRead_of_settle rfl
    along := {
      places := fun a ha => by
        cases List.mem_singleton.1 ha
        exact skip_suffix _
      last := fun _ hm => .inr ⟨congrArg Prod.fst (List.mem_singleton.1 hm), rfl⟩
      units := fun _ => by rw [skip_skip]; exact List.mem_singleton_self _
      label := fun _ rest' hp => hopen rest' (by rw [← skip_skip, hp]) }
    bare := fun he => by cases q <;> cases he
    ends := fun _ => by rw [hscan, elementEnd_quantity hne]
    inside := fun k => by rw [hscan, scan_skip]; rfl
    zero := fun _ => .inl ⟨hbuild _ _, by rw [hscan, scan_skip]; rfl⟩ }

theorem outcome_quantity (hr : r.quantity? = some q) (s : TagState) (rest : List Char) :
    Outcome (call r) s (r.first :: rest) := by
  by_cases hlabel : ∃ cs ds, skip rest = '[' :: cs ∧ cs.dropWhile (· ≠ ']') = ']' :: ds
  · obtain ⟨cs, ds, hp, hc⟩ := hlabel
    exact quantity_label hr s hp hc
  · exact quantity_open hr s fun cs hp => (dropWhile_bracket cs).resolve_right fun ⟨ds, hc⟩ => hlabel ⟨cs, ds, hp, hc⟩

end

/-! ## Several elements -/

/-- The rules have read an element and all that follow it, up to a place. -/
structure ElementsRead (s : TagState) (cs : List Char) (ts : List RuleTree) (hs : List Hint) (p : List Char)
    (fs : List Attempt) (s' : TagState) : Prop where
  blank : skip p = p
  suffix : p <:+ cs
  shorter : p.length < cs.length
  reads : s.readRest cs = s'.readRest p
  pushes : s'.settle.closeError = s.settle.pushAll hs
  nonempty : hs ≠ []
  areElements : ∀ t ∈ ts, t.rule ∈ Rule.elements
  along : Along s' p fs
  stops : ¬ Starts p
  tried : ∀ r ∈ Rule.elements, (r, p) ∈ fs
  inside : ∀ k, elementEnd (k + 1) (Lexeme.scan none cs) = elementEnd (k + 1) (Lexeme.scan none p)
  zero : Follows p → SameZero (RuleTree.buildAll ts) hs cs p

/-- What becomes of an element and those behind it. -/
inductive ElementsOutcome (s : TagState) (cs : List Char) : Prop where
  | stuck {out : Option (List RuleTree × List Char)} {fs : List Attempt} {p : List Char} :
    Runs false (seq element (many element)) cs out fs → Stuck s cs fs p →
    (∀ ts ds, out = some (ts, ds) → Ahead p ds) → ElementsOutcome s cs
  | read {ts : List RuleTree} {hs : List Hint} {ds : List Char} {fs : List Attempt} {s' : TagState} :
    Runs false (seq element (many element)) cs (some (ts, ds)) fs → ElementsRead s cs ts hs (skip ds) fs s' →
    ElementsOutcome s cs

/-- The same rule as often as it succeeds. Blanks that it leaves behind may be skipped. -/
theorem many_of_seq {p : Peg} {cs : List Char} {out : Option (List RuleTree × List Char)} {fs : List Attempt}
    (h : Runs false (seq p (many p)) cs out fs) : ∃ ts ds, Runs false (many p) cs (some (ts, ds)) fs ∧
      (out = none ∧ ds = cs ∨ ∃ ds', out = some (ts, ds') ∧ skip ds = skip ds') := by
  cases h with
  | seq hp hq =>
    cases hq with
    | many hq hr => exact ⟨_, _, .many hp (.again hq hr), .inr ⟨_, rfl, rfl⟩⟩
    | manyStops hq => exact ⟨_, _, .many hp (.againStops hq), .inr ⟨_, rfl, (skip_skip _).symm⟩⟩
  | seqFailsLeft hp => exact ⟨_, _, .manyStops hp, .inl ⟨rfl, rfl⟩⟩
  | seqFails _ hq => cases hq

section

variable {n : Nat} {s s' : TagState} {cs ds p : List Char} {t : RuleTree} {h : Hint} {fs gs : List Attempt}

/-- No element begins behind the one that has been read. -/
theorem ElementRead.last (hread : ElementRead s cs t h ds fs s') (hnext : ¬ Starts (skip ds)) :
    ElementsRead s cs [t] [h] (skip ds) (fs ++ Rule.elements.map (·, skip ds)) s' where
  blank := skip_skip ds
  suffix := (skip_suffix ds).trans hread.suffix
  shorter := Nat.lt_of_le_of_lt (skip_suffix ds).length_le hread.shorter
  reads := hread.reads.trans (TagState.readRest_skip s' ds).symm
  pushes := hread.hasRead.1
  nonempty := List.cons_ne_nil h _
  areElements := fun t' ht => List.mem_singleton.1 ht ▸ hread.isElement
  along := hread.along.elements
  stops := hnext
  tried := fun r hr => mem_elements hr
  inside := fun k => by rw [hread.inside, scan_skip]
  zero := fun hf => .cons (hread.zero hf) ((SameZero.nil ds).congr rfl (by rw [scan_skip]))

/-- One begins there, so what has been read is no error that waits for a payload. -/
theorem ElementRead.settle_eq (hread : ElementRead s cs t h ds fs s') (hnext : Starts (skip ds)) :
    s'.settle = s.settle.push h :=
  hread.hasRead.2 (by simpa using fun hb => hread.bare hb hnext)

theorem ElementRead.adds (hread : ElementRead s cs t h ds fs s') : Adds (skip ds) gs (fs ++ gs) :=
  adds_prepend fun a ha => .inr (hread.along.places a ha)

theorem ElementRead.cons {ts : List RuleTree} {hs : List Hint} {s'' : TagState}
    (hread : ElementRead s cs t h ds fs s') (hnext : Starts (skip ds))
    (hall : ElementsRead s' (skip ds) ts hs p gs s'') :
    ElementsRead s cs (t :: ts) (h :: hs) p (fs ++ gs) s'' where
  blank := hall.blank
  suffix := (hall.suffix.trans (skip_suffix ds)).trans hread.suffix
  shorter := Nat.lt_trans (Nat.lt_of_lt_of_le hall.shorter (skip_suffix ds).length_le) hread.shorter
  reads := (hread.reads.trans (TagState.readRest_skip s' ds).symm).trans hall.reads
  pushes := by rw [hall.pushes, hread.settle_eq hnext]; rfl
  nonempty := List.cons_ne_nil h _
  areElements := List.forall_mem_cons.2 ⟨hread.isElement, hall.areElements⟩
  along := hall.along.adds hread.adds hall.suffix hall.shorter
  stops := hall.stops
  tried := fun r hr => List.mem_append_right _ (hall.tried r hr)
  inside := fun k => by rw [hread.inside, ← scan_skip ds, hall.inside]
  zero := fun hf => .cons (hread.zero (.inr (.inr hnext))) ((hall.zero hf).congr (by rw [scan_skip]) rfl)

theorem ElementsOutcome.cons (hrun : Runs false element cs (some ([t], ds)) fs) (hread : ElementRead s cs t h ds fs s')
    (hnext : Starts (skip ds)) (h : ElementsOutcome s' (skip ds)) : ElementsOutcome s cs := by
  have hreads : s.readRest cs = s'.readRest (skip ds) := hread.reads.trans (TagState.readRest_skip s' ds).symm
  cases h with
  | stuck hrun' hst hres =>
    obtain ⟨ts, es, hmany, hout⟩ := many_of_seq hrun'
    have hsuf : skip ds <:+ cs := (skip_suffix ds).trans hread.suffix
    refine .stuck (.seq hrun hmany) (hst.adds hreads hsuf hread.adds) fun ts' ds' he => ?_
    cases he
    obtain ⟨-, rfl⟩ | ⟨es', rfl, he⟩ := hout
    · exact ahead_of_stuck hnext hst (skip_skip ds)
    · exact (hres _ _ rfl).congr he
  | read hrun' hall =>
    obtain ⟨ts, es, hmany, ⟨hout, -⟩ | ⟨es', hout, he⟩⟩ := many_of_seq hrun'
    · cases hout
    · cases hout
      rw [← he] at hall
      exact .read (.seq hrun hmany) (hread.cons hnext hall)

/-- An element and those behind it, by induction on the length of the text. -/
theorem elements_cases (ih : ElementsBelow n) : ∀ {cs : List Char} {s : TagState}, cs.length < n → Starts cs →
    s.settle.Collects → ElementsOutcome s cs := by
  intro cs s hn hstarts hc
  induction hk : cs.length using Nat.strong_induction_on generalizing cs s with
  | _ k ihk =>
  cases ih cs hn s ⟨hstarts, fun d frames hf => absurd hf (hc.not_list d frames)⟩ with
  | @stuck out fs p hrun hst hres =>
    cases out with
    | none => exact .stuck (.seqFailsLeft hrun) hst nofun
    | some out =>
      have hr := hres _ _ rfl
      obtain ⟨gs, hsub, hfail⟩ := hr.fails
      have hadds : Adds cs fs (fs ++ gs) := adds_append fun a ha => .inl (hsub ha)
      refine .stuck (.seq hrun (.manyStops hfail)) (hst.adds rfl List.suffix_rfl hadds) fun ts ds he => ?_
      cases he
      exact hr.toAhead.congr (skip_skip _)
  | @read t h ds fs s' hrun hread =>
    by_cases hnext : Starts (skip ds)
    · have hshort : (skip ds).length < cs.length := Nat.lt_of_le_of_lt (skip_suffix ds).length_le hread.shorter
      have hc' : s'.settle.Collects := hread.settle_eq hnext ▸ hc.push h
      exact .cons hrun hread hnext (ihk _ (hk ▸ hshort) (Nat.lt_trans hshort hn) hnext hc' rfl)
    · refine @ElementsOutcome.read s cs _ [h] _ _ s' (.seq hrun (.manyStops (runs_absent hnext))) ?_
      rw [gap_false, skip_skip]
      exact hread.last hnext

end

end TagWire
