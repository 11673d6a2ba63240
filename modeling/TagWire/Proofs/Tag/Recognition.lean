import TagWire.Proofs.Tag.Parsed

/-!
# The texts that are read

The grammar of tags without what the elements are. It leaves the digit behind a star open, which may be a 0 here: a
list of no dimensions is only noticed once the whole tag has been read. What decides how a text may go on is the number
of open parentheses and the kind of what stands last. These two follow the reader from token to token, and a text is
read exactly if it is one of the grammar.
-/

namespace TagWire

/-! ## The grammar -/

/-- A text is the number of dimensions of a list. -/
inductive DepthText : List Char → Prop where
  | absent : DepthText []
  | digit {n : Nat} {cs : List Char} : n ≤ 9 → Mark (Nat.digitChar n) cs → DepthText cs

mutual

/-- A text is some element. -/
inductive ElementText : List Char → Prop where
  | letter {c : Char} {h : Hint} {cs : List Char} : Letter c h → Mark c cs → ElementText cs
  | quantity {q : Quantity} {u : UnitMark} {vs us : List Char} : Mark q.mark vs → u.Derives us → ElementText (vs ++ us)
  | cluster {op es fs cl : List Char} : Mark '(' op → ElementText es → ElementsText fs → Mark ')' cl →
    ElementText (op ++ (es ++ fs) ++ cl)
  | list {st ds es : List Char} : Mark '*' st → DepthText ds → ElementText es → ElementText (st ++ ds ++ es)
  | error {er es : List Char} : Mark 'E' er → ElementText es → ElementText (er ++ es)
  | bareError {er : List Char} : Mark 'E' er → ElementText er

/-- A text is some elements behind each other. -/
inductive ElementsText : List Char → Prop where
  | nil : ElementsText []
  | cons {es fs : List Char} : ElementText es → ElementsText fs → ElementsText (es ++ fs)

end

/-- A text is the body of some tag. -/
def TagText (body : List Char) : Prop := ∃ es bs, ElementsText es ∧ Blanks bs ∧ body = es ++ bs

/-! ## Outlines -/

/-- The kind of what was read last. -/
inductive LastRead where
  /-- An element or the beginning of the tag. An error may still take a payload. -/
  | element
  /-- A value or complex number, which a label may follow. -/
  | quantity
  /-- A star, which a digit may follow. -/
  | star
  /-- An opening parenthesis or a digit, which an element has to follow. -/
  | begun
deriving DecidableEq, Repr

/-- Nothing has to follow. -/
def LastRead.complete : LastRead → Bool
  | element | quantity => true
  | star | begun => false

/-- What matters for how a text may go on. -/
structure Outline where
  /-- The parentheses that are open. -/
  clusters : Nat := 0
  last : LastRead := .element
deriving DecidableEq, Repr

namespace Outline

/-- Reads one token, unless it cannot come next. -/
def step (o : Outline) : Token → Option Outline
  | .underscore | .simple _ | .error => some ⟨o.clusters, .element⟩
  | .quantity _ => some ⟨o.clusters, .quantity⟩
  | .star => some ⟨o.clusters, .star⟩
  | .opening => some ⟨o.clusters + 1, .begun⟩
  | .digit _ => if o.last = .star then some ⟨o.clusters, .begun⟩ else none
  | .label _ => if o.last = .quantity then some ⟨o.clusters, .element⟩ else none
  | .closing =>
    match o.last.complete, o.clusters with
    | true, n + 1 => some ⟨n, .element⟩
    | _, _ => none
  | .stray => none

/-- The tag may end here. -/
def mayEnd (o : Outline) : Bool := o.last.complete && o.clusters = 0

def steps : Outline → List Token → Option Outline
  | o, [] => some o
  | o, t :: ts => (o.step t).bind fun o' => o'.steps ts

theorem steps_append : ∀ {o : Outline} {ts us : List Token}, o.steps (ts ++ us) = (o.steps ts).bind fun o' => o'.steps us
  | o, [], us => rfl
  | o, t :: ts, us => by
    rw [List.cons_append, steps, steps]
    cases o.step t with
    | none => rfl
    | some o₁ => exact steps_append

theorem step_closing {n : Nat} {last : LastRead} (h : last.complete = true) :
    step ⟨n + 1, last⟩ .closing = some ⟨n, .element⟩ := by
  rw [step, h]

theorem of_step_label {o o₁ : Outline} {cs : List Char} (h : o.step (.label cs) = some o₁) :
    o.last = .quantity ∧ o₁ = ⟨o.clusters, .element⟩ := by
  rw [step] at h
  obtain ⟨hl, he⟩ := Option.ite_none_right_eq_some.1 h
  cases he
  exact ⟨hl, rfl⟩

theorem of_step_digit {o o₁ : Outline} {n : Nat} (h : o.step (.digit n) = some o₁) :
    o.last = .star ∧ o₁ = ⟨o.clusters, .begun⟩ := by
  rw [step] at h
  obtain ⟨hl, he⟩ := Option.ite_none_right_eq_some.1 h
  cases he
  exact ⟨hl, rfl⟩

theorem of_step_closing {o o₁ : Outline} (h : o.step .closing = some o₁) :
    o.last.complete = true ∧ ∃ n, o.clusters = n + 1 ∧ o₁ = ⟨n, .element⟩ := by
  obtain ⟨n, last⟩ := o
  rw [step] at h
  split at h
  · rename_i hl hn
    cases h
    exact ⟨hl, _, hn, rfl⟩
  · cases h

/-- A value that no label follows is an element as any other. -/
def settle (o : Outline) : Outline := ⟨o.clusters, if o.last = .quantity then .element else o.last⟩

theorem step_settle {t : Token} (h : ∀ cs, t ≠ .label cs) (o : Outline) : o.settle.step t = o.step t := by
  obtain ⟨n, last⟩ := o
  cases t with
  | label cs => exact absurd rfl (h cs)
  | _ => cases last <;> rfl

theorem mayEnd_settle (o : Outline) : o.settle.mayEnd = o.mayEnd := by
  obtain ⟨n, last⟩ := o
  cases last <;> rfl

end Outline

/-! ## The outline of what the reader has read -/

namespace TagState

def openClusters : List Frame → Nat
  | [] => 0
  | .cluster _ :: fs => openClusters fs + 1
  | .list _ :: fs | .error :: fs => openClusters fs

def lastRead (s : TagState) : LastRead :=
  match s.pending, s.frames with
  | some _, _ => .quantity
  | none, .list none :: _ => .star
  | none, .list (some _) :: _ | none, .cluster [] :: _ => .begun
  | none, _ => .element

def outline (s : TagState) : Outline := ⟨openClusters s.frames, s.lastRead⟩

/-- Behind a finished element stands either nothing that is open or a cluster with members. -/
theorem complete_eq (es : List Hint) : ∀ (fs : List Frame) (h : Hint),
    (openClusters fs = 0 ∧ ∃ es', complete es h fs = ⟨[], es', none⟩) ∨
      ∃ m ms gs, openClusters fs = openClusters gs + 1 ∧ complete es h fs = ⟨.cluster (m :: ms) :: gs, es, none⟩
  | [], h => .inl ⟨rfl, h :: es, rfl⟩
  | .cluster ms :: fs, h => .inr ⟨h, ms, fs, rfl, rfl⟩
  | .list _ :: fs, _ | .error :: fs, _ => complete_eq es fs _

theorem outline_complete (es : List Hint) (h : Hint) (fs : List Frame) :
    (complete es h fs).outline = ⟨openClusters fs, .element⟩ := by
  obtain ⟨hz, es', he⟩ | ⟨m, ms, gs, hc, he⟩ := complete_eq es fs h
  · rw [he, hz]
    rfl
  · rw [he, hc]
    rfl

theorem exists_closeError (fs : List Frame) (es : List Hint) : ∃ gs es', closeError ⟨fs, es, none⟩ = ⟨gs, es', none⟩ ∧
    outline ⟨fs, es, none⟩ = outline ⟨gs, es', none⟩ ∧ ∀ hs, gs ≠ .error :: hs := by
  match fs with
  | [] | .cluster _ :: _ | .list _ :: _ => exact ⟨_, es, rfl, rfl, nofun⟩
  | .error :: fs =>
    have ho : outline ⟨.error :: fs, es, none⟩ = (complete es (.error none) fs).outline :=
      (outline_complete es (.error none) fs).symm
    obtain ⟨-, es', he⟩ | ⟨m, ms, gs, -, he⟩ := complete_eq es fs (.error none)
    · exact ⟨[], es', he, he ▸ ho, nofun⟩
    · exact ⟨.cluster (m :: ms) :: gs, es, he, he ▸ ho, nofun⟩

theorem outline_closing (fs : List Frame) (es : List Hint) :
    (stepSettled ⟨fs, es, none⟩ .closing).map outline = (outline ⟨fs, es, none⟩).step .closing := by
  obtain ⟨gs, es', hc, ho, hne⟩ := exists_closeError fs es
  rw [stepSettled, hc, ho]
  obtain _ | ⟨⟨_ | ⟨m, ms⟩⟩ | ⟨_ | _⟩ | _, gs⟩ := gs
  case cons.cluster.cons => exact congrArg some (outline_complete es' _ gs)
  case cons.error => exact absurd rfl (hne gs)
  all_goals rfl

theorem outline_stepSettled {s : TagState} {t : Token} (hp : s.pending = none) (ht : ∀ cs, t ≠ .label cs) :
    (s.stepSettled t).map outline = s.outline.step t := by
  obtain ⟨fs, es, _⟩ := s
  cases hp
  cases t with
  | label cs => exact absurd rfl (ht cs)
  | underscore =>
    match fs with
    | [] | .cluster _ :: fs | .list _ :: fs | .error :: fs => exact congrArg some (outline_complete es _ _)
  | simple e => exact congrArg some (outline_complete es e fs)
  | digit n =>
    match fs with
    | [] | .cluster [] :: _ | .cluster (_ :: _) :: _ | .list none :: _ | .list (some _) :: _ | .error :: _ => rfl
  | closing => exact outline_closing fs es
  | quantity _ | star | error | opening | stray => rfl

theorem outline_settle (s : TagState) : s.settle.outline = s.outline.settle := by
  obtain ⟨fs, es, _ | q⟩ := s
  · match fs with
    | [] | .cluster [] :: _ | .cluster (_ :: _) :: _ | .list none :: _ | .list (some _) :: _ | .error :: _ => rfl
  · exact outline_complete es _ fs

/-- The outline tells which tokens may come next, and follows them. -/
theorem outline_step (s : TagState) (t : Token) : (s.step t).map outline = s.outline.step t := by
  by_cases hl : ∃ cs, t = .label cs
  · obtain ⟨cs, rfl⟩ := hl
    obtain ⟨fs, es, _ | q⟩ := s
    · match fs with
      | [] | .cluster [] :: _ | .cluster (_ :: _) :: _ | .list none :: _ | .list (some _) :: _ | .error :: _ => rfl
    · exact congrArg some (outline_complete es _ fs)
  · have ht : ∀ cs, t ≠ .label cs := fun cs hc => hl ⟨cs, hc⟩
    rw [step_eq ht, outline_stepSettled (pending_settle s) ht, outline_settle, Outline.step_settle ht]

theorem isSome_finish (s : TagState) : s.finish.isSome = s.outline.mayEnd := by
  rw [← Outline.mayEnd_settle, ← outline_settle, finish]
  have hp := pending_settle s
  generalize s.settle = s at hp
  obtain ⟨fs, es, _⟩ := s
  cases hp
  obtain ⟨gs, es', hc, ho, hne⟩ := exists_closeError fs es
  rw [hc, ho]
  obtain _ | ⟨⟨_ | ⟨m, ms⟩⟩ | ⟨_ | _⟩ | _, gs⟩ := gs
  case cons.error => exact absurd rfl (hne gs)
  all_goals rfl

theorem outline_steps : ∀ (s : TagState) (ts : List Token), (s.steps ts).map outline = s.outline.steps ts
  | s, [] => rfl
  | s, t :: ts => by
    rw [steps, Outline.steps, ← outline_step]
    cases s.step t with
    | none => rfl
    | some s' => exact outline_steps s' ts

end TagState

/-- Tokens lead from the beginning to an outline in which the tag may end. -/
def Outline.Accepts (ts : List Token) : Prop := ∃ o, steps {} ts = some o ∧ o.mayEnd = true

theorem exists_tagElements {ls : List Lexeme} :
    (∃ es, tagElements ls = .ok es) ↔ Outline.Accepts (ls.map Lexeme.token) := by
  have ho := TagState.outline_steps {} (ls.map Lexeme.token)
  constructor
  · rintro ⟨es, hes⟩
    obtain ⟨s, hs, hf⟩ := bind_eq_ok.1 hes
    rw [TagState.run_eq_ok.1 hs] at ho
    refine ⟨s.outline, ho.symm, ?_⟩
    rw [← TagState.isSome_finish]
    split at hf
    · rename_i hfin
      rw [hfin]
      rfl
    · cases hf
  · rintro ⟨o, hsteps, hend⟩
    obtain ⟨s, hs, rfl⟩ := Option.map_eq_some_iff.1 (ho.trans hsteps)
    rw [← TagState.isSome_finish] at hend
    obtain ⟨es, hes⟩ := Option.isSome_iff_exists.1 hend
    refine ⟨es, ?_⟩
    rw [tagElements, TagState.run_eq_ok.2 hs]
    simp only [bind, Except.bind, hes]

/-! ## Texts of the grammar are read -/

theorem scanned_hasText {t : Token} {tx : List Char} (ht : t.HasText tx) (hs : t ≠ .stray) (rest : List Char) :
    scanned (tx ++ rest) = t :: scanned rest := by
  cases t with
  | label cs =>
    obtain ⟨op, hop, hcs, rfl⟩ := ht
    exact scanned_label hop hcs rest
  | simple h =>
    obtain ⟨c, hm, hl, hne⟩ := ht
    obtain ⟨hsep, hb, hc | ⟨rfl, -⟩⟩ := ofChar_letter hl
    · rw [scanned_mark hm hsep hb, hc]
    · exact absurd rfl hne
  | quantity q =>
    obtain ⟨_, hm, rfl⟩ := ht
    cases q <;> exact scanned_mark hm rfl (by decide) rest
  | digit n =>
    obtain ⟨_, hm, hn, rfl⟩ := ht
    obtain ⟨hc, hsep, hb⟩ := ofChar_digitChar hn
    rw [scanned_mark hm hsep hb, hc]
  | stray => exact absurd rfl hs
  | _ =>
    obtain ⟨_, hm, rfl⟩ := ht
    exact scanned_mark hm rfl (by decide) rest

namespace Outline

/-- A text leads from one outline to another, whatever stands behind it. -/
def Reads (o : Outline) (cs : List Char) (o' : Outline) : Prop :=
  ∃ ts, (∀ rest, scanned (cs ++ rest) = ts ++ scanned rest) ∧ o.steps ts = some o'

variable {o o₁ o₂ : Outline} {t : Token} {cs ds tx : List Char}

theorem Reads.refl (o : Outline) : o.Reads [] o := ⟨[], fun _ => rfl, rfl⟩

theorem Reads.trans (h₁ : o.Reads cs o₁) (h₂ : o₁.Reads ds o₂) : o.Reads (cs ++ ds) o₂ := by
  obtain ⟨ts, hts, hst⟩ := h₁
  obtain ⟨us, hus, hst'⟩ := h₂
  refine ⟨ts ++ us, fun rest => ?_, by rw [steps_append, hst, Option.bind_some, hst']⟩
  rw [List.append_assoc, hts, hus, List.append_assoc]

theorem reads_token (ht : t.HasText tx) (h : o.step t = some o₁) : o.Reads tx o₁ := by
  have hs : t ≠ .stray := by
    rintro rfl
    cases h
  exact ⟨[t], scanned_hasText ht hs, by rw [steps, h]; rfl⟩

theorem reads_mark {c : Char} (hm : Mark c tx) (h : o.step (.ofChar c) = some o₁) : o.Reads tx o₁ :=
  reads_token (Token.hasText_of_isChar hm (Token.isChar_ofChar c)) h

theorem reads_unit {n : Nat} {u : UnitMark} {us : List Char} (hu : u.Derives us) :
    ∃ last : LastRead, last.complete = true ∧ Reads ⟨n, .quantity⟩ us ⟨n, last⟩ := by
  cases hu with
  | absent => exact ⟨.quantity, rfl, .refl _⟩
  | label hop hl => exact ⟨.element, rfl, reads_token (t := .label _) ⟨_, hop, hl, rfl⟩ rfl⟩

theorem reads_depth {n : Nat} (hd : DepthText ds) : ∃ last, Reads ⟨n, .star⟩ ds ⟨n, last⟩ := by
  cases hd with
  | absent => exact ⟨.star, .refl _⟩
  | digit hn hm => exact ⟨.begun, reads_token (t := .digit _) ⟨_, hm, hn, rfl⟩ rfl⟩

mutual

theorem reads_elementText {cs : List Char} (h : ElementText cs) (o : Outline) :
    ∃ last : LastRead, last.complete = true ∧ o.Reads cs ⟨o.clusters, last⟩ := by
  match h with
  | .letter hl hm =>
    refine ⟨.element, rfl, reads_mark hm ?_⟩
    cases hl <;> rfl
  | .quantity (q := q) hq hu =>
    have hr : o.Reads _ ⟨o.clusters, .quantity⟩ := reads_mark hq (by cases q <;> rfl)
    obtain ⟨last, hl, hru⟩ := reads_unit hu
    exact ⟨last, hl, hr.trans hru⟩
  | .cluster hop hes hfs hcl =>
    have hr : o.Reads _ ⟨o.clusters + 1, .begun⟩ := reads_mark hop rfl
    obtain ⟨last, hl, hes⟩ := reads_elementText hes ⟨o.clusters + 1, .begun⟩
    obtain ⟨last', hl', hfs⟩ := reads_elementsText hfs hl
    exact ⟨.element, rfl, (hr.trans (hes.trans hfs)).trans (reads_mark hcl (step_closing hl'))⟩
  | .list hst hds hes =>
    have hr : o.Reads _ ⟨o.clusters, .star⟩ := reads_mark hst rfl
    obtain ⟨last, hds⟩ := reads_depth hds
    obtain ⟨last', hl', hes⟩ := reads_elementText hes ⟨o.clusters, last⟩
    exact ⟨last', hl', (hr.trans hds).trans hes⟩
  | .error her hes =>
    have hr : o.Reads _ ⟨o.clusters, .element⟩ := reads_mark her rfl
    obtain ⟨last, hl, hes⟩ := reads_elementText hes ⟨o.clusters, .element⟩
    exact ⟨last, hl, hr.trans hes⟩
  | .bareError her => exact ⟨.element, rfl, reads_mark her rfl⟩

theorem reads_elementsText {cs : List Char} (h : ElementsText cs) {n : Nat} {last : LastRead}
    (hl : last.complete = true) : ∃ last' : LastRead, last'.complete = true ∧ Reads ⟨n, last⟩ cs ⟨n, last'⟩ := by
  match h with
  | .nil => exact ⟨last, hl, .refl _⟩
  | .cons hes hfs =>
    obtain ⟨last₁, hl₁, hes⟩ := reads_elementText hes ⟨n, last⟩
    obtain ⟨last₂, hl₂, hfs⟩ := reads_elementsText hfs hl₁
    exact ⟨last₂, hl₂, hes.trans hfs⟩

end

/-! ## What is read is a text of the grammar -/

/-- A text closes a number of parentheses and ends the tag. -/
def Closes : Nat → List Char → Prop
  | 0, cs => TagText cs
  | n + 1, cs => ∃ es cl rest, ElementsText es ∧ Mark ')' cl ∧ Closes n rest ∧ cs = es ++ cl ++ rest

theorem Closes.cons {es cs : List Char} (he : ElementText es) : ∀ {n : Nat}, Closes n cs → Closes n (es ++ cs)
  | 0, ⟨fs, bs, hfs, hbs, h⟩ => ⟨es ++ fs, bs, .cons he hfs, hbs, by rw [h, List.append_assoc]⟩
  | _ + 1, ⟨fs, cl, rest, hfs, hcl, hr, h⟩ =>
    ⟨es ++ fs, cl, rest, .cons he hfs, hcl, hr, by rw [h]; simp only [List.append_assoc]⟩

/-- A text makes a tag of what has been read. -/
inductive Completes : Outline → List Char → Prop where
  | element {n : Nat} {cs : List Char} : Closes n cs → Completes ⟨n, .element⟩ cs
  | quantity {n : Nat} {u : UnitMark} {us cs : List Char} : u.Derives us → Closes n cs →
    Completes ⟨n, .quantity⟩ (us ++ cs)
  | star {n : Nat} {ds es cs : List Char} : DepthText ds → ElementText es → Closes n cs →
    Completes ⟨n, .star⟩ (ds ++ es ++ cs)
  | begun {n : Nat} {es cs : List Char} : ElementText es → Closes n cs → Completes ⟨n, .begun⟩ (es ++ cs)

theorem completes_closes (h : o.last.complete = true) (hc : Closes o.clusters cs) : o.Completes cs := by
  obtain ⟨n, last⟩ := o
  cases last with
  | element => exact .element hc
  | quantity =>
    have hq : Completes ⟨n, .quantity⟩ ([] ++ cs) := .quantity .absent hc
    exact hq
  | star | begun => cases h

theorem completes_elementText {es : List Char} (he : ElementText es) (hc : Closes o.clusters cs) :
    o.Completes (es ++ cs) := by
  obtain ⟨n, last⟩ := o
  cases last with
  | element | quantity => exact completes_closes rfl (hc.cons he)
  | star =>
    have hs : Completes ⟨n, .star⟩ ([] ++ es ++ cs) := .star .absent he hc
    exact hs
  | begun => exact .begun he hc

/-- What completes the outline behind a token completes that before it with the text of the token. -/
theorem completes_step (ht : t.HasText tx) (h : o.step t = some o₁) (hc : o₁.Completes cs) : o.Completes (tx ++ cs) := by
  cases t with
  | underscore =>
    obtain ⟨_, hm, rfl⟩ := ht
    cases h
    cases hc with
    | element hc => exact completes_elementText (.letter .none hm) hc
  | simple e =>
    obtain ⟨_, hm, hl, -⟩ := ht
    cases h
    cases hc with
    | element hc => exact completes_elementText (.letter hl hm) hc
  | quantity q =>
    obtain ⟨_, hm, rfl⟩ := ht
    cases h
    cases hc with
    | quantity hu hc =>
      rw [← List.append_assoc]
      exact completes_elementText (.quantity hm hu) hc
  | label label =>
    obtain ⟨op, hop, hl, rfl⟩ := ht
    obtain ⟨n, last⟩ := o
    obtain ⟨rfl, rfl⟩ := of_step_label h
    cases hc with
    | element hc => exact .quantity (.label hop hl) hc
  | star =>
    obtain ⟨_, hm, rfl⟩ := ht
    cases h
    cases hc with
    | star hds hes hc =>
      rw [← List.append_assoc, ← List.append_assoc]
      exact completes_elementText (.list hm hds hes) hc
  | digit n =>
    obtain ⟨_, hm, hn, rfl⟩ := ht
    obtain ⟨k, last⟩ := o
    obtain ⟨rfl, rfl⟩ := of_step_digit h
    cases hc with
    | begun hes hc =>
      rw [← List.append_assoc]
      exact .star (.digit hn hm) hes hc
  | error =>
    obtain ⟨_, hm, rfl⟩ := ht
    cases h
    cases hc with
    | element hc => exact completes_elementText (.bareError hm) hc
  | opening =>
    obtain ⟨_, hm, rfl⟩ := ht
    cases h
    cases hc with
    | begun hes hc =>
      obtain ⟨fs, cl, rest, hfs, hcl, hr, rfl⟩ := hc
      have he := completes_elementText (.cluster hm hes hfs hcl) hr
      simpa only [List.append_assoc] using he
  | closing =>
    obtain ⟨_, hm, rfl⟩ := ht
    obtain ⟨hl, n, hn, rfl⟩ := of_step_closing h
    cases hc with
    | element hc =>
      refine completes_closes hl ?_
      rw [hn]
      exact ⟨[], tx, cs, .nil, hm, hc, rfl⟩
  | stray => cases h

/-- A text is read to the end of a tag only if it completes what has been read before. -/
theorem completes_of_steps : ∀ {ls : List Lexeme} {o o' : Outline} {cs : List Char}, Lexeme.scan none cs = ls →
    o.steps (ls.map Lexeme.token) = some o' → o'.mayEnd = true → o.Completes cs
  | [], o, o', cs, hsc, hs, hend => by
    cases hs
    obtain ⟨hl, hz⟩ := Bool.and_eq_true_iff.1 hend
    refine completes_closes hl ?_
    rw [of_decide_eq_true hz]
    exact ⟨[], cs, .nil, blanks_of_scan hsc, rfl⟩
  | l :: ls, o, o', cs, hsc, hs, hend => by
    obtain ⟨o₁, h₁, hs₁⟩ := Option.bind_eq_some_iff.1 hs
    obtain hst | ⟨tx, rest, rfl, ht, hls⟩ := scan_cons hsc
    · rw [hst] at h₁
      cases h₁
    · exact completes_step ht h₁ (completes_of_steps hls.symm hs₁ hend)

end Outline

theorem scanned_eq_nil {bs : List Char} (h : Blanks bs) : scanned bs = [] := by
  rw [← List.append_nil bs, scanned_blanks h]
  rfl

theorem tagText_iff_accepts {body : List Char} : TagText body ↔ Outline.Accepts (scanned body) := by
  constructor
  · rintro ⟨es, bs, hes, hbs, rfl⟩
    obtain ⟨last, hl, ts, hts, hs⟩ : ∃ last : LastRead, last.complete = true ∧ Outline.Reads {} es ⟨0, last⟩ :=
      Outline.reads_elementsText hes rfl
    refine ⟨⟨0, last⟩, ?_, by rw [Outline.mayEnd, hl]; rfl⟩
    rwa [hts, scanned_eq_nil hbs, List.append_nil]
  · rintro ⟨o, hs, hend⟩
    cases Outline.completes_of_steps rfl hs hend with
    | element hc => exact hc

theorem tagText_iff {body : List Char} : TagText body ↔ ∃ es, tagElements (Lexeme.ofBody body) = .ok es :=
  tagText_iff_accepts.trans exists_tagElements.symm

instance (body : List Char) : Decidable (TagText body) :=
  decidable_of_iff ((tagElements (Lexeme.ofBody body)).isOk = true) <| by
    rw [tagText_iff]
    cases tagElements (Lexeme.ofBody body) <;> simp [Except.isOk, Except.toBool]

example : TagText "(E* 0 v[m ]) *_".toList ∧ ¬ TagText "(E*0)".toList := by decide

end TagWire
