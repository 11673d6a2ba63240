import TagWire.Proofs.Tag.Recognition

/-!
# Where a tag goes wrong

The fault of a tag that is no text of the grammar begins at the first character that no tag has there. What stands
before it can be completed to a tag, whatever has been begun there. The bracket of a label that is never closed is the
exception: it is at fault although it makes a tag if something closes it.
-/

namespace TagWire

/-- The last character that is not blank is a `v` or `c`. -/
def AfterQuantity (cs : List Char) : Prop := ∃ (q : Quantity) (ds bs : List Char), Blanks bs ∧ cs = ds ++ q.mark :: bs

/-! ## The first token of a text -/

theorem here_scan_label : ∀ {cs : List Char} {o : Lexeme.OpenLabel} {l : Lexeme} {ls : List Lexeme},
    Lexeme.scan (some o) cs = l :: ls → l.here = o.here
  | [], _, _, _, h => by
    rw [Lexeme.scan] at h
    cases h
    rfl
  | c :: cs, o, l, ls, h => by
    rw [Lexeme.scan] at h
    split at h
    · cases h
      rfl
    · exact here_scan_label (o := ⟨o.here, c :: o.chars⟩) h

theorem exists_here : ∀ {cs : List Char} {l : Lexeme} {ls : List Lexeme}, Lexeme.scan none cs = l :: ls →
    ∃ bs c rest, Blanks bs ∧ cs = bs ++ c :: rest ∧ l.here = c :: rest ∧ Text.isSeparator c = false ∧
      Lexeme.scan none (c :: rest) = l :: ls
  | [], _, _, h => by cases h
  | c :: cs, l, ls, h => by
    by_cases hc : Text.isSeparator c = true
    · rw [Lexeme.scan, if_pos hc] at h
      obtain ⟨bs, c', rest, hbs, rfl, hrest⟩ := exists_here h
      exact ⟨c :: bs, c', rest, List.forall_mem_cons.2 ⟨hc, hbs⟩, rfl, hrest⟩
    · refine ⟨[], c, cs, fun _ hm => (by cases hm), rfl, ?_, by simpa using hc, h⟩
      rw [Lexeme.scan, if_neg hc] at h
      split at h
      · exact here_scan_label h
      · cases h
        rfl

theorem scanned_bracket (cs : List Char) :
    ∃ t ts, scanned ('[' :: cs) = t :: ts ∧ (t = .stray ∨ ∃ label, t = .label label) := by
  have hs : scanned ('[' :: cs) = (Lexeme.scan (some ⟨'[' :: cs, []⟩) cs).map Lexeme.token := rfl
  obtain ⟨l, ls, hl⟩ := List.exists_cons_of_ne_nil (scan_label_ne_nil cs ⟨'[' :: cs, []⟩)
  refine ⟨l.token, ls.map Lexeme.token, by rw [hs, hl]; rfl, (scan_label_cons _ [] List.not_mem_nil hl).imp_right ?_⟩
  rintro ⟨label, -, -, -, ht, -⟩
  exact ⟨_, ht⟩

namespace Outline

variable {o o₁ : Outline} {t : Token} {pre tx : List Char}

/-- Nothing that begins as a text does can come next, unless the text begins with a bracket behind a value. -/
def Stuck (o : Outline) (rest : List Char) : Prop :=
  ∀ c cs, rest = c :: cs → (c = '[' → o.last ≠ .quantity) → ∀ ext, o.steps (scanned (c :: ext)) = none

/-- If the first token of a text cannot come next, then no other with its first character can. -/
theorem stuck_of_step {c : Char} {cs : List Char} {l : Lexeme} {ls : List Lexeme}
    (hsc : Lexeme.scan none (c :: cs) = l :: ls) (hc : Text.isSeparator c = false) (hl : o.step l.token = none) :
    o.Stuck (c :: cs) := by
  intro _ _ he hq ext
  cases he
  by_cases hb : c = '['
  · subst hb
    obtain ⟨t, ts, hs, ht⟩ := scanned_bracket ext
    rw [hs, steps]
    obtain rfl | ⟨label, rfl⟩ := ht
    · rfl
    · rw [step, if_neg (hq rfl)]
      rfl
  · have ht : scanned (c :: cs) = l.token :: ls.map Lexeme.token := by rw [scanned, hsc]; rfl
    rw [scanned_cons hc hb, List.cons.injEq] at ht
    rw [scanned_cons hc hb, steps, ht.1, hl]
    rfl

/-! ## What has been read -/

/-- A text leads from the beginning to an outline. A value is last in the outline only if it is last in the text. -/
structure Reached (o : Outline) (pre : List Char) : Prop where
  reads : Reads {} pre o
  quantity : o.last = .quantity → AfterQuantity pre

theorem reached_nil : Reached {} [] := ⟨.refl _, nofun⟩

theorem exists_quantity (h : o.step t = some o₁) (hq : o₁.last = .quantity) : ∃ q, t = .quantity q := by
  cases t with
  | quantity q => exact ⟨q, rfl⟩
  | closing =>
    obtain ⟨-, n, -, rfl⟩ := of_step_closing h
    cases hq
  | label _ =>
    obtain ⟨-, rfl⟩ := of_step_label h
    cases hq
  | digit _ =>
    obtain ⟨-, rfl⟩ := of_step_digit h
    cases hq
  | stray => cases h
  | _ =>
    cases h
    cases hq

theorem Reached.token (h : o.Reached pre) (ht : t.HasText tx) (hs : o.step t = some o₁) : o₁.Reached (pre ++ tx) where
  reads := h.reads.trans (reads_token ht hs)
  quantity hq := by
    obtain ⟨q, rfl⟩ := exists_quantity hs hq
    obtain ⟨_, ⟨bs, hbs, rfl⟩, rfl⟩ := ht
    exact ⟨q, pre ++ bs, [], fun _ hm => (by cases hm), by rw [List.append_assoc]⟩

theorem Reached.blanks {bs : List Char} (h : o.Reached pre) (hbs : Blanks bs) : o.Reached (pre ++ bs) where
  reads := h.reads.trans ⟨[], scanned_blanks hbs, rfl⟩
  quantity hq := by
    obtain ⟨q, ds, cs, hcs, rfl⟩ := h.quantity hq
    exact ⟨q, ds, cs ++ bs, fun c hc => (List.mem_append.1 hc).elim (hcs c) (hbs c), by simp⟩

/-- One more element and the parentheses that are open. -/
def completion (o : Outline) : List Char := 'i' :: List.replicate o.clusters ')'

theorem colon_not_mem_completion (o : Outline) : ':' ∉ o.completion := by
  simp [completion]

theorem reads_closings : ∀ n : Nat, Reads ⟨n, .element⟩ (List.replicate n ')') {}
  | 0 => .refl _
  | n + 1 => .trans (reads_mark (mark_self ')') rfl) (reads_closings n)

theorem Reached.tagText_completion (h : o.Reached pre) : TagText (pre ++ o.completion) := by
  have hi : o.Reads ['i'] ⟨o.clusters, .element⟩ := reads_mark (mark_self 'i') rfl
  obtain ⟨ts, hts, hs⟩ := h.reads.trans (hi.trans (reads_closings o.clusters))
  refine tagText_iff_accepts.2 ⟨{}, ?_, rfl⟩
  have hsc := hts []
  rw [List.append_nil] at hsc
  rw [completion, ← List.singleton_append, hsc]
  rwa [show scanned [] = [] from rfl, List.append_nil]

theorem Reached.not_tagText (h : o.Reached pre) {cs : List Char} (hn : o.steps (scanned cs) = none) :
    ¬ TagText (pre ++ cs) := by
  obtain ⟨ts, hts, hs⟩ := h.reads
  rw [tagText_iff_accepts, hts]
  rintro ⟨o', ho, -⟩
  rw [steps_append, hs, Option.bind_some, hn] at ho
  cases ho

end Outline

/-! ## The reader -/

theorem run_reached : ∀ {ls : List Lexeme} {s : TagState} {pre cs : List Char}, s.outline.Reached pre →
    Lexeme.scan none cs = ls → ∃ s' mid rest, cs = mid ++ rest ∧ s'.outline.Reached (pre ++ mid) ∧
      s'.outline.Stuck rest ∧ (s.run ls = .ok s' ∧ rest = [] ∨ s.run ls = .error (s', rest))
  | [], s, pre, cs, hr, hsc =>
    ⟨s, cs, [], by rw [List.append_nil], hr.blanks (blanks_of_scan hsc), nofun, .inl ⟨rfl, rfl⟩⟩
  | l :: ls, s, pre, cs, hr, hsc => by
    have ho := TagState.outline_step s l.token
    cases hs : s.step l.token with
    | none =>
      rw [hs] at ho
      obtain ⟨bs, c, rest, hbs, rfl, hhere, hc, hrest⟩ := exists_here hsc
      refine ⟨s, bs, c :: rest, rfl, hr.blanks hbs, Outline.stuck_of_step hrest hc ho.symm, .inr ?_⟩
      rw [TagState.run, hs, hhere]
    | some s₁ =>
      rw [hs] at ho
      obtain hst | ⟨tx, rest, rfl, ht, hls⟩ := scan_cons hsc
      · rw [hst] at hs
        cases hs
      · obtain ⟨s', mid, rest', rfl, hr', hrun⟩ := run_reached (hr.token ht ho.symm) hls.symm
        refine ⟨s', tx ++ mid, rest', by rw [List.append_assoc], by rwa [← List.append_assoc], ?_⟩
        rwa [TagState.run, hs]

/-- A text that is no tag is read up to a place where nothing of the rest can come next. -/
theorem exists_fault {body : List Char} (h : ¬ TagText body) : ∃ s pre rest,
    tagElements (Lexeme.ofBody body) = .error (s, rest) ∧ body = pre ++ rest ∧ s.outline.Reached pre ∧
      s.outline.Stuck rest := by
  have h₀ : (TagState.outline {}).Reached [] := Outline.reached_nil
  have hsc : Lexeme.scan none body = Lexeme.ofBody body := rfl
  obtain ⟨s, pre, rest, hbody, hr, hst, hrun⟩ := run_reached h₀ hsc
  refine ⟨s, pre, rest, ?_, hbody, hr, hst⟩
  obtain ⟨hs, rfl⟩ | hs := hrun
  · cases hf : s.finish with
    | none => simp only [tagElements, hs, bind, Except.bind, hf]
    | some es => exact absurd (tagText_iff.2 ⟨es, by simp only [tagElements, hs, bind, Except.bind, hf]⟩) h
  · simp only [tagElements, hs, bind, Except.bind]

/-- The fault of a tag that is no text of the grammar is what is left of its body from some place on. What stands before
that place can be completed to a tag. With the next character it cannot, unless that is a bracket behind a `v` or
`c`. -/
theorem parse_fault_position {tag : String} (h : ¬ TagText (tagBody tag.toList)) : ∃ e pre,
    Hint.parse tag = .error e ∧ Ty.parse tag = .error e ∧ tagBody tag.toList = pre ++ e.fragment.toList ∧
      (∃ ext, ':' ∉ ext ∧ TagText (pre ++ ext)) ∧
      ∀ c rest, e.fragment.toList = c :: rest → ¬ (c = '[' ∧ AfterQuantity pre) → ∀ ext, ¬ TagText (pre ++ c :: ext) := by
  obtain ⟨s, pre, rest, hel, hbody, hr, hst⟩ := exists_fault h
  have hp : ∃ fault, Hint.parse tag = .error ⟨tag, String.ofList rest, fault⟩ := by
    simp only [Hint.parse, hel]
    exact ⟨_, rfl⟩
  obtain ⟨fault, hp⟩ := hp
  refine ⟨_, pre, hp, by rw [Ty.parse, hp]; rfl, by rw [hbody, String.toList_ofList], ?_, ?_⟩
  · exact ⟨_, s.outline.colon_not_mem_completion, hr.tagText_completion⟩
  · intro c cs hc hq ext
    rw [String.toList_ofList] at hc
    exact hr.not_tagText (hst c cs hc (fun hb hl => hq ⟨hb, hr.quantity hl⟩) ext)

/-- In an open cluster behind a list of no dimensions, whose error still waits for a payload. -/
theorem parse_fault_position_bracket :
    let tag := "(i *0E ]v: i"
    ¬ TagText (tagBody tag.toList) ∧ ∃ e, Hint.parse tag = .error e ∧ Ty.parse tag = .error e ∧ e.fragment = "]v" ∧
      (∃ ext, ':' ∉ ext ∧ TagText ("(i *0E ".toList ++ ext)) ∧ ∀ ext, ¬ TagText ("(i *0E ".toList ++ ']' :: ext) := by
  intro tag
  have h : ¬ TagText (tagBody tag.toList) := by decide
  obtain ⟨e, pre, hp, ht, hbody, hext, hno⟩ := parse_fault_position h
  have hf : e.fragment = "]v" := by
    have he : Hint.parse tag = .error ⟨tag, "]v", .unexpected ⟨false, false, false, false⟩⟩ := by decide
    rw [he] at hp
    cases hp
    rfl
  rw [hf] at hbody hno
  have hb : tagBody tag.toList = "(i *0E ".toList ++ "]v".toList := by decide
  obtain rfl : pre = "(i *0E ".toList := List.append_cancel_right (hbody.symm.trans hb)
  exact ⟨h, e, hp, ht, hf, hext, hno ']' ['v'] rfl (fun hb => absurd hb.1 (by decide))⟩

/-- A bracket behind a `v` is at fault if nothing closes it, and makes a tag if something does. -/
example : ¬ TagText "v [m".toList ∧ TagText ("v ".toList ++ '[' :: "m]".toList) ∧
    (Hint.parse "v [m").mapError TagError.fragment = .error "[m" := by decide

end TagWire
