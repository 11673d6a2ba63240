import TagWire.Proofs.Tag.Constructs

/-!
# The reader and ordered choice agree

A tag is read as the rules of ordered choice have it. If it does not fit, the reader gives up at the furthest place
where one of the rules was tried, and expects there what was tried there.
-/

namespace TagWire

open Peg

/-! ## The elements of a tag -/

/-- The rules have read some elements of a tag, and none begins behind them. -/
structure TagRead (body : List Char) (ts : List RuleTree) (hs : List Hint) (p : List Char) (fs : List Attempt)
    (s : TagState) : Prop where
  blank : skip p = p
  suffix : p <:+ body
  reads : TagState.readRest {} body = s.readRest p
  pushes : s.settle.closeError = ⟨[], hs.reverse, none⟩
  areElements : ∀ t ∈ ts, t.rule ∈ Rule.elements
  along : Along s p fs
  stops : ¬ Starts p
  tried : ∀ r ∈ Rule.elements, (r, p) ∈ fs
  zero : Follows p → SameZero (RuleTree.buildAll ts) hs body p

/-- What becomes of the elements of a tag. -/
inductive TagOutcome (body : List Char) : Prop where
  | stuck {ts : List RuleTree} {ds p : List Char} {fs : List Attempt} :
    Runs false (many element) (skip body) (some (ts, ds)) fs → Stuck {} body fs p → Ahead p ds → TagOutcome body
  | read {ts : List RuleTree} {hs : List Hint} {ds : List Char} {fs : List Attempt} {s : TagState} :
    Runs false (many element) (skip body) (some (ts, ds)) fs → TagRead body ts hs (skip ds) fs s → TagOutcome body

section

variable {body ds p : List Char} {ts : List RuleTree} {hs : List Hint} {fs : List Attempt} {s : TagState}

theorem readRest_body (body : List Char) : TagState.readRest {} body = TagState.readRest {} (skip body) :=
  (TagState.readRest_skip _ _).symm

theorem tagRead_nil (hstarts : ¬ Starts (skip body)) :
    TagRead body [] [] (skip body) (Rule.elements.map (·, skip body)) {} where
  blank := skip_skip body
  suffix := skip_suffix body
  reads := readRest_body body
  pushes := rfl
  areElements := fun _ h => by cases h
  along := (along_nil rfl body).elements
  stops := hstarts
  tried := fun r hr => List.mem_map.2 ⟨r, hr, rfl⟩
  zero := fun _ => (SameZero.nil body).congr rfl (by rw [scan_skip])

theorem ElementsRead.tagRead (h : ElementsRead {} (skip body) ts hs p fs s) : TagRead body ts hs p fs s where
  blank := h.blank
  suffix := h.suffix.trans (skip_suffix body)
  reads := (readRest_body body).trans h.reads
  pushes := by
    rw [h.pushes]
    exact (TagState.pushAll_nil hs []).trans (by rw [List.append_nil])
  areElements := h.areElements
  along := h.along
  stops := h.stops
  tried := h.tried
  zero := fun hf => (h.zero hf).congr (by rw [scan_skip]) rfl

theorem tag_cases (body : List Char) : TagOutcome body := by
  have hall : ElementsBelow ((skip body).length + 1) := fun _ _ _ h => element_cases h
  by_cases hstarts : Starts (skip body)
  · cases elements_cases hall (Nat.lt_succ_self _) hstarts (s := {}) trivial with
    | stuck hrun hst hres =>
      obtain ⟨ts, ds, hmany, hout⟩ := many_of_seq hrun
      refine .stuck hmany (hst.adds (readRest_body body) (skip_suffix body) (.refl _ _)) ?_
      obtain ⟨-, rfl⟩ | ⟨ds', rfl, he⟩ := hout
      · exact ahead_of_stuck hstarts hst (skip_skip body)
      · exact (hres _ _ rfl).congr he
    | read hrun hread =>
      obtain ⟨_, es, hmany, ⟨hout, -⟩ | ⟨_, hout, he⟩⟩ := many_of_seq hrun
      · cases hout
      · cases hout
        rw [← he] at hread
        exact .read hmany hread.tagRead
  · refine @TagOutcome.read _ _ [] _ _ {} (.manyStops (runs_absent hstarts)) ?_
    rw [skip_skip]
    exact tagRead_nil hstarts

/-! ## The end of a tag -/

theorem runs_tag (h : Runs false (many element) (skip body) (some (ts, ds)) fs) (hds : skip ds = []) :
    ∃ text, Runs false (call .tag) body (some ([.node .tag text (ts ++ [.node .endOfTag [] []])], [])) fs := by
  have hend : Runs false (call .endOfTag) (gap false ds) (some ([.node .endOfTag [] []], [])) [] := by
    rw [gap_false, hds]
    exact runs_call (r := .endOfTag) rfl .atEnd
  have hc : Runs false (call .tag) body _ _ := runs_call rfl (.seq .empty (.seq h hend))
  rw [List.append_nil] at hc
  exact ⟨_, hc⟩

theorem runs_tag_fails (h : Runs false (many element) (skip body) (some (ts, ds)) fs) (hds : skip ds ≠ []) :
    Runs false (call .tag) body none (fs ++ [(.endOfTag, skip ds), (.tag, body)]) := by
  have hend : Runs false (call .endOfTag) (gap false ds) none [(.endOfTag, skip ds)] := by
    obtain ⟨c, cs, hcs⟩ := List.exists_cons_of_ne_nil hds
    rw [gap_false, hcs]
    have hb : Runs false (Rule.body .endOfTag) (c :: cs) none [] := .atEndFails
    exact runs_call_none rfl hb
  have hb : Runs false (Rule.body .tag) body none _ := .seqFails .empty (.seqFails h hend)
  simpa using runs_call_none rfl hb

/-- The rules succeed with the elements that the reader has read. -/
def Accepted (body : List Char) : Prop := ∃ text ts hs fs,
  Runs false (call .tag) body (some ([.node .tag text (ts ++ [.node .endOfTag [] []])], [])) fs ∧
    (∀ t ∈ ts, t.rule ∈ Rule.elements) ∧ tagElements (Lexeme.ofBody body) = .ok hs ∧
    SameZero (RuleTree.buildAll ts) hs body []

/-- The rules fail. The furthest place where one of them was tried is the one where the reader is stuck, and the rules
that were tried there are those that it expects. -/
def Rejected (body : List Char) : Prop := ∃ fs s p, Runs false (call .tag) body none fs ∧
  tagElements (Lexeme.ofBody body) = .error (s, p) ∧ p <:+ body ∧ (∀ a ∈ fs, p <:+ a.2) ∧
    ∀ r, (r, p) ∈ fs ↔ s.expected.has r = true ∨ r = .tag ∧ p = body

theorem rejected_of_stuck (hrun : Runs false (many element) (skip body) (some (ts, ds)) fs) (hst : Stuck {} body fs p)
    (ha : Ahead p ds) : Rejected body := by
  obtain ⟨s, hst⟩ := hst
  have hds : skip ds ≠ [] := List.ne_nil_of_length_pos (Nat.zero_lt_of_lt ha.shorter)
  refine ⟨_, s, p, runs_tag_fails hrun hds, hst.reads, hst.suffix, fun a hm => ?_, fun r => ?_⟩
  · simp only [List.mem_append, List.mem_cons, List.not_mem_nil, or_false] at hm
    obtain hm | rfl | rfl := hm
    · exact hst.places a hm
    · exact ha.suffix
    · exact hst.suffix
  · -- neither the end of the tag nor the tag itself is tried as far on as that
    have hend : p ≠ skip ds := fun he => absurd ha.shorter (by rw [he]; exact Nat.lt_irrefl _)
    have hbody : p ≠ body := fun he => absurd hst.shorter (by rw [he]; exact Nat.lt_irrefl _)
    simp [hst.tried, hst.unfinished, hend, hbody, TagState.has_expected]

theorem rejected_of_read (hrun : Runs false (many element) (skip body) (some (ts, ds)) fs)
    (hread : TagRead body ts hs (skip ds) fs s) (hds : skip ds ≠ []) : Rejected body := by
  have hb : s.Between := by
    rw [TagState.Between, hread.pushes]
    trivial
  have hf : s.finish = some hs := by
    rw [TagState.finish, hread.pushes]
    simp
  have hclosing : s.step .closing = none := by
    rw [TagState.step_eq (t := .closing) (fun _ h => by cases h), TagState.stepSettled, hread.pushes]
  have hstuck : s.readRest (skip ds) = .error (s, skip ds) :=
    readRest_stuck_between hb hread.blank hread.stops (fun hp => absurd hp hds) (fun _ _ => hclosing) hread.along
  refine ⟨_, s, skip ds, runs_tag_fails hrun hds, hread.reads.trans hstuck, hread.suffix, fun a hm => ?_, fun r => ?_⟩
  · simp only [List.mem_append, List.mem_cons, List.not_mem_nil, or_false] at hm
    obtain hm | rfl | rfl := hm
    · exact hread.blank ▸ hread.along.places a hm
    · exact List.suffix_rfl
    · exact hread.suffix
  · have htried := tried_between hb hread.blank hread.along hread.tried r
    simp [htried, hf, TagState.has_expected, or_assoc]

theorem accepted_of_read (hrun : Runs false (many element) (skip body) (some (ts, ds)) fs)
    (hread : TagRead body ts hs (skip ds) fs s) (hds : skip ds = []) : Accepted body := by
  obtain ⟨text, htag⟩ := runs_tag hrun hds
  rw [hds] at hread
  refine ⟨text, ts, hs, fs, htag, hread.areElements, hread.reads.trans ?_, hread.zero (.inl rfl)⟩
  simp only [TagState.readRest, Lexeme.scan, TagState.run, bind, Except.bind, TagState.finish, hread.pushes,
    List.reverse_reverse]

theorem accepted_or_rejected (body : List Char) : Accepted body ∨ Rejected body := by
  cases tag_cases body with
  | stuck hrun hst hahead => exact .inr (rejected_of_stuck hrun hst hahead)
  | @read ts hs ds fs s hrun hread =>
    by_cases hds : skip ds = []
    · exact .inl (accepted_of_read hrun hread hds)
    · exact .inr (rejected_of_read hrun hread hds)

end

/-! ## Tags -/

theorem report_of_accepted {tag : String} (h : Accepted (tagBody tag.toList)) : ∃ out fs,
    Runs false (call .tag) (tagBody tag.toList) out fs ∧ Hint.parse tag = report tag out fs := by
  obtain ⟨text, ts, hs, fs, hrun, hel, hread, hzero⟩ := h
  have hfilter : (ts ++ [RuleTree.node .endOfTag [] []]).filter (fun t => t.rule ≠ .endOfTag) = ts := by
    have hne : ∀ r ∈ Rule.elements, decide (r ≠ .endOfTag) = true := by decide
    rw [List.filter_append, List.filter_eq_self.2 fun t ht => hne _ (hel t ht)]
    exact List.append_nil ts
  have hnil : depthZeroList? (Lexeme.scan none []) = none := rfl
  refine ⟨_, fs, hrun, ?_⟩
  simp only [Hint.parse, Lexeme.ofBody] at hread ⊢
  obtain ⟨hb, hz⟩ | ⟨text, hb, hz⟩ := hzero <;> simp only [hread, report, hfilter, hb, hz, hnil]

theorem faultAt_of_rejected {body p : List Char} {fs : List Attempt} {s : TagState} (hsuf : p <:+ body)
    (htried : ∀ r, (r, p) ∈ fs ↔ s.expected.has r = true ∨ r = .tag ∧ p = body) :
    faultAt fs p = if p.length = body.length then .noElement else .unexpected s.expected := by
  have htag : (.tag, p) ∈ fs ↔ p.length = body.length := by
    rw [htried]
    simpa [Expected.has] using ⟨fun he => by rw [he], hsuf.eq_of_length⟩
  simp [faultAt, htag, htried, Expected.has]

theorem furthest_of_rejected {body p : List Char} {fs : List Attempt} {s : TagState} (hsuf : p <:+ body)
    (hplaces : ∀ a ∈ fs, p <:+ a.2) (htried : ∀ r, (r, p) ∈ fs ↔ s.expected.has r = true ∨ r = .tag ∧ p = body) :
    furthest body fs = p :=
  furthest_eq hsuf hplaces ⟨(.int, p), (htried .int).2 (.inl rfl), rfl⟩

/-- A tag is read as ordered choice has it, with the furthest attempt as its fault. -/
theorem parse_eq_report {tag : String} {out : Option (List RuleTree × List Char)} {fs : List Attempt}
    (h : Runs false (call .tag) (tagBody tag.toList) out fs) : Hint.parse tag = report tag out fs := by
  obtain hacc | ⟨fs', s, p, hrun, hread, hsuf, hplaces, htried⟩ := accepted_or_rejected (tagBody tag.toList)
  · obtain ⟨out', fs', hrun, hp⟩ := report_of_accepted hacc
    obtain ⟨rfl, rfl⟩ := h.unique hrun
    exact hp
  · obtain ⟨rfl, rfl⟩ := h.unique hrun
    rw [report_none, furthest_of_rejected hsuf hplaces htried, faultAt_of_rejected hsuf htried]
    simp only [Hint.parse, hread]

/-- Ordered choice comes to an end on every tag. -/
theorem exists_runs_tag (tag : String) : ∃ out fs, Runs false (call .tag) (tagBody tag.toList) out fs := by
  obtain ⟨_, _, _, fs, hrun, -⟩ | ⟨fs, _, _, hrun, -⟩ := accepted_or_rejected (tagBody tag.toList)
  · exact ⟨_, fs, hrun⟩
  · exact ⟨_, fs, hrun⟩

/-- The message names the rules that were tried at the furthest place. -/
theorem names_of_runs {tag : String} {fs : List Attempt} {e : TagError} {x : Expected}
    (h : Runs false (call .tag) (tagBody tag.toList) none fs) (hp : Hint.parse tag = .error e)
    (he : e.fault = .unexpected x) :
    x.names ++ ["error"] = (Rule.all.filter fun r => (r, e.fragment.toList) ∈ fs).map Rule.name := by
  rw [parse_eq_report h, report_none] at hp
  cases hp
  obtain ⟨_, _, _, _, hrun, -⟩ | ⟨_, s, p, hrun, -, hsuf, hplaces, htried⟩ := accepted_or_rejected (tagBody tag.toList)
  · cases (h.unique hrun).1
  · obtain ⟨-, rfl⟩ := h.unique hrun
    rw [furthest_of_rejected hsuf hplaces htried, faultAt_of_rejected hsuf htried] at he
    rw [furthest_of_rejected hsuf hplaces htried, String.toList_ofList, Expected.names_eq]
    split at he
    · cases he
    · rename_i hl
      cases he
      have hbody : p ≠ tagBody tag.toList := fun he => hl (by rw [he])
      refine congrArg _ (List.filter_congr fun r _ => ?_)
      simp [htried, hbody]

end TagWire
