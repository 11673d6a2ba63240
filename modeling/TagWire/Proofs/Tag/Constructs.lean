import TagWire.Proofs.Tag.Elements

/-!
# Clusters, errors and lists by ordered choice

The elements that have elements as their parts, provided that all shorter ones are as they should be, and from this any
element by induction on the length of the text.
-/

namespace TagWire

open Peg

section

variable {n : Nat} {s s' : TagState} {ds rest : List Char} {t : RuleTree} {h : Hint} {fs : List Attempt}

/-! ## Clusters -/

/-- The reader behind an opening parenthesis. -/
def opened (s : TagState) : TagState := s.settle.begin (.cluster [])

theorem settle_opened (s : TagState) : (opened s).settle = opened s := TagState.settle_begin_settle s _

theorem readRest_opened (s : TagState) (rest : List Char) :
    s.readRest ('(' :: rest) = (opened s).readRest (skip rest) :=
  TagState.readRest_char rfl (by decide) rfl rfl

theorem closeError_opened {hs : List Hint} (h : s'.settle.closeError = (opened s).settle.pushAll hs) :
    s'.settle.closeError = ⟨.cluster hs.reverse :: s.settle.frames, s.settle.elements, none⟩ := by
  rw [h, settle_opened, opened, TagState.begin, TagState.pending_settle, TagState.pushAll_cluster, List.append_nil]

theorem cluster_closed {ts : List RuleTree} {hs : List Hint} {es : List Char}
    (hrun : Runs false (seq element (many element)) (skip rest) (some (ts, ds)) fs)
    (hread : ElementsRead (opened s) (skip rest) ts hs (skip ds) fs s') (hp : skip ds = ')' :: es) :
    Outcome (call .cluster) s ('(' :: rest) := by
  have hscan : Lexeme.scan none ('(' :: rest) = ⟨.opening, '(' :: rest, rest⟩ :: Lexeme.scan none rest := rfl
  have hscan' : Lexeme.scan none (')' :: es) = ⟨.closing, ')' :: es, es⟩ :: Lexeme.scan none es := rfl
  have hstep := TagState.step_closing (List.reverse_ne_nil_iff.2 hread.nonempty) (closeError_opened hread.pushes)
  rw [List.reverse_reverse] at hstep
  have hreads : s'.readRest (skip ds) = (s.settle.push (.cluster hs)).readRest es := by
    rw [hp]
    exact TagState.readRest_lexeme hscan' hstep
  have hinside := hread.inside
  rw [hp, scan_skip, hscan'] at hinside
  have hplaces : ∀ a ∈ fs, ')' :: es <:+ a.2 := fun a ha => by
    have h := hread.along.places a ha
    rwa [hread.blank, hp] at h
  have hsuf : es <:+ skip rest := (List.suffix_cons ')' es).trans (hp ▸ hread.suffix)
  exact .read (runs_call rfl (runs_char_seq '(' (runs_seq_char hrun hp))) {
    isElement := (by decide : Rule.cluster ∈ Rule.elements)
    suffix := hsuf.trans (skip_suffix_cons _ _)
    shorter := Nat.lt_of_le_of_lt hsuf.length_le (length_skip_lt _ _)
    reads := (readRest_opened s rest).trans (hread.reads.trans hreads)
    hasRead := TagState.hasRead_push _ _
    along := (along_nil (TagState.pending_push _ _) es).adds
      ⟨List.nil_subset _, fun a ha => .inr (hplaces a ha)⟩ (List.suffix_cons ')' es) (Nat.lt_succ_self _)
    bare := nofun
    ends := fun _ => by rw [hscan]; exact hinside 0
    inside := fun k => by rw [hscan]; exact hinside (k + 1)
    zero := fun _ => by
      have hz := (hread.zero (hp ▸ .inr (.inl ⟨es, rfl⟩))).map Hint.cluster
      exact hz.congr (by rw [hscan, scan_skip]; rfl) (by rw [hp]; rfl) }

theorem cluster_open {ts : List RuleTree} {hs : List Hint}
    (hrun : Runs false (seq element (many element)) (skip rest) (some (ts, ds)) fs)
    (hread : ElementsRead (opened s) (skip rest) ts hs (skip ds) fs s') (hp : ∀ es, skip ds ≠ ')' :: es) :
    Outcome (call .cluster) s ('(' :: rest) := by
  have hclose := closeError_opened hread.pushes
  have hb : s'.Between := by
    rw [TagState.Between, hclose]
    trivial
  have hf : s'.finish = none := by rw [TagState.finish, hclose]
  have hst : StuckAt (opened s) (skip rest) fs s' (skip ds) := {
    reads := hread.reads.trans <|
      readRest_stuck_between hb hread.blank hread.stops (fun _ => hf) (fun es he => absurd he (hp es)) hread.along
    suffix := hread.suffix
    shorter := hread.shorter
    places := fun a ha => hread.blank ▸ hread.along.places a ha
    tried := tried_between hb hread.blank hread.along hread.tried
    unfinished := hf }
  have hbody := runs_char_seq '(' (runs_seq_char_fails hrun fun ts' ds' he => (by cases he; exact hp))
  have hall := Stuck.adds ⟨s', hst⟩ (readRest_opened s rest) (skip_suffix_cons _ _) (.refl _ _)
  exact .failed_call rfl hbody hall

theorem cluster_empty (hstarts : ¬ Starts (skip rest)) : Outcome (call .cluster) s ('(' :: rest) := by
  have hb : (opened s).Between := by
    rw [TagState.Between, settle_opened]
    trivial
  have hf : (opened s).finish = none := by
    rw [TagState.finish, settle_opened]
    rfl
  have hclosing : (opened s).step .closing = none := by
    rw [TagState.step_eq (t := .closing) (fun _ h => by cases h), settle_opened]
    rfl
  have hpending : (opened s).pending = none := TagState.pending_settle s
  have hal : Along (opened s) (skip rest) (Rule.elements.map (·, skip rest)) := (along_nil hpending rest).elements
  have hst : Stuck s ('(' :: rest) (Rule.elements.map (·, skip rest)) (skip rest) := ⟨opened s, {
    reads := (readRest_opened s rest).trans <|
      readRest_stuck_between hb (skip_skip rest) hstarts (fun _ => hf) (fun _ _ => hclosing) hal
    suffix := skip_suffix_cons _ _
    shorter := length_skip_lt _ _
    places := fun a ha => skip_skip rest ▸ hal.places a ha
    tried := tried_between hb (skip_skip rest) hal fun r hr => List.mem_map.2 ⟨r, hr, rfl⟩
    unfinished := hf }⟩
  have hbody : Runs false (seq (seq element (many element)) (char ')')) (skip rest) none _ :=
    .seqFailsLeft (.seqFailsLeft (runs_absent hstarts))
  exact .failed_call rfl (runs_char_seq '(' hbody) hst

theorem outcome_cluster (ih : ElementsBelow n) (hn : rest.length < n) (s : TagState) :
    Outcome (call .cluster) s ('(' :: rest) := by
  by_cases hstarts : Starts (skip rest)
  · have hc : (opened s).settle.Collects := by
      rw [settle_opened]
      trivial
    cases elements_cases ih (Nat.lt_of_le_of_lt (skip_suffix rest).length_le hn) hstarts hc with
    | stuck hrun hst hres =>
      have hbody := runs_char_seq '(' (runs_seq_char_fails hrun fun ts ds he => not_closing (hres ts ds he).starts)
      exact .failed_call rfl hbody (hst.adds (readRest_opened s rest) (skip_suffix_cons _ _) (.refl _ _))
    | @read ts hs ds fs s' hrun hread =>
      by_cases hp : ∃ es, skip ds = ')' :: es
      · obtain ⟨es, hp⟩ := hp
        exact cluster_closed hrun hread hp
      · exact cluster_open hrun hread (not_exists.1 hp)
  · exact cluster_empty hstarts

/-! ## Errors -/

theorem elementEnd_error {here after : List Char} {l : Lexeme} {ls : List Lexeme} (h : l.token ≠ .closing) :
    elementEnd 0 (⟨.error, here, after⟩ :: l :: ls) = elementEnd 0 (l :: ls) := by
  obtain ⟨t, here', after'⟩ := l
  cases t with
  | closing => exact absurd rfl h
  | _ => rfl

theorem scan_error (rest : List Char) :
    Lexeme.scan none ('E' :: rest) = ⟨.error, 'E' :: rest, rest⟩ :: Lexeme.scan none (skip rest) := by
  rw [scan_skip]
  rfl

theorem readRest_error_begin (s : TagState) (rest : List Char) :
    s.readRest ('E' :: rest) = (s.settle.begin .error).readRest (skip rest) :=
  TagState.readRest_char rfl (by decide) rfl rfl

theorem error_payload (hstarts : Starts (skip rest)) (hrun : Runs false element (skip rest) (some ([t], ds)) fs)
    (hread : ElementRead (s.settle.begin .error) (skip rest) t h ds fs s') : Outcome (call .error) s ('E' :: rest) := by
  obtain ⟨l, ls, hl, hclosing⟩ := token_of_starts hstarts
  have hscan := scan_error rest
  rw [hl] at hscan
  have hhas := hread.hasRead
  rw [TagState.settle_begin_settle] at hhas
  exact .read (runs_call rfl (runs_char_seq 'E' (.opt hrun))) {
    isElement := (by decide : Rule.error ∈ Rule.elements)
    suffix := hread.suffix.trans (skip_suffix_cons _ _)
    shorter := Nat.lt_trans hread.shorter (length_skip_lt _ _)
    reads := (readRest_error_begin s rest).trans hread.reads
    hasRead := hhas
    along := hread.along
    bare := hread.bare
    ends := fun hf => by rw [hscan, elementEnd_error hclosing, ← hl, hread.ends hf]
    inside := fun k => by rw [hscan, ← hread.inside, hl]; rfl
    zero := fun hf => ((hread.zero hf).map fun p => Hint.error (some p)).congr (by rw [hscan, hl]; rfl) rfl }

theorem error_bare (hstarts : ¬ Starts (skip rest)) : Outcome (call .error) s ('E' :: rest) := by
  have hpending : (s.settle.begin .error).pending = none := TagState.pending_settle s
  have hsettle := TagState.settle_begin_settle s .error
  exact .read (h := .error none) (runs_call rfl (runs_char_seq 'E' (.optSkips (runs_absent hstarts)))) {
    isElement := (by decide : Rule.error ∈ Rule.elements)
    suffix := skip_suffix_cons _ _
    shorter := length_skip_lt _ _
    reads := readRest_error_begin s rest
    hasRead := ⟨by rw [hsettle]; rfl, nofun⟩
    along := (along_nil hpending rest).elements
    bare := fun _ => by rwa [skip_skip]
    ends := fun hf => by
      rw [skip_skip] at hf
      rw [scan_error]
      obtain hp | ⟨es, hp⟩ | hp := hf
      · rw [hp]
        exact hp
      · rw [hp]
        exact hp
      · exact absurd hp hstarts
    inside := fun k => by rw [scan_error]; rfl
    zero := fun hf => .inl ⟨rfl, by rw [scan_error]; rfl⟩ }

theorem outcome_error (ih : ElementsBelow n) (hn : rest.length < n) (s : TagState) :
    Outcome (call .error) s ('E' :: rest) := by
  by_cases hstarts : Starts (skip rest)
  · have hel : AtElement (s.settle.begin .error) (skip rest) :=
      ⟨hstarts, fun d frames hf => by rw [TagState.settle_begin_settle] at hf; cases hf⟩
    cases ih (skip rest) (Nat.lt_of_le_of_lt (skip_suffix rest).length_le hn) _ hel with
    | @stuck out fs q hrun hst hres =>
      have hall := hst.adds (readRest_error_begin s rest) (skip_suffix_cons _ _) (.refl _ _)
      cases out with
      | none =>
        -- the rule goes on without the payload, and the element that begins here fails once more
        refine .stuck_call rfl (runs_char_seq 'E' (.optSkips hrun)) hall fun ts ds he => ?_
        cases he
        exact ⟨ahead_of_stuck hstarts hst (skip_skip rest), fs, List.Subset.refl _, by rwa [skip_skip]⟩
      | some out => exact .stuck_call rfl (runs_char_seq 'E' (.opt hrun)) hall hres
    | read hrun hread => exact error_payload hstarts hrun hread
  · exact error_bare hstarts

end

/-! ## Lists -/

/-- The number of dimensions behind a star, read by the rules and by the reader. -/
structure DepthRead (s : TagState) (cs : List Char) (depth : Option Nat) (ts : List RuleTree) (ds : List Char)
    (fs : List Attempt) : Prop where
  runs : Runs false (opt (call .depth)) (skip cs) (some (ts, ds)) fs
  suffix : skip ds <:+ cs
  reads : (s.begin (.list none)).readRest cs = (s.begin (.list depth)).readRest (skip ds)
  tried : fs = if depth = none then [(.depth, skip ds)] else []
  digit : depth = none → ∀ c es, skip ds = c :: es → c.isDigit = false
  builds : ∀ text us, RuleTree.buildList text 1 none (ts ++ us) =
    if depth = some 0 then .error text else RuleTree.buildList text (depth.getD 1) none us
  ends : ∀ k, elementEnd k (Lexeme.scan none cs) = elementEnd k (Lexeme.scan none (skip ds))
  zero : ∀ here after, depthZeroList? (⟨.star, here, after⟩ :: Lexeme.scan none cs) =
    if depth = some 0 then some (Lexeme.textUpTo ⟨.star, here, after⟩ (elementEnd 0 (Lexeme.scan none cs)))
    else depthZeroList? (Lexeme.scan none (skip ds))

section

variable {n : Nat} {s s' : TagState} {rest ds : List Char} {depth : Option Nat} {us : List RuleTree}
  {fs₀ : List Attempt}

theorem depthZeroList?_star {here after : List Char} {ls : List Lexeme} (h : ∀ l ∈ ls.head?, l.token ≠ .digit 0) :
    depthZeroList? (⟨.star, here, after⟩ :: ls) = depthZeroList? ls := by
  obtain _ | ⟨⟨t, here', after'⟩, ls⟩ := ls
  · rfl
  · have ht : t ≠ .digit 0 := h _ rfl
    cases t with
    | digit n =>
      cases n with
      | zero => exact absurd rfl ht
      | succ n => rfl
    | _ => rfl

theorem depthZeroList?_digit {n : Nat} {here after here' after' : List Char} {ls : List Lexeme} :
    depthZeroList? (⟨.star, here, after⟩ :: ⟨.digit n, here', after'⟩ :: ls) =
      if n = 0 then some (Lexeme.textUpTo ⟨.star, here, after⟩ (elementEnd 0 (⟨.digit n, here', after'⟩ :: ls)))
      else depthZeroList? ls := by
  by_cases hn : n = 0
  · subst hn
    rfl
  · rw [if_neg hn, depthZeroList?_star fun l hl => by cases hl; simpa using hn]
    rfl

theorem depth_digit {cs es : List Char} {c : Char} (hs : s.pending = none) (hp : skip cs = c :: es)
    (hc : c.isDigit = true) :
    DepthRead s cs (some (c.toNat - '0'.toNat)) [.node .depth [c] []] es [] := by
  obtain ⟨ht, hsep, hb⟩ := ofChar_of_isDigit hc
  have hscan : Lexeme.scan none cs = ⟨.digit (c.toNat - '0'.toNat), c :: es, es⟩ :: Lexeme.scan none (skip es) := by
    rw [← scan_skip cs, hp, scan_char hsep hb, ht, scan_skip es]
  have hdigit : Runs true (one Char.isDigit) (c :: es) (some ([], es)) [] := .one hc
  have hrun : Runs false (call .depth) (c :: es) _ [] := .call (r := .depth) hdigit
  rw [show (c :: es).take ((c :: es).length - es.length) = [c] from take_left [c] es, ← hp] at hrun
  have hstep : (s.begin (.list none)).step (.digit (c.toNat - '0'.toNat)) =
      some (s.begin (.list (some (c.toNat - '0'.toNat)))) := by
    rw [TagState.step_eq (t := .digit _) (fun _ h => by cases h), TagState.settle_eq_self (by exact hs)]
    rfl
  exact {
    runs := .opt hrun
    suffix := (skip_suffix_cons c es).trans (hp ▸ skip_suffix cs)
    reads := TagState.readRest_lexeme hscan hstep
    tried := rfl
    digit := nofun
    builds := fun text us => by simp [RuleTree.buildList]
    ends := fun k => by rw [hscan]; cases k <;> rfl
    zero := fun here after => by rw [hscan, depthZeroList?_digit]; simp only [Option.some.injEq] }

theorem depth_absent {cs : List Char} (hno : ∀ c es, skip cs = c :: es → c.isDigit = false) :
    DepthRead s cs none [] (skip cs) [(.depth, skip cs)] := by
  have hrun : Runs true (one Char.isDigit) (skip cs) none [] := .oneFails fun c hc => by
    obtain ⟨es, hp⟩ := List.head?_eq_some_iff.1 hc
    exact hno c es hp
  have hcall := Runs.callFails (a := false) (r := .depth) hrun
  have hne := fun l hl => token_ne_digit (skip_skip cs) hno l hl 0
  exact {
    runs := .optSkips hcall
    suffix := (skip_suffix _).trans (skip_suffix cs)
    reads := by rw [TagState.readRest_skip, TagState.readRest_skip]
    tried := by rw [skip_skip]; rfl
    digit := fun _ c es hp => hno c es (by rwa [skip_skip] at hp)
    builds := fun text us => rfl
    ends := fun k => by rw [skip_skip, scan_skip]
    zero := fun here after => by rw [← scan_skip, depthZeroList?_star hne, skip_skip]; rfl }

theorem exists_depth (hs : s.pending = none) (cs : List Char) : ∃ depth ts ds fs, DepthRead s cs depth ts ds fs := by
  by_cases hd : ∃ c es, skip cs = c :: es ∧ c.isDigit = true
  · obtain ⟨c, es, hp, hc⟩ := hd
    exact ⟨_, _, _, _, depth_digit hs hp hc⟩
  · exact ⟨_, _, _, _, depth_absent fun c es hp => by simpa using fun hc => hd ⟨c, es, hp, hc⟩⟩

theorem DepthRead.places (h : DepthRead s rest depth us ds fs₀) : ∀ a ∈ fs₀, a.2 = skip ds := by
  intro a ha
  rw [h.tried] at ha
  split at ha
  · rw [List.mem_singleton.1 ha]
  · cases ha

theorem DepthRead.adds (h : DepthRead s rest depth us ds fs₀) {fs : List Attempt} :
    Adds (skip ds) fs (fs₀ ++ ([(.emptyElement, skip ds)] ++ fs)) := by
  have hempty : Adds (skip ds) fs ([(.emptyElement, skip ds)] ++ fs) := adds_prepend (places_here _ _)
  exact hempty.trans (adds_prepend fun a ha => .inr (h.places a ha ▸ List.suffix_rfl)) List.suffix_rfl

theorem DepthRead.runs_body (h : DepthRead s rest depth us ds fs₀) {out : Option (List RuleTree × List Char)}
    {fs : List Attempt} (hrun : Runs false (alt (call .emptyElement) element) (skip ds) out fs) :
    Runs false (Rule.body .list) ('*' :: rest) (out.map fun o => (us ++ o.1, o.2)) (fs₀ ++ fs) := by
  cases out with
  | none => exact runs_char_seq '*' (.seqFails h.runs hrun)
  | some out => exact runs_char_seq '*' (.seq h.runs hrun)

theorem scan_star (rest : List Char) :
    Lexeme.scan none ('*' :: rest) = ⟨.star, '*' :: rest, rest⟩ :: Lexeme.scan none rest := rfl

theorem DepthRead.readRest_star (h : DepthRead s.settle rest depth us ds fs₀) :
    s.readRest ('*' :: rest) = (s.settle.begin (.list depth)).readRest (skip ds) := by
  have hstep : s.step .star = some (s.settle.begin (.list none)) := rfl
  exact (TagState.readRest_lexeme (scan_star rest) hstep).trans h.reads

theorem DepthRead.suffix_star (h : DepthRead s rest depth us ds fs₀) : skip ds <:+ '*' :: rest :=
  h.suffix.trans (List.suffix_cons _ _)

theorem DepthRead.shorter_star (h : DepthRead s rest depth us ds fs₀) : (skip ds).length < ('*' :: rest).length :=
  Nat.lt_succ_of_le h.suffix.length_le

theorem DepthRead.ends_star (h : DepthRead s rest depth us ds fs₀) (k : Nat) :
    elementEnd k (Lexeme.scan none ('*' :: rest)) = elementEnd k (Lexeme.scan none (skip ds)) := by
  rw [scan_star, ← h.ends]
  cases k <;> rfl

theorem DepthRead.sameZero (h : DepthRead s rest depth us ds fs₀) {vs : List RuleTree} {e : Option Hint}
    {es : List Char} (hends : elementEnd 0 (Lexeme.scan none (skip ds)) = es)
    (hz : ∀ text, SameZero (RuleTree.buildList text (depth.getD 1) none vs) (.list e (depth.getD 1)) (skip ds) es) :
    SameZero (RuleTree.node .list (('*' :: rest).take (('*' :: rest).length - es.length)) (us ++ vs)).build
      (.list e (depth.getD 1)) ('*' :: rest) es := by
  have hzero := h.zero ('*' :: rest) rest
  have hb := h.builds (('*' :: rest).take (('*' :: rest).length - es.length)) vs
  by_cases hd : depth = some 0
  · rw [if_pos hd] at hzero hb
    rw [h.ends, hends] at hzero
    exact .inr ⟨_, hb, hzero⟩
  · rw [if_neg hd] at hzero hb
    obtain ⟨hb', hz⟩ | ⟨text, hb', hz⟩ := hz (('*' :: rest).take (('*' :: rest).length - es.length))
    · exact .inl ⟨hb.trans hb', by rw [scan_star, hzero, hz]⟩
    · exact .inr ⟨text, hb.trans hb', by rw [scan_star, hzero, hz]⟩

theorem runs_emptyElement_fails {p : List Char} (h : ∀ rest, p ≠ '_' :: rest) :
    Runs false (call .emptyElement) p none [(.emptyElement, p)] := by
  have hb : Runs false (Rule.body .emptyElement) p none [] := runs_char_fails h
  exact runs_call_none rfl hb

theorem buildList_element {t : RuleTree} (hr : t.rule ∈ Rule.elements) (text : List Char) (depth : Nat) :
    RuleTree.buildList text depth none [t] = t.build.map fun e => .list (some e) depth := by
  obtain ⟨r, text', parts⟩ := t
  rw [RuleTree.rule] at hr
  cases r <;> first | exact absurd hr (by decide) | skip
  all_goals
    rw [RuleTree.buildList]
    · cases RuleTree.build _ with
      | error _ => rfl
      | ok _ => simp only [bind, Except.bind, RuleTree.buildList, Except.map]
    all_goals nofun

theorem list_unknown {es : List Char} (hdepth : DepthRead s.settle rest depth us ds fs₀) (hp : skip ds = '_' :: es) :
    Outcome (call .list) s ('*' :: rest) := by
  have hrun : Runs false (alt (call .emptyElement) element) (skip ds) _ [] :=
    .altLeft (runs_call (r := .emptyElement) rfl (hp ▸ runs_char false '_' es))
  have hscan : Lexeme.scan none (skip ds) = ⟨.underscore, '_' :: es, es⟩ :: Lexeme.scan none es := by
    rw [hp]
    rfl
  have hstep : (s.settle.begin (.list depth)).step .underscore = some (s.settle.push (.list none (depth.getD 1))) := by
    rw [TagState.step_eq (t := .underscore) (fun _ h => by cases h), TagState.settle_begin_settle]
    rfl
  have hes : es <:+ skip ds := hp ▸ List.suffix_cons '_' es
  have hplaces : Adds (skip ds) [] (fs₀ ++ []) :=
    ⟨List.nil_subset _, fun a ha => .inr (hdepth.places a (by simpa using ha) ▸ List.suffix_rfl)⟩
  exact .read (runs_call rfl (hdepth.runs_body hrun)) {
    isElement := (by decide : Rule.list ∈ Rule.elements)
    suffix := hes.trans hdepth.suffix_star
    shorter := Nat.lt_of_le_of_lt hes.length_le hdepth.shorter_star
    reads := hdepth.readRest_star.trans (TagState.readRest_lexeme hscan hstep)
    hasRead := TagState.hasRead_push _ _
    along := (along_nil (TagState.pending_push _ _) es).adds hplaces hes (hp ▸ Nat.lt_succ_self _)
    bare := nofun
    ends := fun _ => by rw [hdepth.ends_star, hscan]; rfl
    inside := fun k => by rw [hdepth.ends_star, hscan]; rfl
    zero := fun _ => hdepth.sameZero (by rw [hscan]; rfl) fun text =>
      .inl ⟨by simp [RuleTree.buildList], by rw [hscan]; rfl⟩ }

theorem list_element {t : RuleTree} {h : Hint} {es : List Char} {fs : List Attempt}
    (hdepth : DepthRead s.settle rest depth us ds fs₀) (hne : ∀ es, skip ds ≠ '_' :: es)
    (hrun : Runs false element (skip ds) (some ([t], es)) fs)
    (hread : ElementRead (s.settle.begin (.list depth)) (skip ds) t h es fs s') :
    Outcome (call .list) s ('*' :: rest) := by
  have hhas := hread.hasRead
  rw [TagState.settle_begin_settle] at hhas
  exact .read (runs_call rfl (hdepth.runs_body (.altRight (runs_emptyElement_fails hne) hrun))) {
    isElement := (by decide : Rule.list ∈ Rule.elements)
    suffix := hread.suffix.trans hdepth.suffix_star
    shorter := Nat.lt_trans hread.shorter hdepth.shorter_star
    reads := hdepth.readRest_star.trans hread.reads
    hasRead := hhas
    along := hread.along.adds hdepth.adds hread.suffix hread.shorter
    bare := hread.bare
    ends := fun hf => by rw [hdepth.ends_star, hread.ends hf]
    inside := fun k => by rw [hdepth.ends_star, hread.inside]
    zero := fun hf => hdepth.sameZero (hread.ends hf) fun text => by
      rw [buildList_element hread.isElement]
      exact (hread.zero hf).map fun e => Hint.list (some e) (depth.getD 1) }

theorem finish_begin_list (s : TagState) (depth : Option Nat) : (s.settle.begin (.list depth)).finish = none := by
  rw [TagState.finish, TagState.settle_begin_settle]
  rfl

theorem step_closing_begin_list (s : TagState) (depth : Option Nat) :
    (s.settle.begin (.list depth)).step .closing = none := by
  rw [TagState.step_eq (t := .closing) (fun _ h => by cases h), TagState.settle_begin_settle]
  rfl

theorem DepthRead.step_digit (h : DepthRead s.settle rest depth us ds fs₀) {c : Char} {es : List Char}
    (hp : skip ds = c :: es) (hc : c.isDigit = true) (n : Nat) :
    (s.settle.begin (.list depth)).step (.digit n) = none := by
  rw [TagState.step_eq (t := .digit n) (fun _ h => by cases h), TagState.settle_begin_settle]
  cases depth with
  | none =>
    rw [h.digit rfl c es hp] at hc
    cases hc
  | some m => rfl

theorem list_absent (hdepth : DepthRead s.settle rest depth us ds fs₀) (hne : ∀ es, skip ds ≠ '_' :: es)
    (hstarts : ¬ Starts (skip ds)) : Outcome (call .list) s ('*' :: rest) := by
  have hpending : (s.settle.begin (.list depth)).pending = none := TagState.pending_settle s
  have hst : StuckAt s ('*' :: rest) (fs₀ ++ ([(.emptyElement, skip ds)] ++ Rule.elements.map (·, skip ds)))
      (s.settle.begin (.list depth)) (skip ds) := {
    reads := hdepth.readRest_star.trans <|
      readRest_stuck (skip_skip ds) hstarts (fun _ => finish_begin_list s depth)
        (fun _ _ => step_closing_begin_list s depth) (fun _ _ hp hc n => hdepth.step_digit hp hc n) fun hq => by
          rw [hpending] at hq
          cases hq
    suffix := hdepth.suffix_star
    shorter := hdepth.shorter_star
    places := fun a ha => (hdepth.adds.places a ha).elim (places_map _ _ a) id
    tried := fun r => by
      rw [TagState.offers_list (TagState.pending_settle s), hdepth.tried]
      cases depth with
      | none => simp [or_assoc, or_comm]
      | some _ => simp [or_comm]
    unfinished := finish_begin_list s depth }
  have hbody := hdepth.runs_body (.altRight (runs_emptyElement_fails hne) (runs_absent hstarts))
  exact .failed_call rfl hbody ⟨_, hst⟩

theorem outcome_list (ih : ElementsBelow n) (hn : rest.length < n) (s : TagState) :
    Outcome (call .list) s ('*' :: rest) := by
  obtain ⟨depth, us, ds, fs₀, hdepth⟩ := exists_depth (TagState.pending_settle s) rest
  by_cases hunknown : ∃ es, skip ds = '_' :: es
  · obtain ⟨es, hp⟩ := hunknown
    exact list_unknown hdepth hp
  · have hne := not_exists.1 hunknown
    by_cases hstarts : Starts (skip ds)
    · have hel : AtElement (s.settle.begin (.list depth)) (skip ds) := ⟨hstarts, fun _ _ _ => hne⟩
      cases ih _ (Nat.lt_of_le_of_lt hdepth.suffix.length_le hn) _ hel with
      | stuck hrun hst hres =>
        have hbody := hdepth.runs_body (.altRight (runs_emptyElement_fails hne) hrun)
        refine .stuck_call rfl hbody (hst.adds hdepth.readRest_star hdepth.suffix_star hdepth.adds) fun ts es he => ?_
        obtain ⟨⟨ts', es'⟩, rfl, he⟩ := Option.map_eq_some_iff.1 he
        cases he
        exact (hres _ _ rfl).mono hdepth.adds.subset
      | read hrun hread => exact list_element hdepth hne hrun hread
    · exact list_absent hdepth hne hstarts

end

/-! ## Any element -/

theorem element_cases {cs : List Char} {s : TagState} (hel : AtElement s cs) : Outcome element s cs := by
  induction hk : cs.length using Nat.strong_induction_on generalizing cs s with
  | _ k ih =>
  have ih : ElementsBelow k := fun cs hl s h => ih _ hl h rfl
  obtain ⟨r, hr, rest, rfl⟩ := hel.starts
  have hn : rest.length < k := by
    rw [← hk]
    exact Nat.lt_succ_self _
  refine .element hr ?_
  cases r with
  | cluster => exact outcome_cluster ih hn s
  | list => exact outcome_list ih hn s
  | error => exact outcome_error ih hn s
  | value | complex => exact outcome_quantity rfl s rest
  | none => exact outcome_letter rfl s rest fun _ d frames hf => hel.known d frames hf rest rfl
  | wildcard | boolean | int | word | string | time => exact outcome_letter rfl s rest nofun
  | endOfTag | tag | units | unitLabel | depth | emptyElement => exact absurd hr (by decide)

end TagWire
