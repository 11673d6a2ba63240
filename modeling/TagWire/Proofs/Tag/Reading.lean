import TagWire.Proofs.Outcome
import TagWire.Proofs.Tag.Grammar
import TagWire.Tag.Parser

/-!
# Derived tags are read

A text that an element derives is cut into tokens, and these are read as the element, whatever stands before and
behind it. An `E` takes the element behind it, so this is for hints that leave none there.
-/

namespace TagWire

/-! ## From text to tokens -/

/-- The tokens of the rest of a body. -/
def scanned (cs : List Char) : List Token := (Lexeme.scan none cs).map Lexeme.token

theorem scanned_cons {c : Char} {cs : List Char} (hs : Text.isSeparator c = false) (hb : c ≠ '[') :
    scanned (c :: cs) = .ofChar c :: scanned cs := by
  rw [scanned, Lexeme.scan, if_neg (by simp [hs]), if_neg hb]
  rfl

theorem scanned_blanks {bs : List Char} (h : Blanks bs) (rest : List Char) : scanned (bs ++ rest) = scanned rest := by
  induction bs with
  | nil => rfl
  | cons b bs ih =>
    obtain ⟨hb, hbs⟩ := List.forall_mem_cons.1 h
    have hc : scanned (b :: (bs ++ rest)) = scanned (bs ++ rest) := by rw [scanned, Lexeme.scan, if_pos hb]; rfl
    rw [List.cons_append, hc, ih hbs]

theorem scanned_mark {c : Char} {cs : List Char} (h : Mark c cs) (hs : Text.isSeparator c = false) (hb : c ≠ '[')
    (rest : List Char) : scanned (cs ++ rest) = .ofChar c :: scanned rest := by
  obtain ⟨bs, hbs, rfl⟩ := h
  rw [List.append_assoc, scanned_blanks hbs, List.singleton_append, scanned_cons hs hb]

theorem scan_label {here label acc rest : List Char} (h : ']' ∉ label) :
    (Lexeme.scan (some ⟨here, acc⟩) (label ++ ']' :: rest)).map Lexeme.token =
      .label (acc.reverse ++ label) :: scanned rest := by
  induction label generalizing acc with
  | nil => simp [Lexeme.scan, scanned]
  | cons c label ih =>
    have hc : c ≠ ']' := fun hc => h (by simp [hc])
    have hl : ']' ∉ label := fun hl => h (by simp [hl])
    rw [List.cons_append, Lexeme.scan, if_neg hc, ih hl]
    simp

theorem scanned_label {op label : List Char} (hop : Mark '[' op) (h : ']' ∉ label) (rest : List Char) :
    scanned (op ++ label ++ [']'] ++ rest) = .label label :: scanned rest := by
  obtain ⟨bs, hbs, rfl⟩ := hop
  simp only [List.append_assoc]
  rw [scanned_blanks hbs, scanned, List.singleton_append, Lexeme.scan, if_neg (by decide), if_pos rfl]
  exact scan_label h

theorem ofChar_digitChar {depth : Nat} (h : depth ≤ 9) : Token.ofChar (Nat.digitChar depth) = .digit depth ∧
    Text.isSeparator (Nat.digitChar depth) = false ∧ Nat.digitChar depth ≠ '[' := by
  revert h
  revert depth
  decide

theorem ofChar_letter {c : Char} {h : Hint} (hl : Letter c h) : Text.isSeparator c = false ∧ c ≠ '[' ∧
    (Token.ofChar c = .simple h ∨ h = .none ∧ Token.ofChar c = .underscore) := by
  cases hl <;> decide

/-! ## States -/

namespace TagState

def steps : TagState → List Token → Option TagState
  | s, [] => some s
  | s, t :: ts => (s.step t).bind fun s' => s'.steps ts

theorem run_eq_ok : ∀ {ls : List Lexeme} {s s' : TagState},
    s.run ls = .ok s' ↔ s.steps (ls.map Lexeme.token) = some s'
  | [], s, s' => by simp [run, steps]
  | l :: ls, s, s' => by
    rw [run, List.map_cons, steps]
    cases s.step l.token with
    | none => simp
    | some s₁ => exact run_eq_ok

theorem steps_append : ∀ {s : TagState} {ts us : List Token},
    s.steps (ts ++ us) = (s.steps ts).bind fun s' => s'.steps us
  | s, [], us => rfl
  | s, t :: ts, us => by
    rw [List.cons_append, steps, steps]
    cases s.step t with
    | none => rfl
    | some s₁ => exact steps_append

@[simp] theorem pending_complete (es : List Hint) (h : Hint) (fs : List Frame) : (complete es h fs).pending = none := by
  induction fs generalizing h with
  | nil => rfl
  | cons f fs ih => cases f <;> simp [complete, ih]

@[simp] theorem pending_push (s : TagState) (h : Hint) : (s.push h).pending = none := pending_complete _ _ _

/-- An error that waits for a payload is finished by it, so none is left innermost. -/
@[simp] theorem closeError_push (s : TagState) (h : Hint) : (s.push h).closeError = s.push h := by
  have hf : ∀ (es : List Hint) (h : Hint) (fs gs : List Frame), (complete es h fs).frames ≠ .error :: gs := by
    intro es h fs gs
    induction fs generalizing h with
    | nil => exact fun hc => (by cases hc)
    | cons f fs ih =>
      cases f with
      | cluster ms => exact fun hc => (by cases hc)
      | list depth => exact ih _
      | error => exact ih _
  unfold closeError
  split
  · rename_i gs hg
    exact absurd hg (hf _ _ _ _)
  · rfl

theorem settle_eq_self {s : TagState} (h : s.pending = none) : s.settle = s := by
  rw [settle, h]

@[simp] theorem settle_push (s : TagState) (h : Hint) : (s.push h).settle = s.push h :=
  settle_eq_self (pending_push s h)

@[simp] theorem pending_settle (s : TagState) : s.settle.pending = none := by
  cases h : s.pending with
  | none => rw [settle_eq_self h, h]
  | some q => rw [settle, h]; exact pending_push _ _

@[simp] theorem settle_begin_settle (s : TagState) (f : Frame) : (s.settle.begin f).settle = s.settle.begin f :=
  settle_eq_self (pending_settle s)

/-- Whatever is no label finishes a value before it. -/
theorem step_eq {s : TagState} {t : Token} (h : ∀ cs, t ≠ .label cs) : s.step t = s.settle.stepSettled t := by
  unfold step
  cases t with
  | label cs => exact absurd rfl (h cs)
  | _ => rfl

/-! ## Reading a text -/

/-- A text is read: its tokens lead from a state to another one, whatever stands behind it, and none of them is a 0. -/
def Consumes (s : TagState) (cs : List Char) (s' : TagState) : Prop :=
  ∃ ts, (∀ rest, scanned (cs ++ rest) = ts ++ scanned rest) ∧ .digit 0 ∉ ts ∧ s.steps ts = some s'

theorem Consumes.refl (s : TagState) : s.Consumes [] s := ⟨[], fun _ => rfl, List.not_mem_nil, rfl⟩

theorem Consumes.trans {s s₁ s₂ : TagState} {cs ds : List Char} (h₁ : s.Consumes cs s₁) (h₂ : s₁.Consumes ds s₂) :
    s.Consumes (cs ++ ds) s₂ := by
  obtain ⟨ts, hts, hz, hst⟩ := h₁
  obtain ⟨us, hus, hz', hst'⟩ := h₂
  refine ⟨ts ++ us, fun rest => ?_, by simp [hz, hz'], by rw [steps_append, hst, Option.bind_some, hst']⟩
  rw [List.append_assoc, hts, hus, List.append_assoc]

theorem consumes_token {s s' : TagState} {t : Token} {cs : List Char}
    (hc : ∀ rest, scanned (cs ++ rest) = t :: scanned rest) (hz : t ≠ .digit 0) (h : s.step t = some s') : s.Consumes cs s' :=
  ⟨[t], hc, by simpa using hz.symm, by rw [steps, h]; rfl⟩

theorem consumes_mark {s s' : TagState} {c : Char} {t : Token} {cs : List Char} (hm : Mark c cs)
    (hs : Text.isSeparator c = false) (hb : c ≠ '[') (ht : Token.ofChar c = t) (hz : t ≠ .digit 0)
    (h : s.step t = some s') : s.Consumes cs s' :=
  consumes_token (fun rest => by rw [scanned_mark hm hs hb, ht]) hz h

theorem consumes_error {s : TagState} {er : List Char} (hm : Mark 'E' er) : s.Consumes er (s.settle.begin .error) :=
  consumes_mark hm rfl (by decide) rfl nofun rfl

theorem consumes_opening {s : TagState} {op : List Char} (hm : Mark '(' op) :
    s.Consumes op (s.settle.begin (.cluster [])) :=
  consumes_mark hm rfl (by decide) rfl nofun rfl

theorem step_letter {s : TagState} {c : Char} {h : Hint} (hl : Letter c h)
    (hf : h = .none → ∀ d fs, s.settle.frames ≠ .list d :: fs) : s.step (.ofChar c) = some (s.settle.push h) := by
  obtain ⟨-, -, ht | ⟨rfl, ht⟩⟩ := ofChar_letter hl
  · rw [ht]
    rfl
  · rw [ht, step_eq (t := .underscore) nofun, stepSettled]
    split
    · rename_i d fs hfs
      exact absurd hfs (hf rfl d fs)
    · rfl

theorem consumes_letter {s : TagState} {c : Char} {h : Hint} {cs : List Char} (hl : Letter c h) (hm : Mark c cs)
    (hf : h = .none → ∀ d fs, s.settle.frames ≠ .list d :: fs) : s.Consumes cs (s.settle.push h) := by
  obtain ⟨hs, hb, ht⟩ := ofChar_letter hl
  refine consumes_mark hm hs hb rfl ?_ (step_letter hl hf)
  obtain ht | ⟨-, ht⟩ := ht <;> exact ht ▸ nofun

theorem consumes_unit {s : TagState} {q : Quantity} {u : UnitMark} {c : Char} {vs us : List Char} (hv : Mark c vs)
    (hs : Text.isSeparator c = false) (hb : c ≠ '[') (hq : Token.ofChar c = .quantity q) (hu : u.Derives us) :
    ∃ s', s.Consumes (vs ++ us) s' ∧ s'.settle = s.settle.push (q.hint u) := by
  have hc : s.Consumes vs { s.settle with pending := some q } := consumes_mark hv hs hb hq nofun rfl
  cases hu with
  | absent => exact ⟨_, hc.trans (.refl _), rfl⟩
  | label hop hl => exact ⟨_, hc.trans (consumes_token (scanned_label hop hl) nofun rfl), settle_push _ _⟩

theorem consumes_star {s : TagState} {depth : Nat} {st ds : List Char} (hst : Mark '*' st)
    (hds : DepthDerives depth ds) :
    ∃ d : Option Nat, d.getD 1 = depth ∧ s.Consumes (st ++ ds) (s.settle.begin (.list d)) := by
  have hc : s.Consumes st (s.settle.begin (.list none)) := consumes_mark hst rfl (by decide) rfl nofun rfl
  cases hds with
  | absent => exact ⟨none, rfl, hc.trans (.refl _)⟩
  | digit h₁ h₉ hm =>
    obtain ⟨ht, hs, hb⟩ := ofChar_digitChar h₉
    have hz : Token.digit depth ≠ .digit 0 := by
      rw [Ne, Token.digit.injEq]
      omega
    refine ⟨some depth, rfl, hc.trans (consumes_mark hm hs hb ht hz ?_)⟩
    rw [step_eq (t := .digit depth) nofun, settle_begin_settle]
    rfl

theorem step_closing {s : TagState} {ms : List Hint} {fs : List Frame} {es : List Hint} (hne : ms ≠ [])
    (h : s.settle.closeError = ⟨.cluster ms :: fs, es, none⟩) :
    s.step .closing = some (complete es (.cluster ms.reverse) fs) := by
  obtain ⟨m, ms, rfl⟩ := List.exists_cons_of_ne_nil hne
  rw [step_eq (t := .closing) nofun, stepSettled, h]

theorem consumes_closing {s : TagState} {ms : List Hint} {fs : List Frame} {es : List Hint} {cl : List Char}
    (hne : ms ≠ []) (h : s.settle.closeError = ⟨.cluster ms :: fs, es, none⟩) (hm : Mark ')' cl) :
    s.Consumes cl (complete es (.cluster ms.reverse) fs) :=
  consumes_mark (t := .closing) hm rfl (by decide) rfl nofun (step_closing hne h)

/-- Finishes several elements. -/
def pushAll (s : TagState) (hs : List Hint) : TagState := hs.foldl push s

/-- The next element stands beside those before it, in a cluster or in the tag. -/
def Collects (s : TagState) : Prop :=
  match s.frames with
  | [] | .cluster _ :: _ => True
  | _ => False

theorem Collects.push {s : TagState} (h : s.Collects) (e : Hint) : (s.push e).Collects := by
  obtain ⟨_ | ⟨_ | _ | _, _⟩, _, _⟩ := s <;> trivial

theorem Collects.closeError {s : TagState} (h : s.Collects) : s.closeError = s := by
  obtain ⟨_ | ⟨_ | _ | _, _⟩, _, _⟩ := s <;> first | rfl | cases h

theorem Collects.not_list {s : TagState} (h : s.Collects) (d : Option Nat) (fs : List Frame) :
    s.frames ≠ .list d :: fs := by
  intro hf
  rw [Collects, hf] at h
  exact h

theorem pushAll_cluster : ∀ (hs ms : List Hint) (fs : List Frame) (es : List Hint),
    pushAll ⟨.cluster ms :: fs, es, none⟩ hs = ⟨.cluster (hs.reverse ++ ms) :: fs, es, none⟩
  | [], _, _, _ => rfl
  | h :: hs, ms, fs, es => by
    rw [List.reverse_cons, List.append_assoc]
    exact pushAll_cluster hs (h :: ms) fs es

theorem pushAll_nil : ∀ hs es : List Hint, pushAll ⟨[], es, none⟩ hs = ⟨[], hs.reverse ++ es, none⟩
  | [], _ => rfl
  | h :: hs, es => by
    rw [List.reverse_cons, List.append_assoc]
    exact pushAll_nil hs (h :: es)

/-- An element has been read: it is finished as soon as nothing more can follow it. A bare error at its end still
waits for a payload, and nothing else does. -/
def HasRead (s : TagState) (h : Hint) (s' : TagState) : Prop :=
  s'.settle.closeError = s.push h ∧ (h.endsInBareError = false → s'.settle = s.push h)

theorem hasRead_of_settle {s s' : TagState} {h : Hint} (hs : s'.settle = s.push h) : s.HasRead h s' := by
  refine ⟨?_, fun _ => hs⟩
  rw [hs, closeError_push]

theorem hasRead_push (s : TagState) (h : Hint) : s.HasRead h (s.push h) := hasRead_of_settle (settle_push s h)

end TagState

/-! ## Elements -/

namespace Hint

open TagState

mutual

/-- The text of an element is read as the element. A `_` behind a star is the unknown element of the list. -/
theorem consumes_of_derives {h : Hint} {cs : List Char} (hd : h.Derives cs) (hg : h.Greedy) (s : TagState)
    (hf : h = none → ∀ d fs, s.settle.frames ≠ .list d :: fs) : ∃ s', s.Consumes cs s' ∧ s.settle.HasRead h s' := by
  match hd with
  | .letter hl hm => exact ⟨_, consumes_letter hl hm hf, hasRead_push _ _⟩
  | .value hv hu =>
    obtain ⟨s', hc, hs⟩ := consumes_unit (q := .value) hv rfl (by decide) (by decide) hu
    exact ⟨s', hc, hasRead_of_settle hs⟩
  | .complex hv hu =>
    obtain ⟨s', hc, hs⟩ := consumes_unit (q := .complex) hv rfl (by decide) (by decide) hu
    exact ⟨s', hc, hasRead_of_settle hs⟩
  | .cluster hop hne hms hcl =>
    rename_i hs _ _ _
    obtain ⟨s₁, hc, hr⟩ := consumes_of_allDerive hms (greedy_cluster.1 hg) (s.settle.begin (.cluster []))
      (by rw [settle_begin_settle]; trivial)
    have hm : s₁.settle.closeError = ⟨.cluster hs.reverse :: s.settle.frames, s.settle.elements, .none⟩ := by
      rw [hr, settle_begin_settle, TagState.begin, pending_settle, pushAll_cluster, List.append_nil]
    have hcl := consumes_closing (List.reverse_ne_nil_iff.2 hne) hm hcl
    rw [List.reverse_reverse] at hcl
    exact ⟨_, ((consumes_opening hop).trans hc).trans hcl, hasRead_push _ _⟩
  | .list hst hds he =>
    obtain ⟨hne, hge⟩ := greedy_list.1 hg
    obtain ⟨d, rfl, hc⟩ := consumes_star (s := s) hst hds
    obtain ⟨s', hc', hr⟩ := consumes_of_derives he hge (s.settle.begin (.list d)) fun h => absurd h hne
    rw [settle_begin_settle] at hr
    exact ⟨s', hc.trans hc', hr⟩
  | .unknownList hst hds hu =>
    obtain ⟨d, rfl, hc⟩ := consumes_star (s := s) hst hds
    have hst : (s.settle.begin (.list d)).step .underscore = some (s.settle.push (list .none (d.getD 1))) := by
      rw [step_eq (t := .underscore) nofun, settle_begin_settle]
      rfl
    exact ⟨_, hc.trans (consumes_mark hu rfl (by decide) rfl nofun hst), hasRead_push _ _⟩
  | .error her hp =>
    obtain ⟨s', hc, hr⟩ := consumes_of_derives hp (greedy_error.1 hg) (s.settle.begin .error) fun _ d fs hf => by
      rw [settle_begin_settle] at hf
      cases hf
    rw [settle_begin_settle] at hr
    exact ⟨s', (consumes_error her).trans hc, hr⟩
  | .bareError her =>
    refine ⟨_, consumes_error her, ?_, fun h => by cases h⟩
    rw [settle_begin_settle]
    rfl

theorem consumes_of_allDerive {hs : List Hint} {cs : List Char} (hd : AllDerive hs cs) (hg : AllGreedy hs)
    (s : TagState) (hc : s.settle.Collects) :
    ∃ s', s.Consumes cs s' ∧ s'.settle.closeError = s.settle.pushAll hs := by
  match hd with
  | .nil => exact ⟨s, .refl s, hc.closeError⟩
  | .cons hh hhs =>
    rename_i h hs _ _
    obtain ⟨hgh, hgb, hghs⟩ := allGreedy_cons.1 hg
    obtain ⟨s₁, hc₁, hr, hr'⟩ := consumes_of_derives hh hgh s fun _ => hc.not_list
    cases hs with
    | nil =>
      cases hhs
      exact ⟨s₁, hc₁.trans (.refl _), hr⟩
    | cons h' hs =>
      -- another element follows, so this one does not end in a bare error and is finished by now
      have hs₁ : s₁.settle = s.settle.push h := hr' (hgb (List.cons_ne_nil h' hs))
      obtain ⟨s₂, hc₂, hr₂⟩ := consumes_of_allDerive hhs hghs s₁ (by rw [hs₁]; exact hc.push h)
      refine ⟨s₂, hc₁.trans hc₂, ?_⟩
      rw [hr₂, hs₁]
      rfl

end

/-! ## Tags -/

theorem depthZeroList?_eq_none : ∀ {ls : List Lexeme}, Token.digit 0 ∉ ls.map Lexeme.token →
    depthZeroList? ls = .none
  | [], _ => rfl
  | l :: ls, h => by
    have hls : Token.digit 0 ∉ ls.map Lexeme.token := fun hm => h (List.mem_cons_of_mem _ hm)
    unfold depthZeroList?
    split
    · rename_i he
      cases he
      exact absurd List.mem_cons_self hls
    · rename_i he
      cases he
      exact depthZeroList?_eq_none hls
    · rfl

/-- A body is read as the elements that it derives, unless one of them would be read differently. -/
theorem tagElements_of_sentence {es : List Hint} {body : List Char} (hs : Sentence es body) (hg : AllGreedy es) :
    tagElements (Lexeme.ofBody body) = .ok es ∧ depthZeroList? (Lexeme.ofBody body) = .none := by
  obtain ⟨cs, bs, hcs, hbs, rfl⟩ := hs
  obtain ⟨s', ⟨ts, hts, hz, hst⟩, hr⟩ := consumes_of_allDerive hcs hg {} trivial
  have htokens : (Lexeme.ofBody (cs ++ bs)).map Lexeme.token = ts := by
    have hb : scanned bs = [] := by
      rw [← List.append_nil bs, scanned_blanks hbs]
      rfl
    have hsc := hts bs
    rwa [hb, List.append_nil] at hsc
  have hf : s'.finish = some es := by
    rw [finish, hr, show ({} : TagState).settle.pushAll es = ⟨[], es.reverse ++ [], .none⟩ from pushAll_nil es []]
    simp
  refine ⟨?_, depthZeroList?_eq_none (htokens ▸ hz)⟩
  rw [tagElements, run_eq_ok.2 (htokens ▸ hst)]
  simp only [bind, Except.bind, hf]

end Hint

end TagWire
