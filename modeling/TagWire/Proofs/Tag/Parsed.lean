import TagWire.Proofs.Tag.Reading

/-!
# What is read is derived

The reader keeps an invariant: the text that it has read is that of the elements it has finished and of the
constructs it has begun, and no finished element ends in a bare error.
-/

namespace TagWire

/-! ## The text of tokens -/

/-- The mark of a value or complex number. -/
def Quantity.mark : Quantity → Char
  | value => 'v'
  | complex => 'c'

/-- A token that is one character. -/
def Token.IsChar : Token → Char → Prop
  | underscore, c => c = '_'
  | simple h, c => Letter c h ∧ h ≠ .none
  | quantity q, c => c = q.mark
  | star, c => c = '*'
  | digit n, c => n ≤ 9 ∧ c = Nat.digitChar n
  | error, c => c = 'E'
  | opening, c => c = '('
  | closing, c => c = ')'
  | label _, _ => False
  | stray, _ => True

theorem Token.isChar_ite {p : Prop} [Decidable p] {a b : Token} {c : Char} (ha : p → a.IsChar c) (hb : b.IsChar c) :
    (if p then a else b).IsChar c := by
  by_cases h : p
  · rw [if_pos h]
    exact ha h
  · rw [if_neg h]
    exact hb

theorem digitChar_of_isDigit {c : Char} (h : c.isDigit = true) :
    c.toNat - '0'.toNat ≤ 9 ∧ c = Nat.digitChar (c.toNat - '0'.toNat) := by
  simp only [Char.isDigit, Bool.and_eq_true, decide_eq_true_eq] at h
  have h₁ : 48 ≤ c.toNat := h.1
  have h₂ : c.toNat ≤ 57 := h.2
  obtain ⟨n, hn, hc⟩ : ∃ n ≤ 9, c.toNat = 48 + n := ⟨c.toNat - 48, by omega, by omega⟩
  have hd : ∀ n ≤ 9, (Nat.digitChar n).toNat = 48 + n := by decide
  have hsub : c.toNat - '0'.toNat = n := by
    rw [hc]
    exact Nat.add_sub_cancel_left 48 n
  rw [hsub]
  exact ⟨hn, Char.toNat_inj.1 (by rw [hc, hd n hn])⟩

theorem Token.isChar_ofChar (c : Char) : (ofChar c).IsChar c := by
  unfold ofChar
  refine isChar_ite (fun h => h) ?_
  iterate 6 refine isChar_ite (fun h => by subst h; exact ⟨by constructor, nofun⟩) ?_
  iterate 6 refine isChar_ite (fun h => h) ?_
  exact isChar_ite digitChar_of_isDigit trivial

/-- The text of a token, with the blanks before it. -/
def Token.HasText : Token → List Char → Prop
  | label cs, tx => ∃ op, Mark '[' op ∧ ']' ∉ cs ∧ tx = op ++ cs ++ [']']
  | t, tx => ∃ c, Mark c tx ∧ t.IsChar c

theorem Token.hasText_of_isChar {t : Token} {c : Char} {tx : List Char} (hm : Mark c tx) (h : t.IsChar c) :
    t.HasText tx := by
  cases t with
  | label cs => cases h
  | _ => exact ⟨c, hm, h⟩

theorem Mark.blanks {c b : Char} {tx : List Char} (h : Mark c tx) (hb : Text.isSeparator b = true) :
    Mark c (b :: tx) := by
  obtain ⟨bs, hbs, rfl⟩ := h
  exact ⟨b :: bs, List.forall_mem_cons.2 ⟨hb, hbs⟩, rfl⟩

theorem Token.HasText.blanks {t : Token} {b : Char} {tx : List Char} (h : t.HasText tx)
    (hb : Text.isSeparator b = true) : t.HasText (b :: tx) := by
  cases t with
  | label cs =>
    obtain ⟨op, hop, hcs, rfl⟩ := h
    exact ⟨b :: op, hop.blanks hb, hcs, rfl⟩
  | _ =>
    obtain ⟨c, hm, hc⟩ := h
    exact ⟨c, hm.blanks hb, hc⟩

theorem scan_label_cons : ∀ {cs : List Char} (here acc : List Char) {l : Lexeme} {ls : List Lexeme}, ']' ∉ acc →
    Lexeme.scan (some ⟨here, acc⟩) cs = l :: ls → l.token = .stray ∨
      ∃ label rest, cs = label ++ ']' :: rest ∧ ']' ∉ acc.reverse ++ label ∧ l.token = .label (acc.reverse ++ label) ∧
        ls = Lexeme.scan none rest
  | [], _, _, _, _, _, h => by
    rw [Lexeme.scan] at h
    cases h
    exact .inl rfl
  | c :: cs, here, acc, l, ls, ha, h => by
    rw [Lexeme.scan] at h
    split at h
    · rename_i hc
      cases h
      exact .inr ⟨[], cs, by rw [hc]; rfl, by simpa using ha, by simp, rfl⟩
    · rename_i hc
      refine (scan_label_cons here (c :: acc) ?_ h).imp_right ?_
      · rw [List.mem_cons]
        exact fun hm => hm.elim (fun he => hc he.symm) ha
      · rintro ⟨label, rest, rfl, hl, ht, hls⟩
        have he : (c :: acc).reverse ++ label = acc.reverse ++ c :: label := by simp
        exact ⟨c :: label, rest, rfl, he ▸ hl, he ▸ ht, hls⟩

/-- The first lexeme of a text is a piece of it, unless nothing can be made of it. -/
theorem scan_cons : ∀ {cs : List Char} {l : Lexeme} {ls : List Lexeme}, Lexeme.scan none cs = l :: ls →
    l.token = .stray ∨ ∃ tx rest, cs = tx ++ rest ∧ l.token.HasText tx ∧ ls = Lexeme.scan none rest
  | [], _, _, h => by cases h
  | c :: cs, l, ls, h => by
    rw [Lexeme.scan] at h
    split at h
    · rename_i hc
      refine (scan_cons h).imp_right ?_
      rintro ⟨tx, rest, rfl, ht, hls⟩
      exact ⟨c :: tx, rest, rfl, ht.blanks hc, hls⟩
    split at h
    · rename_i hb
      refine (scan_label_cons _ [] List.not_mem_nil h).imp_right ?_
      rintro ⟨label, rest, rfl, hl, ht, hls⟩
      refine ⟨['['] ++ label ++ [']'], rest, by simp [hb], ?_, hls⟩
      rw [ht]
      exact ⟨['['], mark_self '[', hl, rfl⟩
    · cases h
      exact .inr ⟨[c], cs, rfl, Token.hasText_of_isChar (mark_self c) (Token.isChar_ofChar c), rfl⟩

theorem scan_label_ne_nil : ∀ (cs : List Char) (o : Lexeme.OpenLabel), Lexeme.scan (some o) cs ≠ []
  | [], o => by simp [Lexeme.scan]
  | c :: cs, o => by
    rw [Lexeme.scan]
    split
    · exact List.cons_ne_nil _ _
    · exact scan_label_ne_nil cs _

theorem blanks_of_scan : ∀ {cs : List Char}, Lexeme.scan none cs = [] → Blanks cs
  | [], _ => fun _ h => by cases h
  | c :: cs, h => by
    rw [Lexeme.scan] at h
    split at h
    · rename_i hc
      exact List.forall_mem_cons.2 ⟨hc, blanks_of_scan h⟩
    split at h
    · exact absurd h (scan_label_ne_nil _ _)
    · cases h

theorem depthZeroList?_cons {l : Lexeme} {ls : List Lexeme} (h : depthZeroList? (l :: ls) = none) :
    (l.token = .star → ∀ l' ∈ ls.head?, l'.token ≠ .digit 0) ∧ depthZeroList? ls = none := by
  unfold depthZeroList? at h
  split at h
  · cases h
  · rename_i hne hl
    cases hl
    refine ⟨fun hstar l' hl' hd => ?_, h⟩
    obtain ⟨ls', rfl⟩ := List.head?_eq_some_iff.1 hl'
    obtain ⟨t, here, after⟩ := l
    obtain ⟨t', here', after'⟩ := l'
    subst hstar hd
    exact hne _ _ _ _ _ rfl rfl
  · rename_i hl
    cases hl

/-! ## Constructs that are begun -/

namespace Hint

/-- Elements behind each other that have been finished. Only the last may end in a bare error, and only once nothing
can follow it. -/
structure Finished (bare : Bool) (hs : List Hint) (cs : List Char) : Prop where
  derive : AllDerive hs cs
  greedy : AllGreedy hs
  closed : bare = false → ∀ h ∈ hs, h.endsInBareError = false

theorem finished_nil : Finished false [] [] := ⟨.nil, allGreedy_nil, fun _ _ h => by cases h⟩

theorem allGreedy_snoc : ∀ {hs : List Hint} {h : Hint}, AllGreedy hs → (∀ m ∈ hs, m.endsInBareError = false) →
    h.Greedy → AllGreedy (hs ++ [h])
  | [], h, _, _, hg => allGreedy_cons.2 ⟨hg, fun hn => absurd rfl hn, allGreedy_nil⟩
  | m :: ms, h, hs, hb, hg => by
    obtain ⟨hm, _, hms⟩ := allGreedy_cons.1 hs
    obtain ⟨hbm, hbms⟩ := List.forall_mem_cons.1 hb
    exact allGreedy_cons.2 ⟨hm, fun _ => hbm, allGreedy_snoc hms hbms hg⟩

theorem Finished.snoc {hs : List Hint} {h : Hint} {cs ds : List Char} (hhs : Finished false hs cs) (hd : h.Derives ds)
    (hg : h.Greedy) : Finished h.endsInBareError (hs ++ [h]) (cs ++ ds) where
  derive := hhs.derive.snoc hd
  greedy := allGreedy_snoc hhs.greedy (hhs.closed rfl) hg
  closed hb m hm := by
    rcases List.mem_append.1 hm with hm | hm
    · exact hhs.closed rfl m hm
    · rwa [List.mem_singleton.1 hm]

end Hint

open Hint (Finished)

/-- The text that leads to begun constructs, innermost first, and to finished elements of the tag, latest first. The
element that was finished last may end in a bare error if it is said so. -/
inductive Begun : Bool → List Frame → List Hint → List Char → Prop where
  | elements {bare : Bool} {es : List Hint} {cs : List Char} : Finished bare es.reverse cs → Begun bare [] es cs
  | cluster {bare : Bool} {fs : List Frame} {es ms : List Hint} {cs op ds : List Char} : Begun false fs es cs →
    Mark '(' op → Finished bare ms.reverse ds → Begun bare (.cluster ms :: fs) es (cs ++ op ++ ds)
  | list {bare : Bool} {fs : List Frame} {es : List Hint} {depth : Option Nat} {cs st ds : List Char} :
    Begun false fs es cs → Mark '*' st → DepthDerives (depth.getD 1) ds → (depth = none → ds = []) →
    Begun bare (.list depth :: fs) es (cs ++ st ++ ds)
  | error {bare : Bool} {fs : List Frame} {es : List Hint} {cs er : List Char} : Begun false fs es cs → Mark 'E' er →
    Begun bare (.error :: fs) es (cs ++ er)

namespace TagState

theorem begun_complete {fs : List Frame} {es : List Hint} {h : Hint} {cs ds : List Char} (hb : Begun false fs es cs)
    (hl : h = .none → ∀ d gs, fs ≠ .list d :: gs) (hd : h.Derives ds) (hg : h.Greedy) :
    Begun h.endsInBareError (complete es h fs).frames (complete es h fs).elements (cs ++ ds) := by
  match hb with
  | .elements he =>
    refine .elements ?_
    rw [complete, List.reverse_cons]
    exact he.snoc hd hg
  | .cluster hfs hop hms =>
    rw [List.append_assoc]
    refine .cluster hfs hop ?_
    rw [List.reverse_cons]
    exact hms.snoc hd hg
  | .list hfs hst hds _ =>
    rename_i depth _ _ _ _
    have hne : h ≠ .none := fun he => hl he _ _ rfl
    rw [complete, List.append_assoc, List.append_assoc]
    have hc := begun_complete (h := .list (some h) (depth.getD 1)) hfs (by rintro ⟨⟩) (.list hst hds hd)
      (Hint.greedy_list.2 ⟨hne, hg⟩)
    rwa [List.append_assoc] at hc
  | .error hfs her =>
    rw [complete, List.append_assoc]
    exact begun_complete (h := .error (some h)) hfs (by rintro ⟨⟩) (.error her hd) (Hint.greedy_error.2 hg)

theorem begun_push {s : TagState} {h : Hint} {cs ds : List Char} (hs : Begun false s.frames s.elements cs)
    (hl : h = .none → ∀ d gs, s.frames ≠ .list d :: gs) (hd : h.Derives ds) (hg : h.Greedy)
    (hb : h.endsInBareError = false) : Begun false (s.push h).frames (s.push h).elements (cs ++ ds) :=
  hb ▸ begun_complete hs hl hd hg

theorem begun_mono {bare : Bool} {fs : List Frame} {es : List Hint} {cs : List Char} (h : Begun false fs es cs) :
    Begun bare fs es cs := by
  have hf : ∀ {hs cs}, Finished false hs cs → Finished bare hs cs :=
    fun h => ⟨h.derive, h.greedy, fun _ => h.closed rfl⟩
  match h with
  | .elements he => exact .elements (hf he)
  | .cluster hfs hop hms => exact .cluster hfs hop (hf hms)
  | .list hfs hst hds hd => exact .list hfs hst hds hd
  | .error hfs her => exact .error hfs her

theorem begun_closeError {s : TagState} {cs : List Char} (h : Begun false s.frames s.elements cs) :
    Begun true s.closeError.frames s.closeError.elements cs := by
  unfold closeError
  split
  · rename_i fs hf
    rw [hf] at h
    cases h with
    | error hfs her => exact begun_complete (h := .error .none) hfs nofun (.bareError her) ⟨rfl, rfl⟩
  · exact begun_mono h

/-- A text leads to a state. -/
def ReadFrom (s : TagState) (cs : List Char) : Prop :=
  match s.pending with
  | none => Begun false s.frames s.elements cs
  | some q => ∃ ds vs, cs = ds ++ vs ∧ Begun false s.frames s.elements ds ∧ Mark q.mark vs

theorem readFrom_of_begun {s : TagState} {cs : List Char} (hp : s.pending = none)
    (h : Begun false s.frames s.elements cs) : s.ReadFrom cs := by
  rw [ReadFrom, hp]
  exact h

theorem begun_quantity {s : TagState} {q : Quantity} {u : UnitMark} {ds vs us : List Char}
    (hs : Begun false s.frames s.elements ds) (hm : Mark q.mark vs) (hu : u.Derives us) :
    Begun false (s.push (q.hint u)).frames (s.push (q.hint u)).elements (ds ++ (vs ++ us)) := by
  cases q with
  | value => exact begun_push hs nofun (.value hm hu) ⟨rfl, rfl⟩ rfl
  | complex => exact begun_push hs nofun (.complex hm hu) ⟨rfl, rfl⟩ rfl

theorem ReadFrom.settle {s : TagState} {cs : List Char} (h : s.ReadFrom cs) :
    Begun false s.settle.frames s.settle.elements cs := by
  rw [ReadFrom] at h
  cases hp : s.pending with
  | none =>
    rw [hp] at h
    rwa [settle_eq_self hp]
  | some q =>
    rw [hp] at h
    obtain ⟨ds, vs, rfl, hb, hm⟩ := h
    have hq := begun_quantity hb hm .absent
    rw [List.append_nil] at hq
    rwa [TagState.settle, hp]

/-- The last thing that was read is a star. -/
def AtStar (s : TagState) : Prop := s.pending = none ∧ s.frames.head? = some (.list none)

theorem not_atStar_complete (es : List Hint) : ∀ (fs : List Frame) (h : Hint), ¬ (complete es h fs).AtStar
  | [], h => fun hs => by cases hs.2
  | .cluster _ :: _, h => fun hs => by cases hs.2
  | .list _ :: fs, h => not_atStar_complete es fs _
  | .error :: fs, h => not_atStar_complete es fs _

theorem readFrom_complete {fs : List Frame} {es : List Hint} {h : Hint} {cs : List Char}
    (hb : Begun false (complete es h fs).frames (complete es h fs).elements cs) {t : Token} :
    (complete es h fs).ReadFrom cs ∧ ((complete es h fs).AtStar → t = .star) :=
  ⟨readFrom_of_begun (pending_complete _ _ _) hb, fun ha => absurd ha (not_atStar_complete _ _ _)⟩

/-! ## Tokens -/

theorem begun_unknownElement {depth : Option Nat} {fs : List Frame} {es : List Hint} {cs tx : List Char}
    (hs : Begun false (.list depth :: fs) es cs) (hm : Mark '_' tx) :
    Begun false (complete es (.list none (depth.getD 1)) fs).frames
      (complete es (.list none (depth.getD 1)) fs).elements (cs ++ tx) := by
  cases hs with
  | list hfs hst hds =>
    rw [List.append_assoc, List.append_assoc, ← List.append_assoc _ _ tx]
    exact begun_complete (h := .list .none (depth.getD 1)) hfs nofun (.unknownList hst hds hm) ⟨rfl, rfl⟩

theorem begun_star {fs : List Frame} {es : List Hint} {cs tx : List Char} (hs : Begun false fs es cs)
    (hm : Mark '*' tx) : Begun false (.list none :: fs) es (cs ++ tx) := by
  have hl : Begun false (.list none :: fs) es (cs ++ tx ++ []) := .list hs hm .absent fun _ => rfl
  rwa [List.append_nil] at hl

theorem begun_digit {n : Nat} {fs : List Frame} {es : List Hint} {cs tx : List Char}
    (hs : Begun false (.list none :: fs) es cs) (hn₀ : n ≠ 0) (hn₉ : n ≤ 9) (hm : Mark (Nat.digitChar n) tx) :
    Begun false (.list (some n) :: fs) es (cs ++ tx) := by
  cases hs with
  | list hfs hst hds hnone =>
    -- no digit has been read for this list, so this one is all there is behind its star
    obtain rfl := hnone rfl
    rw [List.append_nil]
    exact .list hfs hst (.digit (Nat.one_le_iff_ne_zero.2 hn₀) hn₉ hm) nofun

theorem begun_opening {fs : List Frame} {es : List Hint} {cs tx : List Char} (hs : Begun false fs es cs)
    (hm : Mark '(' tx) : Begun false (.cluster [] :: fs) es (cs ++ tx) := by
  have hc : Begun false (.cluster [] :: fs) es (cs ++ tx ++ []) := .cluster hs hm Hint.finished_nil
  rwa [List.append_nil] at hc

theorem begun_closing {m : Hint} {ms : List Hint} {fs : List Frame} {es : List Hint} {cs tx : List Char}
    (hs : Begun true (.cluster (m :: ms) :: fs) es cs) (hm : Mark ')' tx) :
    Begun false (complete es (.cluster (m :: ms).reverse) fs).frames
      (complete es (.cluster (m :: ms).reverse) fs).elements (cs ++ tx) := by
  cases hs with
  | cluster hfs hop hms =>
    have hne : (m :: ms).reverse ≠ [] := List.reverse_ne_nil_iff.2 (List.cons_ne_nil m ms)
    rw [List.append_assoc, List.append_assoc, ← List.append_assoc _ _ tx]
    exact begun_complete (h := .cluster (m :: ms).reverse) hfs nofun (.cluster hop hne hms.derive hm)
      (Hint.greedy_cluster.2 hms.greedy)

theorem read_stepSettled {s s' : TagState} {t : Token} {cs tx : List Char} (hs : Begun false s.frames s.elements cs)
    (hp : s.pending = none) (ht : t.HasText tx) (hz : s.AtStar → t ≠ .digit 0) (h : s.stepSettled t = some s') :
    s'.ReadFrom (cs ++ tx) ∧ (s'.AtStar → t = .star) := by
  cases t with
  | underscore =>
    obtain ⟨_, hm, rfl⟩ := ht
    rw [stepSettled] at h
    split at h
    · rename_i depth fs hf
      cases h
      exact readFrom_complete (begun_unknownElement (hf ▸ hs) hm)
    · rename_i hf
      cases h
      exact readFrom_complete (begun_push hs (fun _ d gs hd => hf d gs hd) (.letter .none hm) ⟨rfl, rfl⟩ rfl)
  | simple e =>
    obtain ⟨_, hm, hl, hne⟩ := ht
    cases h
    exact readFrom_complete (begun_push hs (fun he => absurd he hne) (.letter hl hm) (Hint.greedy_letter hl)
      (Hint.endsInBareError_letter hl))
  | quantity q =>
    obtain ⟨_, hm, rfl⟩ := ht
    cases h
    exact ⟨⟨cs, tx, rfl, hs, hm⟩, fun ha => by cases ha.1⟩
  | star =>
    obtain ⟨_, hm, rfl⟩ := ht
    cases h
    exact ⟨readFrom_of_begun hp (begun_star hs hm), fun _ => rfl⟩
  | digit n =>
    obtain ⟨_, hm, hn, rfl⟩ := ht
    rw [stepSettled] at h
    split at h
    · rename_i fs hf
      cases h
      have hn₀ : n ≠ 0 := fun hn => hz ⟨hp, by rw [hf]; rfl⟩ (by rw [hn])
      exact ⟨readFrom_of_begun hp (begun_digit (hf ▸ hs) hn₀ hn hm), fun ha => by cases ha.2⟩
    · cases h
  | error =>
    obtain ⟨_, hm, rfl⟩ := ht
    cases h
    exact ⟨readFrom_of_begun hp (.error hs hm), fun ha => by cases ha.2⟩
  | opening =>
    obtain ⟨_, hm, rfl⟩ := ht
    cases h
    exact ⟨readFrom_of_begun hp (begun_opening hs hm), fun ha => by cases ha.2⟩
  | closing =>
    obtain ⟨_, hm, rfl⟩ := ht
    rw [stepSettled] at h
    have hc := begun_closeError hs
    split at h
    · rename_i m ms fs es pending hcl
      rw [hcl] at hc
      cases h
      exact readFrom_complete (begun_closing hc hm)
    · cases h
  | label label => cases h
  | stray => cases h

/-- One token that is read is part of the text, and leaves a star last only if it is a star. -/
theorem read_step {s s' : TagState} {t : Token} {cs tx : List Char} (hs : s.ReadFrom cs) (ht : t.HasText tx)
    (hz : s.AtStar → t ≠ .digit 0) (h : s.step t = some s') : s'.ReadFrom (cs ++ tx) ∧ (s'.AtStar → t = .star) := by
  by_cases hl : ∃ label, t = .label label
  · obtain ⟨label, rfl⟩ := hl
    unfold step at h
    unfold ReadFrom at hs
    cases hp : s.pending with
    | none =>
      rw [hp] at h
      cases h
    | some q =>
      rw [hp] at h hs
      cases h
      obtain ⟨ds, vs, rfl, hb, hm⟩ := hs
      obtain ⟨op, hop, hlabel, rfl⟩ := ht
      refine readFrom_complete ?_
      rw [List.append_assoc]
      exact begun_quantity hb hm (.label hop hlabel)
  · rw [step_eq fun label hc => hl ⟨label, hc⟩] at h
    refine read_stepSettled hs.settle (pending_settle s) ht (fun ha => hz ?_) h
    cases hp : s.pending with
    | none => rwa [settle_eq_self hp] at ha
    | some q =>
      rw [TagState.settle, hp] at ha
      exact absurd ha (not_atStar_complete _ _ _)

theorem step_stray (s : TagState) : s.step .stray = none := rfl

theorem read_run : ∀ {ls : List Lexeme} {s s' : TagState} {cs rest : List Char}, s.ReadFrom cs →
    Lexeme.scan none rest = ls → depthZeroList? ls = none → (s.AtStar → ∀ l ∈ ls.head?, l.token ≠ .digit 0) →
    s.run ls = .ok s' → ∃ tx bs, rest = tx ++ bs ∧ Blanks bs ∧ s'.ReadFrom (cs ++ tx)
  | [], s, s', cs, rest, hs, hsc, _, _, h => by
    cases h
    exact ⟨[], rest, rfl, blanks_of_scan hsc, by rwa [List.append_nil]⟩
  | l :: ls, s, s', cs, rest, hs, hsc, hd, hz, h => by
    rw [run] at h
    split at h
    · rename_i s₁ h₁
      obtain hst | ⟨tx, rest, rfl, ht, hls⟩ := scan_cons hsc
      · rw [hst, step_stray] at h₁
        cases h₁
      · obtain ⟨hs₁, hstar⟩ := read_step hs ht (fun ha => hz ha l rfl) h₁
        obtain ⟨hd₁, hd₂⟩ := depthZeroList?_cons hd
        obtain ⟨tx', bs, rfl, hbs, hs'⟩ := read_run hs₁ hls.symm hd₂ (fun ha => hd₁ (hstar ha)) h
        exact ⟨tx ++ tx', bs, by rw [List.append_assoc], hbs, by rwa [← List.append_assoc]⟩
    · cases h

theorem finished_of_finish {s : TagState} {es : List Hint} {cs : List Char} (hs : s.ReadFrom cs)
    (h : s.finish = some es) : Finished true es cs := by
  unfold finish at h
  split at h
  · rename_i elements pending hcl
    cases h
    have hb := begun_closeError hs.settle
    rw [hcl] at hb
    cases hb with
    | elements he => exact he
  · cases h

end TagState

/-! ## Tags -/

namespace Hint

/-- A tag that is read derives the elements that it is read as. -/
theorem sentence_of_parse {tag : String} {h : Hint} (hp : parse tag = .ok h) :
    ∃ es, Sentence es (tagBody tag.toList) ∧ AllGreedy es ∧ h = ofElements es := by
  simp only [parse] at hp
  split at hp
  · cases hp
  · rename_i es hes
    split at hp
    · cases hp
    · rename_i hd
      cases hp
      obtain ⟨s, hs, hf⟩ := bind_eq_ok.1 hes
      have h₀ : TagState.ReadFrom {} [] := .elements finished_nil
      obtain ⟨tx, bs, hbody, hbs, hr⟩ := TagState.read_run h₀ rfl hd (fun ha => by cases ha.2) hs
      split at hf
      · rename_i es' hfin
        cases hf
        have he := TagState.finished_of_finish hr hfin
        exact ⟨es, ⟨tx, bs, he.derive, hbs, hbody⟩, he.greedy, rfl⟩
      · cases hf

end Hint

end TagWire
