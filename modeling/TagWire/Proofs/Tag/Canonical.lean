import TagWire.Proofs.Tag.Language

/-!
# Canonical tags

Many tags are read as one hint, and the text of the hint is one of them. What can be read from tags is characterized
without any tag: it can be spelled, and nothing in it would be read differently. Types that are ambiguous are those
whose text is read as another type.
-/

namespace TagWire

namespace Hint

theorem greedy_ofElements : ∀ {es : List Hint}, AllGreedy es → (ofElements es).Greedy
  | [], _ => ⟨rfl, rfl⟩
  | [_], h => (allGreedy_cons.1 h).1
  | _ :: _ :: _, h => greedy_cluster.2 h

theorem greedy_of_parse {tag : String} {h : Hint} (hp : parse tag = .ok h) : h.Greedy := by
  obtain ⟨es, -, hg, rfl⟩ := parse_eq_ok.1 hp
  exact greedy_ofElements hg

theorem parse_text_of_greedy {h : Hint} (hs : h.Spelled) (hg : h.Greedy) : parse h.text = .ok h := by
  rw [parse_text hs, reread_eq_self_iff.2 hg]

/-- The hints that tags are read as: depths are from one to nine, clusters have members, labels are plain, no list has
empty elements, and no element ends in a bare error that the next one would complete. -/
theorem exists_parse_iff {h : Hint} : (∃ tag, parse tag = .ok h) ↔ h.Spelled ∧ h.Greedy := by
  constructor
  · rintro ⟨tag, hp⟩
    exact ⟨spelled_of_parse hp, greedy_of_parse hp⟩
  · rintro ⟨hs, hg⟩
    exact ⟨h.text, parse_text_of_greedy hs hg⟩

theorem text_injective {h g : Hint} (hh : h.Spelled ∧ h.Greedy) (hg : g.Spelled ∧ g.Greedy) (he : h.text = g.text) :
    h = g := by
  have hp := parse_text_of_greedy hh.1 hh.2
  rw [he, parse_text_of_greedy hg.1 hg.2] at hp
  cases hp
  rfl

end Hint

/-- Whatever a tag is read as, the text of that is read as the same. -/
theorem parse_text_of_parse (tag : String) :
    (∀ h, Hint.parse tag = .ok h → Hint.parse h.text = .ok h) ∧
    (∀ t, Ty.parse tag = .ok t → Ty.parse t.text = .ok t ∧ t.printsAmbiguously = false) := by
  have hint : ∀ h, Hint.parse tag = .ok h → Hint.parse h.text = .ok h := fun h hp =>
    Hint.parse_text_of_greedy (Hint.spelled_of_parse hp) (Hint.greedy_of_parse hp)
  refine ⟨hint, fun t ht => ?_⟩
  have hp := Ty.parse_eq_ok.1 ht
  refine ⟨Ty.parse_eq_ok.2 (hint _ hp), ?_⟩
  rw [← Ty.printsAmbiguously_ofTy]
  exact (Hint.greedy_of_parse hp).error

/-- Blanks, the depth 1 and the comment are not in the text. -/
theorem parse_text_of_parse_list :
    let t : Ty := .cluster [.list (some (.error (some .int))) 1, .list .none 2, .value (.named "m")]
    Ty.parse " * 1 E i *2_ v[ m ]: x" = .ok t ∧ t.text = "(*Ei*2_v[m])" ∧ Ty.parse t.text = .ok t ∧
      Hint.parse (Hint.ofTy t).text = .ok (Hint.ofTy t) ∧ t.printsAmbiguously = false := by
  intro t
  have ht : Ty.parse " * 1 E i *2_ v[ m ]: x" = .ok t := by decide
  obtain ⟨hint, type⟩ := parse_text_of_parse " * 1 E i *2_ v[ m ]: x"
  exact ⟨ht, by decide, (type t ht).1, hint _ (Ty.parse_eq_ok.1 ht), (type t ht).2⟩

/-! ## Ambiguous types -/

/-- The text of a type is always read as a type, and as the type itself exactly if no cluster member other than the last
ends in a bare error. -/
theorem parse_text_iff_unambiguous {t : Ty} (hs : t.Spelled) (he : t.hasEmptyElement = false) :
    (∃ u, Ty.parse t.text = .ok u) ∧ (Ty.parse t.text = .ok t ↔ t.printsAmbiguously = false) := by
  refine ⟨Ty.exists_parse_text hs, ?_⟩
  rw [Ty.parse_text_iff_greedy hs, ← Ty.printsAmbiguously_ofTy]
  exact ⟨fun h => h.error, fun ha => ⟨ha, he⟩⟩

/-- Two types with the text `(*Eiw)`. It is read as the first of them, in which the error has a payload. -/
theorem parse_text_iff_unambiguous_errors :
    let t : Ty := .cluster [.list (some (.error (some .int))) 1, .word]
    let u : Ty := .cluster [.list (some (.error none)) 1, .int, .word]
    (t.Spelled ∧ t.hasEmptyElement = false ∧ t.printsAmbiguously = false ∧ Ty.parse t.text = .ok t) ∧
      (u.Spelled ∧ u.hasEmptyElement = false ∧ u.printsAmbiguously = true ∧ Ty.parse u.text ≠ .ok u ∧
        ∃ v, Ty.parse u.text = .ok v) := by
  intro t u
  have ht : t.Spelled := ⟨nofun, ⟨by decide, trivial⟩, trivial, trivial⟩
  have hu : u.Spelled := ⟨nofun, ⟨by decide, trivial⟩, trivial, trivial, trivial⟩
  obtain ⟨hread, hself⟩ := parse_text_iff_unambiguous hu rfl
  exact ⟨⟨ht, rfl, rfl, (parse_text_iff_unambiguous ht rfl).2.2 rfl⟩, hu, rfl, rfl, mt hself.1 nofun, hread⟩

end TagWire
