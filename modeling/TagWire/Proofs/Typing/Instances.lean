import TagWire.Proofs.Tag.Language
import TagWire.Proofs.Typing.Joining
import TagWire.Proofs.Typing.Stages

/-!
# Instances of the hint

Where every unit stands for itself only, the type that a hint gives a value is an instance of the hint up to what the
type leaves open. It is an instance as it stands if the hint has no wildcard, since then the hint fills in all of it,
and also if nothing is open in the end.
-/

namespace TagWire

namespace Hint

/-! ## Up to what is open -/

mutual

/-- A type is an instance of a hint, except that elements and payloads that the hint asks for may be left open. -/
def Suits : Hint → Ty → Prop
  | wildcard, _ => True
  | none, .none | bool, .bool | int, .int | word, .word | str, .str | time, .time => True
  | value h, .value u | complex h, .complex u => covers h u = true
  | cluster hs, .cluster ts => AllSuit hs ts
  | list (some h) d, .list (some t) e => d = e ∧ h.Suits t
  | list _ d, .list .none e => d = e
  | error (some h), .error (some t) => h.Suits t
  | error _, .error .none => True
  | _, _ => False

def AllSuit : List Hint → List Ty → Prop
  | [], [] => True
  | h :: hs, t :: ts => h.Suits t ∧ AllSuit hs ts
  | _, _ => False

end

variable {h : Hint} {t : Ty} {depth : Nat}

theorem AllSuit.length_eq : {hs : List Hint} → {ts : List Ty} → AllSuit hs ts → ts.length = hs.length
  | [], [], _ => rfl
  | _ :: hs, _ :: ts, ⟨_, h⟩ => by rw [List.length_cons, List.length_cons, AllSuit.length_eq h]

theorem suits_cluster {ts : List Ty} (hs : h.Suits (.cluster ts)) :
    h = wildcard ∨ ∃ ms, h = cluster ms ∧ AllSuit ms ts := by
  cases h with
  | cluster ms => exact .inr ⟨ms, rfl, hs⟩
  | wildcard => exact .inl rfl
  | list e _ => cases e <;> exact hs.elim
  | error p => cases p <;> exact hs.elim
  | _ => exact hs.elim

theorem suits_list (hs : h.Suits (.list (some t) depth)) :
    h = wildcard ∨ ∃ m, h = list (some m) depth ∧ m.Suits t := by
  cases h with
  | list e _ =>
    cases e with
    | none => exact hs.elim
    | some m =>
      obtain ⟨rfl, hs⟩ := hs
      exact .inr ⟨m, rfl, hs⟩
  | wildcard => exact .inl rfl
  | error p => cases p <;> exact hs.elim
  | _ => exact hs.elim

theorem suits_error (hs : h.Suits (.error (some t))) : h = wildcard ∨ ∃ m, h = error (some m) ∧ m.Suits t := by
  cases h with
  | error p =>
    cases p with
    | none => exact hs.elim
    | some m => exact .inr ⟨m, rfl, hs⟩
  | wildcard => exact .inl rfl
  | list e _ => cases e <;> exact hs.elim
  | _ => exact hs.elim

theorem cluster_suits {hs : List Hint} : (cluster hs).Suits t ↔ ∃ ts, t = .cluster ts ∧ AllSuit hs ts := by
  constructor
  · intro h
    cases t with
    | cluster ts => exact ⟨ts, rfl, h⟩
    | _ => exact h.elim
  · rintro ⟨ts, rfl, h⟩
    exact h

theorem list_suits : (list (some h) depth).Suits t ↔ ∃ r, t = .list r depth ∧ ∀ u ∈ r, h.Suits u := by
  constructor
  · intro hs
    cases t with
    | list r _ =>
      cases r with
      | none =>
        obtain rfl := hs
        exact ⟨_, rfl, fun _ hn => by cases hn⟩
      | some u =>
        obtain ⟨rfl, hs⟩ := hs
        refine ⟨_, rfl, ?_⟩
        rintro _ ⟨⟩
        exact hs
    | _ => exact hs.elim
  · rintro ⟨_ | u, rfl, hs⟩
    · exact rfl
    · exact ⟨rfl, hs u rfl⟩

theorem error_suits : (error (some h)).Suits t ↔ ∃ r, t = .error r ∧ ∀ u ∈ r, h.Suits u := by
  constructor
  · intro hs
    cases t with
    | error r =>
      refine ⟨r, rfl, ?_⟩
      rintro u ⟨⟩
      exact hs
    | _ => exact hs.elim
  · rintro ⟨_ | u, rfl, hs⟩
    · trivial
    · exact hs u rfl

end Hint

namespace Ty

open Hint (Suits AllSuit)

mutual

theorem Joins.suits {a b c : Ty} {h : Hint} (hj : Joins a b c) (ha : h.Suits a) (hb : h.Suits b) : h.Suits c := by
  match hj with
  | .refl => exact ha
  | .cluster hjs =>
    rcases Hint.suits_cluster ha with rfl | ⟨ms, rfl, hms⟩
    · trivial
    · exact hjs.allSuit hms hb
  | .elem hj =>
    rcases Hint.suits_list ha with rfl | ⟨m, rfl, hm⟩
    · trivial
    · exact ⟨rfl, hj.suits hm hb.2⟩
  | .payload hj =>
    rcases Hint.suits_error ha with rfl | ⟨m, rfl, hm⟩
    · trivial
    · exact hj.suits (h := m) hm hb
  | .unknownLeft => exact hb
  | .unknownRight => exact ha
  | .bareLeft => exact hb
  | .bareRight => exact ha

theorem JoinsAll.allSuit {as bs cs : List Ty} {hs : List Hint} (hj : JoinsAll as bs cs) (ha : AllSuit hs as)
    (hb : AllSuit hs bs) : AllSuit hs cs := by
  match hj, hs with
  | .nil, _ => exact ha
  | .cons hj hjs, h :: hs => exact ⟨hj.suits ha.1 hb.1, hjs.allSuit ha.2 hb.2⟩
  | .cons _ _, [] => exact ha.elim

end

end Ty

/-- The unit of data is the one that is asked for, if any is. -/
theorem UnitMark.covers_of_ofData {u m : UnitMark} {l : String} (h : u.ofData .exact l = .ok m) :
    Hint.covers u m = true := by
  unfold ofData at h
  split at h
  · cases u <;> cases h <;> rfl
  · rename_i hl
    cases u with
    | unspecified => rfl
    | dimensionless => cases h
    | named want =>
      simp only [Units.exact, decide_eq_true_eq] at h
      split at h <;> cases h
      rename_i he
      simp [Hint.covers, ofLabel, ← he, hl]

namespace Hint

mutual

theorem fit_suits : (h : Hint) → ∀ {d t}, h.fit .exact d = .ok t → h.Suits t
  | value u, d, t, h => by
    obtain ⟨x, l, m, _, hm, rfl⟩ := fit_value.1 h
    exact UnitMark.covers_of_ofData hm
  | complex u, d, t, h => by
    obtain ⟨z, l, m, _, hm, rfl⟩ := fit_complex.1 h
    exact UnitMark.covers_of_ofData hm
  | cluster hs, d, t, h => by
    obtain ⟨ds, ts, rfl, hl, hts, rfl⟩ := fit_cluster.1 h
    exact fitAll_suit hs hl hts
  | list (some e) depth, d, t, h => by
    obtain ⟨g, r, _, hr, rfl⟩ := fit_list.1 h
    exact list_suits.2 ⟨r, rfl, joinItems_preserves (P := e.Suits) (fun ha hb hu => (Ty.unify_joins hu).suits ha hb)
      (fun x _ u hu => fit_suits e hu) (fun _ hn => by cases hn) hr⟩
  | list .none depth, d, t, h => by
    obtain ⟨_, _, _, rfl⟩ := fit_emptyList.1 h
    exact rfl
  | error (some x), d, t, h => by
    obtain ⟨_, _, ⟨_, rfl⟩ | ⟨_, u, _, hu, rfl⟩⟩ := fit_error.1 h
    · trivial
    · exact fit_suits x hu
  | error .none, d, t, h => by
    obtain ⟨_, _, _, rfl⟩ := fit_bareError.1 h
    trivial
  | none, d, t, h => (fit_none.1 h).2 ▸ trivial
  | bool, d, t, h => (fit_bool.1 h).2 ▸ trivial
  | int, d, t, h => (fit_int.1 h).2 ▸ trivial
  | word, d, t, h => (fit_word.1 h).2 ▸ trivial
  | str, d, t, h => (fit_str.1 h).2 ▸ trivial
  | time, d, t, h => (fit_time.1 h).2 ▸ trivial
  | wildcard, d, t, h => trivial

theorem fitAll_suit : (hs : List Hint) → ∀ {ds ts}, ds.length = hs.length → fitAll .exact hs ds = .ok ts →
    AllSuit hs ts
  | [], [], ts, _, h => by
    rw [fitAll] at h
    · cases h
      trivial
    · simp
  | m :: ms, d :: ds, ts, hl, h => by
    obtain ⟨u, us, hu, hus, rfl⟩ := fitAll_cons.1 h
    exact ⟨fit_suits m hu, fitAll_suit ms (by simpa using hl) hus⟩
  | [], _ :: _, _, hl, _ => by cases hl
  | _ :: _, [], _, hl, _ => by cases hl

end

end Hint

/-! ## Nothing is open -/

namespace Ty

mutual

/-- Every error in a type has a payload. -/
def PayloadsGiven : Ty → Prop
  | cluster ts => AllPayloadsGiven ts
  | list (some e) _ => e.PayloadsGiven
  | error (some p) => p.PayloadsGiven
  | error .none => False
  | _ => True

def AllPayloadsGiven : List Ty → Prop
  | [] => True
  | t :: ts => t.PayloadsGiven ∧ AllPayloadsGiven ts

end

end Ty

namespace Hint

/-- A hint and a type leave nothing open: the hint has no wildcard, or nothing is open in the type. -/
def Decides (h : Hint) (t : Ty) : Prop := h.hasWildcard = false ∨ t.isConcrete = true ∧ t.PayloadsGiven

def AllDecide (hs : List Hint) (ts : List Ty) : Prop :=
  anyHasWildcard hs = false ∨ Ty.areConcrete ts = true ∧ Ty.AllPayloadsGiven ts

theorem allDecide_cons {h : Hint} {hs : List Hint} {t : Ty} {ts : List Ty} (hd : AllDecide (h :: hs) (t :: ts)) :
    h.Decides t ∧ AllDecide hs ts := by
  rcases hd with hw | ⟨hc, hp, hps⟩
  · rw [anyHasWildcard, Bool.or_eq_false_iff] at hw
    exact ⟨.inl hw.1, .inl hw.2⟩
  · rw [Ty.areConcrete, Bool.and_eq_true] at hc
    exact ⟨.inr ⟨hc.1, hp⟩, .inr ⟨hc.2, hps⟩⟩

mutual

theorem isSome_withoutData? : (h : Hint) → h.hasWildcard = false → h.withoutData?.isSome = true
  | cluster hs, hw => by rw [withoutData?, Option.isSome_map, isSome_withoutDatas? hs hw]
  | error (some p), hw => by rw [withoutData?, Option.isSome_map, isSome_withoutData? p hw]
  | value u, _ | complex u, _ => by cases u <;> rfl
  | none, _ | bool, _ | int, _ | word, _ | str, _ | time, _ | list (some _) _, _ | list .none _, _
  | error .none, _ => rfl
  | wildcard, hw => by cases hw

theorem isSome_withoutDatas? : (hs : List Hint) → anyHasWildcard hs = false → (withoutDatas? hs).isSome = true
  | [], _ => rfl
  | h :: hs, hw => by
    rw [anyHasWildcard, Bool.or_eq_false_iff] at hw
    obtain ⟨t, ht⟩ := Option.isSome_iff_exists.1 (isSome_withoutData? h hw.1)
    obtain ⟨ts, hts⟩ := Option.isSome_iff_exists.1 (isSome_withoutDatas? hs hw.2)
    rw [withoutDatas?, ht, hts]
    rfl

end

variable {h : Hint}

/-- An element type that is decided is known. -/
theorem exists_of_decides_list {r : Option Ty} {depth : Nat} (hr : h.hasWildcard = false → r.isSome = true)
    (hd : (list (some h) depth).Decides (.list r depth)) : ∃ t, r = some t ∧ h.Decides t := by
  cases r with
  | none =>
    rcases hd with hw | ⟨hc, _⟩
    · cases hr hw
    · cases hc
  | some t => exact ⟨t, rfl, hd⟩

theorem exists_of_decides_error {r : Option Ty} (hr : h.hasWildcard = false → r.isSome = true)
    (hd : (error (some h)).Decides (.error r)) : ∃ t, r = some t ∧ h.Decides t := by
  cases r with
  | none =>
    rcases hd with hw | ⟨_, hp⟩
    · cases hr hw
    · exact hp.elim
  | some t => exact ⟨t, rfl, hd⟩

mutual

theorem admits_withoutData? : (h : Hint) → ∀ {t}, h.withoutData? = some t → h.Decides t → h.admits t = true
  | value u, t, ht, _ | complex u, t, ht, _ => by
    cases u <;> cases ht <;> simp [admits, covers]
  | cluster hs, t, ht, hd => by
    rw [withoutData?, Option.map_eq_some_iff] at ht
    obtain ⟨ts, hts, rfl⟩ := ht
    exact admitsAll_withoutDatas? hs hts hd
  | list (some e) depth, t, ht, hd => by
    cases ht
    obtain ⟨u, hu, hd⟩ := exists_of_decides_list e.isSome_withoutData? hd
    rw [hu, admits, admits_withoutData? e hu hd]
    simp
  | error (some p), t, ht, hd => by
    rw [withoutData?, Option.map_eq_some_iff] at ht
    obtain ⟨u, hu, rfl⟩ := ht
    exact admits_withoutData? p hu hd
  | list .none depth, t, ht, _ => by
    cases ht
    simp [admits]
  | none, t, ht, _ | bool, t, ht, _ | int, t, ht, _ | word, t, ht, _ | str, t, ht, _ | time, t, ht, _
  | error .none, t, ht, _ => by
    cases ht
    rfl
  | wildcard, t, ht, _ => by cases ht

theorem admitsAll_withoutDatas? : (hs : List Hint) → ∀ {ts}, withoutDatas? hs = some ts → AllDecide hs ts →
    admitsAll hs ts = true
  | [], ts, hts, _ => by
    cases hts
    rfl
  | h :: hs, ts, hts, hd => by
    rw [withoutDatas?] at hts
    split at hts <;> cases hts
    rename_i u us hu hus
    obtain ⟨hd, hds⟩ := allDecide_cons hd
    rw [admitsAll, admits_withoutData? h hu hd, admitsAll_withoutDatas? hs hus hds]
    rfl

end

mutual

/-- A type that suits a hint is an instance of it once the hint has filled in the rest. -/
theorem admits_fillFrom : (h : Hint) → ∀ {t}, h.Suits t → h.Decides (t.fillFrom h) → h.admits (t.fillFrom h) = true
  | cluster hs, t, h, hd => by
    obtain ⟨ts, rfl, hts⟩ := cluster_suits.1 h
    rw [Ty.fillFrom, if_pos hts.length_eq] at hd ⊢
    exact admitsAll_fillAllFrom hs hts hd
  | list (some e) depth, t, h, hd => by
    obtain ⟨_ | u, rfl, hr⟩ := list_suits.1 h
    · obtain ⟨u, hu, hd⟩ := exists_of_decides_list e.isSome_withoutData? hd
      rw [Ty.fillFrom, hu, admits, admits_withoutData? e hu hd]
      simp
    · rw [Ty.fillFrom, admits, admits_fillFrom e (hr u rfl) hd]
      simp
  | error (some p), t, h, hd => by
    obtain ⟨_ | u, rfl, hr⟩ := error_suits.1 h
    · obtain ⟨u, hu, hd⟩ := exists_of_decides_error p.isSome_withoutData? hd
      rw [Ty.fillFrom, hu, admits, admits_withoutData? p hu hd]
    · exact admits_fillFrom p (hr u rfl) hd
  | wildcard, t, _, _ => by rw [admits]
  -- nothing can be open under any other hint
  | none, t, h, _ | bool, t, h, _ | int, t, h, _ | word, t, h, _ | str, t, h, _ | time, t, h, _
  | value _, t, h, _ | complex _, t, h, _ | error .none, t, h, _ => by
    cases t with
    | list r _ => cases r <;> exact h.elim
    | error r => cases r <;> first | exact h.elim | rfl
    | _ => first | exact h.elim | exact h | rfl
  | list .none depth, t, h, _ => by
    cases t with
    | list r _ =>
      cases r with
      | none =>
        obtain rfl := h
        simp [Ty.fillFrom, admits]
      | some u => exact h.elim
    | _ => exact h.elim

theorem admitsAll_fillAllFrom : (hs : List Hint) → ∀ {ts}, AllSuit hs ts → AllDecide hs (Ty.fillAllFrom ts hs) →
    admitsAll hs (Ty.fillAllFrom ts hs) = true
  | [], [], _, _ => by
    rw [Ty.fillAllFrom]
    · rfl
    · simp
  | h :: hs, t :: ts, ⟨hs₁, hs₂⟩, hd => by
    rw [Ty.fillAllFrom] at hd ⊢
    obtain ⟨hd, hds⟩ := allDecide_cons hd
    rw [admitsAll, admits_fillFrom h hs₁ hd, admitsAll_fillAllFrom hs hs₂ hds]
    rfl

end

end Hint

/-- The type of a value under a hint is an instance of the hint, if the hint has no wildcard or the type leaves nothing
open. -/
theorem admits_of_resolve {d : Data} {h : Hint} {t : Ty} (hr : resolve .exact d [h] = .ok t) :
    (h.hasWildcard = false → h.admits t = true) ∧ (t.isConcrete = true → t.PayloadsGiven → h.admits t = true) := by
  obtain ⟨u, hu, rfl, _⟩ := Hint.accept_eq_ok.1 hr
  have hs := h.fit_suits hu
  exact ⟨fun hw => h.admits_fillFrom hs (.inl hw), fun hc hp => h.admits_fillFrom hs (.inr ⟨hc, hp⟩)⟩

/-- The hint `(*vEi)` has no wildcard, and with `(*?E?)` it is the value that leaves nothing open. -/
theorem admits_of_resolve_tuples :
    let x : Data := .tuple [.list [], .error 3 "x" none]
    let y : Data := .tuple [.list [.value default "m"], .error 4 "y" (some (.int 7))]
    let h : Hint := .cluster [.list (some (.value .unspecified)) 1, .error (some .int)]
    let w : Hint := .cluster [.list (some .wildcard) 1, .error (some .wildcard)]
    let t : Ty := .cluster [.list (some (.value .dimensionless)) 1, .error (some .int)]
    let u : Ty := .cluster [.list (some (.value (.named "m"))) 1, .error (some .int)]
    (resolve .exact x [h] = .ok t ∧ h.hasWildcard = false ∧ h.admits t = true) ∧
      (resolve .exact y [w] = .ok u ∧ u.isConcrete = true ∧ u.PayloadsGiven ∧ w.admits u = true) := by
  intro x y h w t u
  have hx : resolve .exact x [h] = .ok t := rfl
  have hy : resolve .exact y [w] = .ok u := rfl
  have hp : u.PayloadsGiven := ⟨trivial, trivial, trivial⟩
  exact ⟨⟨hx, rfl, (admits_of_resolve hx).1 rfl⟩, ⟨hy, rfl, hp, (admits_of_resolve hy).2 rfl hp⟩⟩

end TagWire
