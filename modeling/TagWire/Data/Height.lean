import TagWire.Data.Grid

/-!
# Height of data

How deep a value is nested. The leaves of a grid are less deep than the value, so that what descends to them
comes to an end.
-/

namespace TagWire

namespace Data

mutual

/-- The number of levels of a value. The items of an array are a level of their own. -/
def height : Data → Nat
  | tuple ms => heightAll ms + 1
  | list xs => heightAll xs + 1
  | array _ | valueArray _ _ => 1
  | error _ _ (some p) => p.height + 1
  | _ => 0

def heightAll : List Data → Nat
  | [] => 0
  | d :: ds => max d.height (heightAll ds)

end

theorem heightAll_append (as bs : List Data) : heightAll (as ++ bs) = max (heightAll as) (heightAll bs) := by
  induction as with
  | nil => simp [heightAll]
  | cons a as ih => simp [heightAll, ih, Nat.max_assoc]

theorem height_le_of_mem {d : Data} {ds : List Data} (h : d ∈ ds) : d.height ≤ heightAll ds := by
  induction ds with
  | nil => cases h
  | cons a as ih =>
    rcases List.mem_cons.1 h with rfl | h
    · exact Nat.le_max_left _ _
    · exact Nat.le_trans (ih h) (Nat.le_max_right _ _)

theorem heightAll_map_eq_zero {α : Type} (f : α → Data) (hf : ∀ a, (f a).height = 0) (as : List α) :
    heightAll (as.map f) = 0 := by
  induction as with
  | nil => rfl
  | cons a as ih => simp [heightAll, ih, hf]

theorem heightAll_items {d : Data} {items : List Data} (h : d.items? = some items) : heightAll items < d.height := by
  cases d <;> simp [items?] at h
  case list xs => subst h; simp [height]
  case array a =>
    subst h
    cases a <;> simp only [NumArray.items, height] <;> rw [heightAll_map_eq_zero _ fun _ => rfl] <;> decide
  case valueArray xs unit =>
    subst h
    simp only [height]
    rw [heightAll_map_eq_zero _ fun _ => rfl]
    decide

theorem leaves_meet {g g' : Grid} {level length : Nat} (h : g.meet level length = .ok g') : g'.leaves = g.leaves := by
  unfold Grid.meet at h
  split at h
  · cases h; rfl
  · split at h <;> simp_all

theorem heightAll_addLeaves {g : Grid} {items : List Data} {n : Nat} (hg : heightAll g.leaves ≤ n)
    (hi : heightAll items ≤ n) : heightAll (g.addLeaves items).leaves ≤ n := by
  simp only [Grid.addLeaves, heightAll_append]
  omega

mutual

theorem heightAll_walk {depth n : Nat} : (d : Data) → (level : Nat) → (g g' : Grid) →
    d.walk depth level g = .ok g' → heightAll g.leaves ≤ n → d.height ≤ n + 1 → heightAll g'.leaves ≤ n
  | list items, level, g, g', h, hg, hd => by
    simp only [height] at hd
    unfold walk at h
    split at h
    · cases h
    · rename_i g₁ hm
      rw [← leaves_meet hm] at hg
      split at h
      · cases h
        exact heightAll_addLeaves hg (by omega)
      · exact heightAll_walkAll items _ _ _ h hg (by omega)
  | none, _, _, _, h, _, _ | bool _, _, _, _, h, _, _ | int _, _, _, _, h, _, _ | word _, _, _, _, h, _, _
  | bytes _, _, _, _, h, _, _ | text _, _, _, _, h, _, _ | time _, _, _, _, h, _, _ | float _, _, _, _, h, _, _
  | complex _, _, _, _, h, _, _ | value _ _, _, _, _, h, _, _ | complexValue _ _, _, _, _, h, _, _
  | tuple _, _, _, _, h, _, _ | error _ _ _, _, _, _, h, _, _ => by
    simp [walk, items?] at h
  | array a, level, g, g', h, hg, hd => by
    have hi := heightAll_items (d := array a) rfl
    unfold walk at h
    simp only [items?] at h
    split at h
    · cases h
    · rename_i g₁ hm
      rw [← leaves_meet hm] at hg
      split at h
      · cases h
        exact heightAll_addLeaves hg (by omega)
      · split at h
        · cases h; exact hg
        · cases h
  | valueArray xs unit, level, g, g', h, hg, hd => by
    have hi := heightAll_items (d := valueArray xs unit) rfl
    unfold walk at h
    simp only [items?] at h
    split at h
    · cases h
    · rename_i g₁ hm
      rw [← leaves_meet hm] at hg
      split at h
      · cases h
        exact heightAll_addLeaves hg (by omega)
      · split at h
        · cases h; exact hg
        · cases h

theorem heightAll_walkAll {depth n : Nat} : (ds : List Data) → (level : Nat) → (g g' : Grid) →
    walkAll depth level g ds = .ok g' → heightAll g.leaves ≤ n → heightAll ds ≤ n + 1 → heightAll g'.leaves ≤ n
  | [], _, _, _, h, hg, _ => by cases h; exact hg
  | d :: ds, level, g, g', h, hg, hd => by
    simp only [heightAll] at hd
    unfold walkAll at h
    split at h
    · cases h
    · rename_i g₁ h₁
      exact heightAll_walkAll ds _ _ _ h (heightAll_walk d _ _ _ h₁ hg (by omega)) (by omega)

end

theorem height_pos_of_walk {depth level : Nat} {d : Data} {g g' : Grid} (h : d.walk depth level g = .ok g') :
    0 < d.height := by
  cases d <;> simp_all [walk, items?, height]

/-- The leaves of a grid are less deep than the value. -/
theorem heightAll_grid {d : Data} {depth : Nat} {g : Grid} (h : d.grid depth = .ok g) :
    heightAll g.leaves < d.height := by
  unfold grid at h
  cases hw : d.walk depth 0 {} with
  | error e => simp [hw, Except.map] at h
  | ok g₁ =>
    simp only [hw, Except.map, Except.ok.injEq] at h
    subst h
    have hp := height_pos_of_walk hw
    have := heightAll_walk (n := d.height - 1) d _ _ _ hw (by simp [heightAll]) (by omega)
    simp only [Grid.resize]
    omega

end Data

end TagWire
