import TagWire.Proofs.Data.Grid

/-!
# Nested lists and their leaves

`Data.nest` puts leaves together to nested lists, for any shape with as many cells as there are leaves. As a
grid these lists have the same leaves. They do not tell what lengths were meant below an empty level, so that
their shape is the settled one.
-/

namespace TagWire.Data

/-! ## Settled shapes -/

/-- A shape with all lengths below an empty level set to 0. -/
def settle : List Nat → List Nat
  | [] => []
  | n :: s => if n = 0 then List.replicate (s.length + 1) 0 else n :: settle s

theorem settle_zero (s : List Nat) : settle (0 :: s) = List.replicate (s.length + 1) 0 := rfl

@[simp] theorem settle_singleton (n : Nat) : settle [n] = [n] := by
  cases n <;> rfl

theorem settle_pos {n : Nat} {s : List Nat} (h : n ≠ 0) : settle (n :: s) = n :: settle s := if_neg h

@[simp] theorem length_settle : ∀ s : List Nat, (settle s).length = s.length
  | [] => rfl
  | n :: s => by
    by_cases h : n = 0
    · rw [h, settle_zero, List.length_replicate, List.length_cons]
    · rw [settle_pos h, List.length_cons, length_settle s, List.length_cons]

theorem settled_settle : ∀ s : List Nat, Settled (settle s)
  | [] => List.Pairwise.nil
  | n :: s => by
    by_cases h : n = 0
    · rw [h, settle_zero]
      exact List.pairwise_replicate.2 (Or.inr fun _ => rfl)
    · rw [settle_pos h]
      exact List.pairwise_cons.2 ⟨fun _ _ h0 => absurd h0 h, settled_settle s⟩

@[simp] theorem cells_settle : ∀ s : List Nat, cells (settle s) = cells s
  | [] => rfl
  | n :: s => by
    by_cases h : n = 0
    · rw [h, settle_zero, List.replicate_succ, cells_cons, cells_cons, Nat.zero_mul, Nat.zero_mul]
    · rw [settle_pos h, cells_cons, cells_cons, cells_settle s]

@[simp] theorem zero_mem_settle {s : List Nat} : 0 ∈ settle s ↔ 0 ∈ s := by
  rw [← cells_eq_zero_iff, cells_settle, cells_eq_zero_iff]

theorem exists_settle_cons (n : Nat) (s : List Nat) : ∃ s', settle (n :: s) = n :: s' := by
  by_cases h : n = 0
  · exact ⟨List.replicate s.length 0, by rw [h]; rfl⟩
  · exact ⟨settle s, settle_pos h⟩

theorem take_settle : ∀ (s : List Nat) (i : Nat), (settle s).take i = settle (s.take i)
  | [], i => by rw [List.take_nil, settle, List.take_nil]
  | n :: s, 0 => rfl
  | n :: s, i + 1 => by
    by_cases h : n = 0
    · rw [h, settle_zero, List.take_replicate, List.take_succ_cons, settle_zero, List.length_take, Nat.add_min_add_right]
    · rw [settle_pos h, List.take_succ_cons, take_settle s i, List.take_succ_cons, settle_pos h]

theorem dropLast_settle (s : List Nat) : (settle s).dropLast = settle s.dropLast := by
  rw [List.dropLast_eq_take, length_settle, take_settle, ← List.dropLast_eq_take]

/-! ## Pieces -/

theorem exists_pieces {α : Type} {k : Nat} : ∀ {n : Nat} {xs : List α}, xs.length = n * k →
    ∃ pieces : List (List α), pieces.length = n ∧ (∀ p ∈ pieces, p.length = k) ∧ pieces.flatten = xs
  | 0, xs, h => by
    have hx : xs = [] := List.length_eq_zero_iff.1 (by rw [h, Nat.zero_mul])
    exact ⟨[], rfl, by simp, hx.symm⟩
  | n + 1, xs, h => by
    rw [Nat.succ_mul] at h
    have hd : (xs.drop k).length = n * k := by rw [List.length_drop, h, Nat.add_sub_cancel]
    have ht : (xs.take k).length = k := by rw [List.length_take, h, Nat.min_eq_left (Nat.le_add_left _ _)]
    obtain ⟨pieces, hl, hk, hf⟩ := exists_pieces hd
    refine ⟨xs.take k :: pieces, by rw [List.length_cons, hl], List.forall_mem_cons.2 ⟨ht, hk⟩, ?_⟩
    rw [List.flatten_cons, hf, List.take_append_drop]

theorem exists_splitInto {n : Nat} {s : List Nat} {xs : List Data} (h : xs.length = cells (n :: s)) :
    ∃ pieces : List (List Data), pieces.length = n ∧ (∀ p ∈ pieces, p.length = cells s) ∧ pieces.flatten = xs ∧
      splitInto (cells s) n xs [] = pieces := by
  rw [cells_cons] at h
  obtain ⟨pieces, rfl, hk, rfl⟩ := exists_pieces h
  exact ⟨pieces, rfl, hk, rfl, splitInto_flatten hk⟩

/-- Nested lists are a list of nested lists, each with a piece of the leaves. -/
theorem exists_nest {n m : Nat} {s : List Nat} {xs : List Data} (h : xs.length = cells (n :: m :: s)) :
    ∃ pieces : List (List Data), pieces.length = n ∧ (∀ p ∈ pieces, p.length = cells (m :: s)) ∧
      pieces.flatten = xs ∧ nest (n :: m :: s) xs = list (pieces.map (nest (m :: s))) := by
  obtain ⟨pieces, hl, hk, hf, hs⟩ := exists_splitInto h
  exact ⟨pieces, hl, hk, hf, by rw [nest, hs]⟩

/-! ## The grid of nested lists -/

theorem hasShape_nest : ∀ {s : List Nat} {xs : List Data}, s ≠ [] → xs.length = cells s →
    HasShape (settle s) (nest s xs)
  | [], _, h, _ => absurd rfl h
  | [n], xs, _, hx => by
    rw [cells_cons, cells_nil, Nat.mul_one] at hx
    rw [settle_singleton]
    exact ⟨xs, rfl, hx, fun _ _ => trivial⟩
  | n :: m :: s, xs, _, hx => by
    obtain ⟨pieces, rfl, hk, _, hn⟩ := exists_nest hx
    rw [hn]
    by_cases h : pieces.length = 0
    · rw [h, settle_zero, List.length_eq_zero_iff.1 h]
      exact ⟨[], rfl, rfl, fun _ hx => nomatch hx⟩
    · rw [settle_pos h]
      refine ⟨_, rfl, List.length_map _, fun x hx => ?_⟩
      obtain ⟨p, hp, rfl⟩ := List.mem_map.1 hx
      exact hasShape_nest (by simp) (hk p hp)

theorem leavesAt_nest : ∀ {s : List Nat} {xs : List Data}, s ≠ [] → xs.length = cells s →
    leavesAt s.length (nest s xs) = xs
  | [], _, h, _ => absurd rfl h
  | [n], xs, _, _ => by simp [nest, leavesAt, items?, List.flatMap_singleton']
  | n :: m :: s, xs, _, hx => by
    obtain ⟨pieces, _, hk, rfl, hn⟩ := exists_nest hx
    have hp : pieces.map (leavesAt (m :: s).length ∘ nest (m :: s)) = pieces :=
      (List.map_congr_left fun p hp => leavesAt_nest (by simp) (hk p hp)).trans (List.map_id _)
    rw [hn, List.length_cons, leavesAt, items?, Option.getD_some, List.flatMap_def, List.map_map, hp]

/-- Nested lists are a grid with their leaves. -/
theorem grid_nest {s : List Nat} {xs : List Data} (hs : s ≠ []) (hx : xs.length = cells s) :
    (nest s xs).grid s.length = .ok ⟨settle s, xs⟩ := by
  obtain ⟨k, hk⟩ := Nat.exists_eq_add_one_of_ne_zero (mt List.length_eq_zero_iff.1 hs)
  have hg := grid_of_hasShape ((length_settle s).trans hk) (hasShape_nest hs hx) (settled_settle s)
  rw [hk, hg, ← hk, leavesAt_nest hs hx]

/-- The lengths below an empty level make no difference. -/
theorem nest_settle : ∀ {s : List Nat} {xs : List Data}, xs.length = cells s → nest (settle s) xs = nest s xs
  | [], _, _ => rfl
  | [n], xs, _ => by rw [settle_singleton]
  | n :: m :: s, xs, hx => by
    by_cases h : n = 0
    · rw [h, settle_zero]
      rfl
    · obtain ⟨s', hs⟩ := exists_settle_cons m s
      have hc : cells (m :: s') = cells (m :: s) := by rw [← hs, cells_settle]
      obtain ⟨pieces, _, hk, _, hp⟩ := exists_splitInto hx
      rw [settle_pos h, hs, nest, nest, hc, hp, ← hs]
      congr 1
      exact List.map_congr_left fun p hm => nest_settle (hk p hm)

end TagWire.Data
