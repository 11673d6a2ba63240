import TagWire.Proofs.Data.Cells
import TagWire.Proofs.Wire.Denotation

/-!
# List cells are paid for

Each list cell of a decoded value takes up a byte or one of the free cells, apart from the empty lists in a grid
that is empty before its last level: `enterShape` counts the cells of the levels above the last one, and there are
none.
-/

namespace TagWire

/-- The empty lists in a grid that no free cells are taken for. -/
def uncharged (shape : List Nat) : Nat := if 0 ∈ shape.dropLast then Data.emptyRows shape else 0

/-- The free cells that a list takes cover its empty rows and its elements without bytes, apart from the uncharged
rows. -/
theorem emptyRows_le (free : Bool) {s : List Nat} (hs : s ≠ []) :
    (Data.emptyRows s + if free then Data.cells s else 0) ≤ freeCellsOf free s + uncharged (Data.settle s) := by
  have hd : 0 ∈ (Data.settle s).dropLast ↔ 0 ∈ s.dropLast := by rw [Data.dropLast_settle, Data.zero_mem_settle]
  simp only [uncharged, hd, Data.emptyRows_settle, freeCellsOf]
  by_cases h0 : 0 ∈ s
  · rw [if_pos h0, Data.cells_eq_zero_iff.2 h0, ite_self, Nat.add_zero]
    by_cases hr : 0 ∈ s.dropLast
    · rw [if_pos hr]
      exact Nat.le_add_left _ _
    · -- only the last level is empty
      obtain ⟨rows, n, rfl⟩ := List.eq_nil_or_concat' s |>.resolve_left hs
      rw [List.dropLast_concat] at hr ⊢
      obtain rfl : n = 0 := by simpa [hr, eq_comm] using h0
      exact Nat.le_add_right_of_le (Data.emptyRows_concat_zero_le hr)
  · rw [if_neg h0, Data.emptyRows_of_pos h0, Nat.zero_add]
    exact Nat.le_add_right _ _

namespace Ty

variable {order : ByteOrder}

def unchargedOfLists (ls : List (Option Ty × List Nat)) : Nat := (ls.map fun l => uncharged l.2).sum

/-- The empty lists of a value that no free cells are taken for. -/
def unchargedRows (t : Ty) (d : Data) : Nat := unchargedOfLists (t.lists d)

theorem unchargedOfLists_append (ls ms : List (Option Ty × List Nat)) :
    unchargedOfLists (ls ++ ms) = unchargedOfLists ls + unchargedOfLists ms := by
  simp [unchargedOfLists]

theorem unchargedRows_assemble {e : Ty} {shape : List Nat} {leaves : List (Data × Nat)} {parts : List (List UInt8)}
    (hs : shape ≠ []) (hl : leaves.length = Data.cells shape)
    (hd : List.Forall₂ (fun x p => e.Denotes order p x.1 x.2) leaves parts) :
    (list (some e) shape.length).unchargedRows (e.assemble shape (leaves.map Prod.fst)) =
      uncharged (Data.settle shape) + (leaves.map fun x => e.unchargedRows x.1).sum := by
  rw [unchargedRows, lists, grid_assemble hs hl hd]
  simp only [unchargedOfLists, List.map_cons, List.sum_cons]
  rw [List.flatMap_map, List.map_flatMap, List.flatMap_def, List.sum_flatten, List.map_map]
  rfl

/-! ## Decoded values -/

theorem sum_cellCount_le {e : Ty} {leaves : List (Data × Nat)} {parts : List (List UInt8)}
    (h : List.Forall₂ (fun x p => x.1.cellCount + min 1 e.minSize ≤ p.length + x.2 + e.unchargedRows x.1) leaves parts) :
    (leaves.map fun x => x.1.cellCount).sum + leaves.length * min 1 e.minSize ≤
      parts.flatten.length + (leaves.map Prod.snd).sum + (leaves.map fun x => e.unchargedRows x.1).sum := by
  induction h with
  | nil => simp
  | cons hx _ ih =>
    simp only [List.map_cons, List.sum_cons, List.length_cons, List.flatten_cons, List.length_append, Nat.succ_mul]
    omega

theorem cellCount_le_of_eq_zero {t : Ty} {bs : List UInt8} {d : Data} {n : Nat} (h0 : d.cellCount = 0)
    (hd : t.Denotes order bs d n) : d.cellCount + min 1 t.minSize ≤ bs.length + n + t.unchargedRows d := by
  have hm := minSize_le_of_denotes t hd
  omega

theorem cellCount_ofValue (x : Double) (label : String) : (Data.ofValue x label).cellCount = 0 := by
  unfold Data.ofValue
  split <;> simp [Data.cellCount]

theorem cellCount_ofComplex (z : Complex) (label : String) : (Data.ofComplex z label).cellCount = 0 := by
  unfold Data.ofComplex
  split <;> simp [Data.cellCount]

theorem cellCount_of_gather {e : Ty} {xs : List Data} {a : Data} (h : e.gather? xs = some a) : a.cellCount = 0 := by
  unfold gather? at h
  split at h <;> cases h
  · simp [Data.cellCount]
  · simp [Data.cellCount]
  · unfold Data.ofValues
    split <;> simp [Data.cellCount]
  · simp [Data.cellCount]
  · simp [Data.cellCount]

theorem cellCount_assemble_le {e : Ty} {shape : List Nat} {xs : List Data} (hs : shape ≠ [])
    (hl : xs.length = Data.cells shape) :
    (e.assemble shape xs).cellCount ≤ Data.emptyRows shape + xs.length + (xs.map Data.cellCount).sum := by
  rcases assemble_cases e shape xs with ⟨k, a, rfl, ha, he⟩ | ⟨_, he⟩
  · rw [he, cellCount_of_gather ha]
    exact Nat.zero_le _
  · rw [he, Data.cellCount_nest hs hl, Nat.add_assoc]
    exact Nat.add_le_add_left (Data.itemCells_le xs) _

mutual

/-- Each cell of a value takes up a byte or a free cell, or is an uncharged row. One byte or free cell is left for
the value itself if it takes up any bytes. -/
theorem cellCount_le : (t : Ty) → t.Dimensioned → ∀ {bs d n}, t.Denotes order bs d n →
    d.cellCount + min 1 t.minSize ≤ bs.length + n + t.unchargedRows d
  | none, _, _, d, _, h => cellCount_le_of_eq_zero (by obtain ⟨_, rfl, _⟩ := h; simp [Data.cellCount]) h
  | bool, _, _, d, _, h => cellCount_le_of_eq_zero (by obtain ⟨_, _, rfl, _⟩ := h; simp [Data.cellCount]) h
  | int, _, _, d, _, h => cellCount_le_of_eq_zero (by obtain ⟨_, _, _, rfl, _⟩ := h; simp [Data.cellCount]) h
  | word, _, _, d, _, h => cellCount_le_of_eq_zero (by obtain ⟨_, _, _, rfl, _⟩ := h; simp [Data.cellCount]) h
  | str, _, _, d, _, h => cellCount_le_of_eq_zero (by obtain ⟨_, _, _, rfl, _⟩ := h; simp [Data.cellCount]) h
  | time, _, _, d, _, h => cellCount_le_of_eq_zero (by obtain ⟨_, _, _, _, rfl, _⟩ := h; simp [Data.cellCount]) h
  | value u, _, _, d, _, h => cellCount_le_of_eq_zero (by obtain ⟨_, _, rfl, _⟩ := h; exact cellCount_ofValue _ _) h
  | complex u, _, _, d, _, h =>
    cellCount_le_of_eq_zero (by obtain ⟨_, _, rfl, _⟩ := h; exact cellCount_ofComplex _ _) h
  | cluster ts, ht, bs, d, n, ⟨ds, hds, hd⟩ => by
    have hm := memberCells_le ts ht hds
    rw [hd, Data.cellCount, minSize, unchargedRows, lists]
    exact hm
  | list (some e) depth, ⟨hdepth, he⟩, bs, d, n, ⟨shape, leaves, parts, hl, _, _, hlen, hp, hb, hd, hn⟩ => by
    subst hl hb hd hn
    have hs : shape ≠ [] := List.ne_nil_of_length_pos hdepth
    have hc := cellCount_assemble_le (e := e) hs (show (leaves.map Prod.fst).length = _ by rw [List.length_map, hlen])
    have hsum := sum_cellCount_le (hp.imp fun x p h => cellCount_le e he h)
    have hr := emptyRows_le (decide (e.minSize = 0)) hs
    rw [unchargedRows_assemble hs hlen hp, List.length_append, length_shapeBytes, minSize]
    rw [List.length_map, List.map_map] at hc
    simp only [Function.comp_def] at hc
    by_cases h0 : e.minSize = 0
    · simp only [h0, decide_true, if_true, Nat.min_zero, Nat.mul_zero] at hr hsum ⊢
      omega
    · have h1 : min 1 e.minSize = 1 := by omega
      simp only [h0, decide_false, Bool.false_eq_true, if_false, h1, Nat.mul_one] at hr hsum ⊢
      omega
  | list Option.none depth, hdepth, bs, d, n, ⟨shape, hl, _, _, h0, hb, hd, hn⟩ => by
    subst hl hb hd hn
    have hs : shape ≠ [] := List.ne_nil_of_length_pos hdepth
    have hx : ([] : List Data).length = Data.cells shape := h0.symm
    have hc := Data.cellCount_nest hs hx
    have hr := emptyRows_le true hs
    have hg := Data.grid_nest hs hx
    have hu : (list Option.none shape.length).unchargedRows (.nest shape []) = uncharged (Data.settle shape) := by
      simp [unchargedRows, lists, hg, unchargedOfLists]
    rw [hc, hu, Data.itemCells, length_shapeBytes, minSize]
    omega
  | error Option.none, _, _, d, _, h =>
    cellCount_le_of_eq_zero (by obtain ⟨_, _, _, _, _, ⟨_, rfl, _⟩, _, rfl⟩ := h; simp [Data.cellCount]) h
  | error (some p), ht, bs, d, n, h => by
    have hm := minSize_le_of_denotes _ h
    obtain ⟨code, message, tail, q, _, ⟨_, rfl, _⟩ | ⟨ys, x, hx, rfl, rfl⟩, hb, hd⟩ := h
    · subst hd
      simp only [Data.cellCount]
      omega
    · have hp := cellCount_le p ht hx
      subst hb hd
      simp only [Data.cellCount, unchargedRows, lists, List.length_append, List.length_cons, minSize, Word.length_encode]
      rw [unchargedRows] at hp
      omega

theorem memberCells_le : (ts : List Ty) → AllDimensioned ts → ∀ {bs ds n}, MembersDenote order ts bs ds n →
    Data.memberCells ds + min 1 (minSize.minSizes ts) ≤ bs.length + n + unchargedOfLists (listsOfMembers ts ds)
  | [], _, bs, ds, n, ⟨hb, hd, hn⟩ => by
    subst hd
    simp [Data.memberCells, minSize.minSizes]
  | t :: ts, ⟨ht, hts⟩, bs, ds, n, ⟨xs, ys, d, ds', k, m, hx, hy, hb, hd, hn⟩ => by
    subst hb hd hn
    have h₁ := cellCount_le t ht hx
    have h₂ := memberCells_le ts hts hy
    rw [Data.memberCells, minSize.minSizes, listsOfMembers, unchargedOfLists_append, List.length_append]
    rw [unchargedRows] at h₁
    omega

end

/-! ## Lists of two dimensions -/

mutual

/-- No list has more than two dimensions. -/
def Planar : Ty → Prop
  | cluster ts => AllPlanar ts
  | list (some e) depth => depth ≤ 2 ∧ e.Planar
  | list Option.none depth => depth ≤ 2
  | error (some p) => p.Planar
  | _ => True

def AllPlanar : List Ty → Prop
  | [] => True
  | t :: ts => t.Planar ∧ AllPlanar ts

end

theorem uncharged_of_length_le : ∀ {s : List Nat}, s.length ≤ 2 → uncharged s = 0
  | [], _ => rfl
  | [_], _ => rfl
  | [n, m], _ => by
    by_cases h : n = 0
    · rw [uncharged, h, Data.emptyRows_zero, ite_self]
    · rw [uncharged, if_neg (by simpa using Ne.symm h)]

mutual

theorem length_le_of_planar : (t : Ty) → t.Dimensioned → t.Planar → ∀ {d l}, l ∈ t.lists d → l.2.length ≤ 2
  | none, _, _, d, l, hl | bool, _, _, d, l, hl | int, _, _, d, l, hl | word, _, _, d, l, hl | str, _, _, d, l, hl
  | time, _, _, d, l, hl | value _, _, _, d, l, hl | complex _, _, _, d, l, hl | error Option.none, _, _, d, l, hl => by
    simp [lists] at hl
  | cluster ts, ht, hp, d, l, hl => by
    cases d with
    | tuple ds =>
      rw [lists] at hl
      exact length_le_of_allPlanar ts ht hp hl
    | _ => simp [lists] at hl
  | list (some e) depth, ⟨hd, he⟩, ⟨hdepth, hp⟩, d, l, hl => by
    rw [lists] at hl
    split at hl
    · rename_i g hg
      rcases List.mem_cons.1 hl with rfl | hl
      · exact (length_shape_of_dimensioned hd hg).trans_le hdepth
      · obtain ⟨x, _, hx⟩ := List.mem_flatMap.1 hl
        exact length_le_of_planar e he hp hx
    · cases hl
  | list Option.none depth, hd, hdepth, d, l, hl => by
    rw [lists] at hl
    split at hl
    · rename_i g hg
      rw [List.mem_singleton.1 hl]
      exact (length_shape_of_dimensioned hd hg).trans_le hdepth
    · cases hl
  | error (some p), ht, hp, d, l, hl => by
    cases d with
    | error _ _ payload =>
      cases payload with
      | none => simp [lists] at hl
      | some q =>
        rw [lists] at hl
        exact length_le_of_planar p ht hp hl
    | _ => simp [lists] at hl

theorem length_le_of_allPlanar : (ts : List Ty) → AllDimensioned ts → AllPlanar ts → ∀ {ds l},
    l ∈ listsOfMembers ts ds → l.2.length ≤ 2
  | [], _, _, ds, l, hl => by
    simp [listsOfMembers] at hl
  | t :: ts, ⟨ht, hts⟩, ⟨hp, hps⟩, ds, l, hl => by
    cases ds with
    | nil => simp [listsOfMembers] at hl
    | cons d ds =>
      rw [listsOfMembers] at hl
      rcases List.mem_append.1 hl with hl | hl
      · exact length_le_of_planar t ht hp hl
      · exact length_le_of_allPlanar ts hts hps hl

end

/-- In lists of at most two dimensions all empty rows take free cells. -/
theorem unchargedRows_of_planar {t : Ty} (ht : t.Dimensioned) (hp : t.Planar) (d : Data) : t.unchargedRows d = 0 :=
  List.sum_eq_zero (List.forall_mem_map.2 fun _ hl => uncharged_of_length_le (length_le_of_planar t ht hp hl))

end Ty

namespace Codec

/-- The list cells of a decoded value are paid for by the bytes and the free cells, apart from the rows of grids that
are empty before their last level; so all of them are where lists have at most two dimensions. -/
theorem cellCount_le_of_unflatten (c : Codec) {bs : List UInt8} {t : Ty} {d : Data} (ht : t.Dimensioned)
    (h : c.unflatten bs t = .ok d) :
    d.cellCount ≤ bs.length + maxFreeCells + t.unchargedRows d ∧
    (t.Planar → d.cellCount ≤ bs.length + maxFreeCells) := by
  obtain ⟨n, hn, hd⟩ := unflatten_eq_ok.1 h
  have hc := Ty.cellCount_le t ht hd
  have hle : d.cellCount ≤ bs.length + maxFreeCells + t.unchargedRows d := by omega
  refine ⟨hle, fun hp => ?_⟩
  rwa [Ty.unchargedRows_of_planar ht hp, Nat.add_zero] at hle

theorem cellCount_le_of_unflatten_rows :
    let t : Ty := .list (some .int) 2
    let bs : List UInt8 := [0, 0, 0, 2, 0, 0, 0, 0]
    let d : Data := .list [.list [], .list []]
    t.Dimensioned ∧ ({} : Codec).unflatten bs t = .ok d ∧ t.Planar ∧ d.cellCount ≤ bs.length + maxFreeCells := by
  intro t bs d
  have ht : t.Dimensioned := ⟨by decide, trivial⟩
  have hp : t.Planar := ⟨by decide, trivial⟩
  have hc : ∀ i, Data.cells (([2, 0] : List Nat).take i) < 0x10000000000000000 := by
    intro i
    rcases i with _ | _ | i <;> simp
  have hd : t.Denotes .big bs d 2 := ⟨[2, 0], [], [], rfl, by decide, hc, rfl, .nil, rfl, rfl, rfl⟩
  have h : ({} : Codec).unflatten bs t = .ok d := unflatten_eq_ok.2 ⟨2, by decide, hd⟩
  exact ⟨ht, h, hp, (cellCount_le_of_unflatten {} ht h).2 hp⟩

/-- Twelve bytes that declare 1048589 empty rows of a grid of three dimensions are accepted. -/
theorem not_always_cellCount_le :
    ¬ ∀ (c : Codec) (bs : List UInt8) (t : Ty) (d : Data), t.Dimensioned → c.unflatten bs t = .ok d →
      d.cellCount ≤ bs.length + maxFreeCells := by
  intro h
  let shape : List Nat := [1048589, 0, 0]
  have hs : ∀ k ∈ shape, k < 0x80000000 := by simp [shape]
  have hc : ∀ i, Data.cells (shape.take i) < 0x10000000000000000 := by
    intro i
    rcases i with _ | _ | _ | _ | i <;> simp [shape]
  have hd : (Ty.list (some .int) 3).Denotes .big [0, 16, 0, 13, 0, 0, 0, 0, 0, 0, 0, 0] (.nest shape []) 0 :=
    ⟨shape, [], [], rfl, hs, hc, rfl, .nil, rfl, rfl, rfl⟩
  have hle := h {} _ (.list (some .int) 3) _ ⟨by decide, trivial⟩ (unflatten_eq_ok.2 ⟨0, Nat.zero_le _, hd⟩)
  rw [Data.cellCount_nest (by simp [shape]) (by simp [shape])] at hle
  exact absurd hle (by decide)

end Codec

end TagWire
