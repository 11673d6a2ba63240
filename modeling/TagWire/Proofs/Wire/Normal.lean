import Mathlib.Data.List.Forall2
import TagWire.Proofs.Data.Grid
import TagWire.Proofs.Time.Stamp
import TagWire.Proofs.Wire.Layout

/-!
# Normal forms

Several values have the same bytes under a type. One of them is the normal form: the value that the bytes are
read as.
-/

namespace TagWire

/-! ## Types with dimensions -/

namespace Ty

mutual

/-- Every list has at least one dimension. -/
def Dimensioned : Ty → Prop
  | cluster ts => AllDimensioned ts
  | list (some e) depth => 1 ≤ depth ∧ e.Dimensioned
  | list .none depth => 1 ≤ depth
  | error (some p) => p.Dimensioned
  | _ => True

def AllDimensioned : List Ty → Prop
  | [] => True
  | t :: ts => t.Dimensioned ∧ AllDimensioned ts

end

/-! ## Normal forms -/

/-- The array of a list of one dimension, for the elements that have arrays. -/
def gather? : Ty → List Data → Option Data
  | int, xs => some (.array (.int32 ((xs.filterMap Data.integer?).map .ofInt)))
  | word, xs => some (.array (.word32 (((xs.filterMap Data.integer?).map Int.toNat).map .ofNat)))
  | value u, xs => some (.ofValues ((xs.filterMap Data.real?).map Prod.fst) u.label)
  | complex .unspecified, xs | complex .dimensionless, xs =>
    some (.array (.complex128 ((xs.filterMap Data.complex?).map Prod.fst)))
  | _, _ => Option.none

mutual

/-- The value that the bytes of a value under a type are read as. -/
def norm : Ty → Data → Data
  | int, d => (d.integer?.map fun n => .int (.ofInt n)).getD d
  | word, d => (d.integer?.map fun n => .word (.ofNat n.toNat)).getD d
  | str, d => (d.bytes?.map .bytes).getD d
  | time, .time i => .time i.withoutLeap
  | value u, d => (d.real?.map fun r => .ofValue r.1 u.label).getD d
  | complex u, d => (d.complex?.map fun z => .ofComplex z.1 u.label).getD d
  | cluster ts, .tuple ds => .tuple (normMembers ts ds)
  | list (some e) depth, d =>
    match depth, e.gather? (d.leavesAt depth) with
    | 1, some a => a
    | _, _ => d.mapLeaves e.norm depth
  | list .none depth, d => d.mapLeaves id depth
  | error (some p), .error code message (some q) => .error code message (some (p.norm q))
  | _, d => d

def normMembers : List Ty → List Data → List Data
  | t :: ts, d :: ds => t.norm d :: normMembers ts ds
  | _, ds => ds

end

theorem norm_list (e : Ty) (d : Data) (depth : Nat) :
    (depth = 1 ∧ ∃ a, e.gather? (d.leavesAt 1) = some a ∧ (list (some e) depth).norm d = a) ∨
    (depth = 1 → e.gather? (d.leavesAt 1) = Option.none) ∧
      (list (some e) depth).norm d = d.mapLeaves e.norm depth := by
  by_cases h1 : depth = 1
  · subst h1
    cases ha : e.gather? (d.leavesAt 1) with
    | none => exact .inr ⟨fun _ => rfl, by simp only [norm, ha]⟩
    | some a => exact .inl ⟨rfl, a, rfl, by simp only [norm, ha]⟩
  · refine .inr ⟨fun h => absurd h h1, ?_⟩
    rw [norm]
    intro a h
    exact absurd h h1

/-! ## Numbers -/

@[simp] theorem real?_ofValue (x : Double) (label : String) : (Data.ofValue x label).real? = some (x, label) := by
  unfold Data.ofValue
  split <;> simp [Data.real?, *]

@[simp] theorem complex?_ofComplex (z : Complex) (label : String) :
    (Data.ofComplex z label).complex? = some (z, label) := by
  unfold Data.ofComplex
  split <;> simp [Data.complex?, *]

@[simp] theorem items?_ofValues (xs : List Double) (label : String) :
    (Data.ofValues xs label).items? = some (xs.map (Data.ofValue · label)) := by
  unfold Data.ofValues Data.ofValue
  split <;> rfl

theorem toInt_ofInt_of_int {n : Int} (hl : -0x80000000 ≤ n) (hu : n < 0x80000000) : (Int64.ofInt n).toInt = n :=
  Int64.toInt_ofInt_of_le (by omega) (by omega)

theorem toNat_ofNat_of_word {n : Int} (hl : 0 ≤ n) (hu : n < 0x100000000) : ((UInt64.ofNat n.toNat).toNat : Int) = n := by
  rw [UInt64.toNat_ofNat_of_lt' (by simp [UInt64.size]; omega)]
  omega

theorem toInt_ofInt_of_item {n : Int} (hl : -0x80000000 ≤ n) (hu : n < 0x80000000) : (Int32.ofInt n).toInt64.toInt = n := by
  rw [Int32.toInt_toInt64, Int32.toInt_ofInt_of_le (by omega) (by omega)]

theorem toNat_ofNat_of_item {n : Int} (hl : 0 ≤ n) (hu : n < 0x100000000) :
    ((UInt32.ofNat n.toNat).toUInt64.toNat : Int) = n := by
  rw [UInt32.toNat_toUInt64, UInt32.toNat_ofNat_of_lt' (by simp [UInt32.size]; omega)]
  omega

theorem forall₂_filterMap {α β γ : Type} {view : α → Option β} {R : β → γ → Prop} {xs : List α} {ys : List γ}
    (h : List.Forall₂ (fun x y => ∃ a, view x = some a ∧ R a y) xs ys) :
    List.Forall₂ R (xs.filterMap view) ys := by
  induction h with
  | nil => exact .nil
  | cons hx _ ih =>
    obtain ⟨a, ha, hr⟩ := hx
    rw [List.filterMap_cons_some ha]
    exact .cons hr ih

/-! ## Normal forms have the same bytes -/

variable {order : ByteOrder}

theorem leavesAt_one {d : Data} {items : List Data} (h : d.items? = some items) : d.leavesAt 1 = items := by
  simp [Data.leavesAt, h, List.flatMap_singleton']

theorem forall₂_map_left {α β γ : Type} {f : α → β} {R : β → γ → Prop} {xs : List α} {ys : List γ}
    (h : List.Forall₂ (fun x y => R (f x) y) xs ys) : List.Forall₂ R (xs.map f) ys :=
  List.forall₂_map_left_iff.2 h

/-- The items of an array are written like the leaves that it was gathered from. -/
theorem emit_gathered {e : Ty} {xs : List Data} {a : Data} {parts : List (List UInt8)} (ha : e.gather? xs = some a)
    (h : List.Forall₂ (fun x p => (e.emit order x).result = .ok p) xs parts) :
    ∃ items, a.items? = some items ∧ List.Forall₂ (fun x p => (e.emit order x).result = .ok p) items parts := by
  match e, ha with
  | int, ha =>
    cases ha
    refine ⟨_, rfl, forall₂_map_left (forall₂_map_left (forall₂_filterMap (h.imp ?_)))⟩
    intro x p hx
    obtain ⟨n, hn, hr, rfl⟩ := emit_int.1 hx
    refine ⟨n, hn, emit_int.2 ⟨n, ?_, hr, rfl⟩⟩
    rw [Data.integer?, toInt_ofInt_of_item hr.1 hr.2]
  | word, ha =>
    cases ha
    refine ⟨_, rfl, forall₂_map_left (forall₂_map_left (forall₂_map_left (forall₂_filterMap (h.imp ?_))))⟩
    intro x p hx
    obtain ⟨n, hn, hr, rfl⟩ := emit_word.1 hx
    refine ⟨n, hn, emit_word.2 ⟨n, ?_, hr, rfl⟩⟩
    rw [Data.integer?, toNat_ofNat_of_item hr.1 hr.2]
  | value u, ha =>
    cases ha
    refine ⟨_, items?_ofValues _ _, forall₂_map_left (forall₂_map_left (forall₂_filterMap (h.imp ?_)))⟩
    intro x p hx
    obtain ⟨y, hy, rfl⟩ := emit_value.1 hx
    exact ⟨_, hy, emit_value.2 ⟨y, real?_ofValue _ _, rfl⟩⟩
  | complex .unspecified, ha | complex .dimensionless, ha =>
    cases ha
    refine ⟨_, rfl, forall₂_map_left (forall₂_map_left (forall₂_filterMap (h.imp ?_)))⟩
    intro x p hx
    obtain ⟨z, hz, rfl⟩ := emit_complex.1 hx
    exact ⟨_, hz, emit_complex.2 ⟨z, rfl, rfl⟩⟩

/-- The grid of an array has one dimension. -/
theorem grid_gathered {a : Data} {items : List Data} (h : a.items? = some items) :
    a.grid 1 = .ok ⟨[items.length], items⟩ := by
  have hs : Data.HasShape [items.length] a := ⟨items, h, rfl, fun _ _ => trivial⟩
  rw [Data.grid_of_hasShape (k := 0) rfl hs (List.pairwise_singleton _ _), leavesAt_one h]

/-- The length of a list of one dimension is the number of its leaves. -/
theorem shape_of_grid_one {d : Data} {g : Grid} (h : d.grid 1 = .ok g) : g.shape = [g.leaves.length] := by
  obtain ⟨n, hn⟩ := List.length_eq_one_iff.1 (Data.grid_spec h).1
  have hl := Data.length_leaves h
  rw [hn, Data.cells_cons, Data.cells_nil, Nat.mul_one] at hl
  rw [hn, hl]

theorem grid_leavesAt {d : Data} {depth : Nat} {g : Grid} (hd : 1 ≤ depth) (h : d.grid depth = .ok g) :
    g.leaves = d.leavesAt depth := by
  obtain ⟨k, rfl⟩ := Nat.exists_eq_add_of_le' hd
  exact (Data.grid_spec h).2.2.1

theorem length_shape_of_dimensioned {d : Data} {depth : Nat} {g : Grid} (hd : 1 ≤ depth) (h : d.grid depth = .ok g) :
    g.shape.length = depth := by
  obtain ⟨k, rfl⟩ := Nat.exists_eq_add_of_le' hd
  exact (Data.grid_spec h).1

theorem grid_norm {f : Data → Data} {d : Data} {depth : Nat} {g : Grid} (hd : 1 ≤ depth) (h : d.grid depth = .ok g) :
    (d.mapLeaves f depth).grid depth = .ok ⟨g.shape, g.leaves.map f⟩ := by
  obtain ⟨k, rfl⟩ := Nat.exists_eq_add_of_le' hd
  exact Data.grid_mapLeaves f h

mutual

/-- The normal form of a value has the bytes of the value. -/
theorem emit_norm : (t : Ty) → t.Dimensioned → ∀ {d bs}, (t.emit order d).result = .ok bs →
    (t.emit order (t.norm d)).result = .ok bs
  | none, _, d, bs, h => by
    simpa [norm] using h
  | bool, _, d, bs, h => by
    simpa [norm] using h
  | int, _, d, bs, h => by
    obtain ⟨n, hn, hr, rfl⟩ := emit_int.1 h
    refine emit_int.2 ⟨n, ?_, hr, rfl⟩
    rw [norm, hn, Option.map_some, Option.getD_some, Data.integer?, toInt_ofInt_of_int hr.1 hr.2]
  | word, _, d, bs, h => by
    obtain ⟨n, hn, hr, rfl⟩ := emit_word.1 h
    refine emit_word.2 ⟨n, ?_, hr, rfl⟩
    rw [norm, hn, Option.map_some, Option.getD_some, Data.integer?, toNat_ofNat_of_word hr.1 hr.2]
  | str, _, d, bs, h => by
    obtain ⟨xs, hx, hl, rfl⟩ := emit_str.1 h
    refine emit_str.2 ⟨xs, ?_, hl, rfl⟩
    rw [norm, hx, Option.map_some, Option.getD_some, Data.bytes?]
  | time, _, d, bs, h => by
    obtain ⟨i, rfl, rfl⟩ := emit_time.1 h
    exact emit_time.2 ⟨i.withoutLeap, by rw [norm], by rw [Stamp.ofInstant_withoutLeap]⟩
  | value u, _, d, bs, h => by
    obtain ⟨x, hx, rfl⟩ := emit_value.1 h
    exact emit_value.2 ⟨x, by simp [norm, hx], rfl⟩
  | complex u, _, d, bs, h => by
    obtain ⟨z, hz, rfl⟩ := emit_complex.1 h
    exact emit_complex.2 ⟨z, by simp [norm, hz], rfl⟩
  | cluster ts, ht, d, bs, h => by
    obtain ⟨ds, rfl, hl, hm⟩ := emit_cluster.1 h
    obtain ⟨hl', hm'⟩ := emit_normMembers ts ht hl hm
    exact emit_cluster.2 ⟨_, by rw [norm], hl', hm'⟩
  | list (some e) depth, ⟨hd, he⟩, d, bs, h => by
    obtain ⟨g, parts, hg, hs, hp, rfl⟩ := emit_list.1 h
    have hl := grid_leavesAt hd hg
    rcases norm_list e d depth with ⟨rfl, a, ha, hn⟩ | ⟨_, hn⟩
    · rw [hl] at hp
      obtain ⟨items, hi, hq⟩ := emit_gathered ha hp
      have hshape : g.shape = [items.length] := by
        rw [shape_of_grid_one hg, hl, hp.length_eq, hq.length_eq]
      rw [hn]
      exact emit_list.2 ⟨_, parts, grid_gathered hi, by simpa [hshape] using hs, hq, by rw [hshape]⟩
    · rw [hn]
      exact emit_list.2 ⟨_, parts, grid_norm hd hg, hs,
        forall₂_map_left (hp.imp fun _ _ hx => emit_norm e he hx), rfl⟩
  | list .none depth, hd, d, bs, h => by
    obtain ⟨g, hg, hs, hl, rfl⟩ := emit_emptyList.1 h
    have hn := grid_norm (f := id) hd hg
    rw [norm]
    exact emit_emptyList.2 ⟨_, hn, hs, by simp [hl], rfl⟩
  | error (some p), hp, d, bs, h => by
    obtain ⟨code, message, payload, tail, rfl, hm, rfl, ht⟩ := emit_error.1 h
    cases payload with
    | none =>
      have hn : (error (some p)).norm (.error code message .none) = .error code message .none := by simp [norm]
      exact emit_error.2 ⟨_, _, _, _, hn, hm, rfl, ht⟩
    | some q =>
      obtain ⟨ys, hy, rfl⟩ := ht
      exact emit_error.2 ⟨_, _, some (p.norm q), _, by rw [norm], hm, rfl, ys, emit_norm p hp hy, rfl⟩
  | error .none, _, d, bs, h => by
    simpa [norm] using h

theorem emit_normMembers : (ts : List Ty) → AllDimensioned ts → ∀ {ds bs}, ds.length = ts.length →
    (emitMembers order ts ds).result = .ok bs →
    (normMembers ts ds).length = ts.length ∧ (emitMembers order ts (normMembers ts ds)).result = .ok bs
  | [], _, ds, bs, hl, h => by
    rw [normMembers]
    exact ⟨hl, h⟩
    simp
  | t :: ts, ⟨ht, hts⟩, d :: ds, bs, hl, h => by
    obtain ⟨xs, ys, hx, hy, rfl⟩ := emitMembers_cons.1 h
    obtain ⟨hl', hy'⟩ := emit_normMembers ts hts (by simpa using hl) hy
    rw [normMembers]
    exact ⟨by simp [hl'], emitMembers_cons.2 ⟨xs, ys, emit_norm t ht hx, hy', rfl⟩⟩

end

end Ty

end TagWire
