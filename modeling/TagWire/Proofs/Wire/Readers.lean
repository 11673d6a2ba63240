import Mathlib.Data.List.Forall2
import TagWire.Data.Grid
import TagWire.Proofs.Data.Grid
import TagWire.Proofs.Time.Stamp
import TagWire.Proofs.Wire.Layout
import TagWire.Proofs.Wire.Word
import TagWire.Wire.Decode

/-!
# Readers on bytes that were written

A reader that meets the bytes of a value gives that value and leaves what follows. The only thing that can get
in its way is the number of free cells.
-/

namespace TagWire

/-- A reader takes a value off the front of its input, and a number of free cells; with fewer free cells it
refuses a list as too large. -/
structure Reads {α : Type} (read : Reader α) (bytes : List UInt8) (a : α) (rest : List UInt8) (cost : Nat) :
    Prop where
  ok : ∀ {free}, cost ≤ free → read ⟨bytes, free⟩ = .ok (a, ⟨rest, free - cost⟩)
  tooLarge : ∀ {free}, free < cost → ∃ shape, read ⟨bytes, free⟩ = .error (.tooLarge shape)

namespace Reads

variable {α β : Type} {read : Reader α} {bytes rest rest' : List UInt8} {a : α} {b : β} {m n : Nat}

/-- A reader takes only one value off the front of its input. -/
theorem unique {a' : α} (h : Reads read bytes a rest m) (h' : Reads read bytes a' rest' n) : a = a' ∧ rest = rest' := by
  have hr := (h.ok (Nat.le_max_left m n)).symm.trans (h'.ok (Nat.le_max_right m n))
  simp only [Except.ok.injEq, Prod.mk.injEq, Input.mk.injEq] at hr
  exact ⟨hr.1, hr.2.1⟩

/-- A reader that takes nothing off the free cells. -/
theorem free (h : ∀ free, read ⟨bytes, free⟩ = .ok (a, ⟨rest, free⟩)) : Reads read bytes a rest 0 :=
  ⟨fun {free} _ => h free, fun h => absurd h (Nat.not_lt_zero _)⟩

theorem bind (next : α → Reader β) {both : Reader β}
    (hb : ∀ s, both s = (read s).bind fun p => next p.1 p.2) (h₁ : Reads read bytes a rest m)
    (h₂ : Reads (next a) rest b rest' n) : Reads both bytes b rest' (m + n) where
  ok {free} h := by
    rw [hb, h₁.ok (by omega)]
    simp only [Except.bind]
    rw [h₂.ok (by omega), Nat.sub_sub]
  tooLarge {free} h := by
    rw [hb]
    by_cases hm : free < m
    · obtain ⟨shape, hs⟩ := h₁.tooLarge hm
      exact ⟨shape, by rw [hs, Except.bind]⟩
    · have hf : free - m < n := by omega
      rw [h₁.ok (by omega)]
      obtain ⟨shape, hs⟩ := h₂.tooLarge hf
      exact ⟨shape, hs⟩

theorem map (f : α → β) {both : Reader β} (hb : ∀ s, both s = (read s).bind fun p => .ok (f p.1, p.2))
    (h : Reads read bytes a rest m) : Reads both bytes (f a) rest m := by
  have hf : Reads (fun s => .ok (f a, s)) rest (f a) rest 0 := free fun _ => rfl
  exact bind (fun a s => .ok (f a, s)) hb h hf

end Reads

/-! ## Scalars -/

section Scalars

variable (order : ByteOrder) (rest : List UInt8)

theorem reads_bytes (what : Shortage) (xs : List UInt8) :
    Reads (readBytes what xs.length) (xs ++ rest) xs rest 0 := by
  refine .free fun free => ?_
  have h : hasAtLeast xs.length (xs ++ rest) = true := hasAtLeast_iff.2 (by simp)
  rw [readBytes, if_pos h, List.take_left, List.drop_left]

theorem reads_unsigned (width : Nat) {n : Nat} (h : n < 256 ^ width) :
    Reads (readUnsigned order width) (Word.encode order width n ++ rest) n rest 0 := by
  have hb := reads_bytes rest .word (Word.encode order width n)
  rw [Word.length_encode] at hb
  have hm : Reads (readUnsigned order width) _ _ rest 0 := hb.map (Word.unsigned order) fun _ => rfl
  rwa [Word.unsigned_encode order h] at hm

theorem reads_signed (width : Nat) {n : Int} (hl : -(256 ^ width : Nat) ≤ n * 2) (hu : n * 2 < (256 ^ width : Nat)) :
    Reads (readSigned order width) (Word.encode order width n ++ rest) n rest 0 := by
  have hb := reads_bytes rest .word (Word.encode order width n)
  rw [Word.length_encode] at hb
  have hm : Reads (readSigned order width) _ _ rest 0 := hb.map (Word.signed order) fun _ => rfl
  rwa [Word.signed_encode order hl hu] at hm

theorem reads_int {n : Int} (h : -0x80000000 ≤ n ∧ n < 0x80000000) :
    Reads (readSigned order 4) (Word.encode order 4 n ++ rest) n rest 0 :=
  reads_signed order rest 4 (by omega) (by omega)

theorem reads_word {n : Int} (h : 0 ≤ n ∧ n < 0x100000000) :
    Reads (readUnsigned order 4) (Word.encode order 4 n ++ rest) n.toNat rest 0 := by
  have hr := reads_unsigned order rest 4 (n := n.toNat) (by omega)
  rwa [Int.toNat_of_nonneg h.1] at hr

theorem reads_double (x : Double) :
    Reads (readDouble order) (Word.encode order 8 x.bits.toNat ++ rest) x rest 0 := by
  have h : Reads (readDouble order) _ _ rest 0 :=
    (reads_unsigned order rest 8 x.bits.toNat_lt).map (fun n => (⟨.ofNat n⟩ : Double)) fun _ => rfl
  rwa [UInt64.ofNat_toNat] at h

theorem reads_complex (z : Complex) :
    Reads (readComplex order) (Word.encode order 8 z.re.bits.toNat ++ Word.encode order 8 z.im.bits.toNat ++ rest)
      z rest 0 := by
  have him : Reads (fun s => (readDouble order s).bind fun p => .ok ((⟨z.re, p.1⟩ : Complex), p.2))
      _ _ rest 0 := (reads_double order rest z.im).map (fun im => ⟨z.re, im⟩) fun _ => rfl
  rw [List.append_assoc]
  exact .bind (fun re s => (readDouble order s).bind fun p => .ok ((⟨re, p.1⟩ : Complex), p.2)) (fun _ => rfl)
    (reads_double order _ z.re) him

theorem reads_string {xs : List UInt8} (h : xs.length < 0x100000000) :
    Reads (readString order) (stringBytes order xs ++ rest) xs rest 0 := by
  rw [stringBytes, List.append_assoc]
  exact .bind (fun n => readBytes (.text n) n) (fun _ => rfl) (reads_unsigned order _ 4 h) (reads_bytes rest _ xs)

theorem readInstant_stampBytes (stamp : Stamp) (free : Nat) :
    readInstant order ⟨stampBytes order stamp ++ rest, free⟩ = stamp.read.map fun t => (t, ⟨rest, free⟩) := by
  have h₁ := stamp.seconds.le_toInt
  have h₂ := stamp.seconds.toInt_lt
  have h₃ := stamp.fraction.toNat_lt
  rw [readInstant, stampBytes, List.append_assoc]
  rw [(reads_signed order _ 8 (by omega) (by omega)).ok (Nat.zero_le free)]
  simp only [bind, Except.bind, Nat.sub_zero]
  rw [(reads_unsigned order _ 8 h₃).ok (Nat.zero_le free)]
  simp only [Nat.sub_zero, Int64.ofInt_toInt, UInt64.ofNat_toNat]
  cases stamp.read <;> rfl

theorem reads_stamp {stamp : Stamp} {t : Instant} (h : stamp.instant? = some t) :
    Reads (readInstant order) (stampBytes order stamp ++ rest) t rest 0 :=
  .free fun free => by
    rw [readInstant_stampBytes, Stamp.read_eq_ok.2 h]
    rfl

theorem reads_instant (t : Instant) :
    Reads (readInstant order) (stampBytes order (.ofInstant t) ++ rest) t.withoutLeap rest 0 :=
  reads_stamp order rest (Stamp.instant?_ofInstant t)

end Scalars

variable {order : ByteOrder} {rest : List UInt8}

/-! ## Repetition -/

theorem reads_times {α β : Type} {read : Reader α} {f : β → α} {cost : β → Nat} {xs : List β}
    {parts : List (List UInt8)}
    (h : List.Forall₂ (fun x p => ∀ rest, Reads read (p ++ rest) (f x) rest (cost x)) xs parts) : ∀ {acc : List α},
    Reads (readTimes read xs.length acc) (parts.flatten ++ rest) (acc.reverse ++ xs.map f) rest (xs.map cost).sum := by
  induction h with
  | nil =>
    intro acc
    refine .free fun free => ?_
    simp [readTimes]
  | @cons x p xs parts hp _ ih =>
    intro acc
    rw [List.flatten_cons, List.append_assoc, List.map_cons, List.map_cons, List.sum_cons]
    have hn := @ih (f x :: acc)
    rw [List.reverse_cons, List.append_assoc, List.singleton_append] at hn
    refine .bind (fun a => readTimes read xs.length (a :: acc)) (fun s => ?_) (hp _) hn
    rw [List.length_cons, readTimes]
    cases read s <;> rfl

/-! ## Lengths -/

theorem reads_shape (order : ByteOrder) (rest : List UInt8) : ∀ {shape : List Nat}, (∀ n ∈ shape, n < 0x80000000) →
    Reads (readShape order shape.length) (shapeBytes order shape ++ rest) shape rest 0
  | [], _ => .free fun _ => rfl
  | n :: shape, h => by
    obtain ⟨hn, hs⟩ := List.forall_mem_cons.1 h
    rw [shapeBytes_cons, List.append_assoc]
    refine .free fun free => ?_
    rw [List.length_cons, readShape]
    rw [(reads_int order _ (n := (n : Int)) ⟨by omega, by omega⟩).ok (Nat.zero_le free)]
    simp only [bind, Except.bind, Nat.sub_zero, Int.not_ofNat_neg, ite_false, Int.toNat_natCast]
    rw [(reads_shape order rest hs).ok (Nat.zero_le free)]
    rfl

theorem cells?_eq_some {s : List Nat} (h : ∀ i, Data.cells (s.take i) < 0x10000000000000000) : cells? s = some (Data.cells s) := by
  have hf : ∀ (s : List Nat) (n : Nat), (∀ i, n * Data.cells (s.take i) < 0x10000000000000000) →
      s.foldlM (fun n length => if n * length < 0x10000000000000000 then some (n * length) else none) n =
        some (n * Data.cells s) := by
    intro s
    induction s with
    | nil => intro n _; simp
    | cons m s ih =>
      intro n h
      have h₁ : n * m < 0x10000000000000000 := by simpa using h 1
      have ht : ∀ i, n * m * Data.cells (s.take i) < 0x10000000000000000 := by
        intro i
        simpa [Nat.mul_assoc] using h (i + 1)
      rw [List.foldlM_cons, if_pos h₁, Option.bind_eq_bind, Option.bind_some, ih _ ht, Data.cells_cons, Nat.mul_assoc]
  simpa [cells?] using hf s 1 (by simpa using h)

/-- The free cells that a list takes: the rows of an empty grid, and all cells if they take up no bytes. -/
def freeCellsOf (free : Bool) (shape : List Nat) : Nat :=
  if 0 ∈ shape then Data.cells shape.dropLast else if free then Data.cells shape else 0

/-- Without an empty level there are at least as many cells as rows. -/
theorem cells_dropLast_le {s : List Nat} (h : 0 ∉ s) : Data.cells s.dropLast ≤ Data.cells s := by
  rcases s.eq_nil_or_concat with rfl | ⟨t, n, rfl⟩
  · exact Nat.le_refl _
  · have hn : 0 < n := Nat.pos_of_ne_zero fun h0 => h (by simp [h0])
    rw [List.concat_eq_append, List.dropLast_concat, Data.cells_append, Data.cells_cons, Data.cells_nil, Nat.mul_one]
    exact Nat.le_mul_of_pos_right _ hn

theorem reads_enterShape {shape : List Nat} (free : Bool) (rest : List UInt8)
    (h : ∀ i, Data.cells (shape.take i) < 0x10000000000000000) :
    Reads (enterShape shape free) rest (Data.cells shape) rest (freeCellsOf free shape) := by
  have hr : ∀ i, Data.cells (shape.dropLast.take i) < 0x10000000000000000 := by
    intro i
    rw [List.dropLast_eq_take, List.take_take]
    exact h _
  have ht := cells?_eq_some h
  have hd := cells?_eq_some hr
  unfold freeCellsOf
  by_cases h0 : 0 ∈ shape
  · have hc : Data.cells shape = 0 := Data.cells_eq_zero_iff.2 h0
    rw [if_pos h0]
    constructor
    · intro n hn
      simp [enterShape, ht, hd, hc, hn]
    · intro n hn
      exact ⟨shape, by simp [enterShape, ht, hd, hc, Nat.not_le.2 hn]⟩
  · have hc : Data.cells shape ≠ 0 := mt Data.cells_eq_zero_iff.1 h0
    rw [if_neg h0]
    cases free with
    | false => exact .free fun n => by simp [enterShape, ht, hd, hc]
    | true =>
      have hm : max (Data.cells shape) (Data.cells shape.dropLast) = Data.cells shape :=
        Nat.max_eq_left (cells_dropLast_le h0)
      constructor
      · intro n hn
        simp only [ite_true] at hn ⊢
        simp [enterShape, ht, hd, hm, hn]
      · intro n hn
        simp only [ite_true] at hn
        exact ⟨shape, by simp [enterShape, ht, hd, hm, Nat.not_le.2 hn]⟩

/-- With enough bytes left, only the shape decides. -/
theorem reads_enterList {shape : List Nat} (e : Ty) (rest : List UInt8) (h : ∀ i, Data.cells (shape.take i) < 0x10000000000000000)
    (hb : Data.cells shape * e.minSize ≤ rest.length) :
    Reads (enterList e shape) rest (Data.cells shape) rest (freeCellsOf (e.minSize = 0) shape) := by
  have hl : hasAtLeast (Data.cells shape * e.minSize) rest = true := hasAtLeast_iff.2 hb
  have hs := reads_enterShape (decide (e.minSize = 0)) rest h
  have hk : Reads (fun s => if hasAtLeast (Data.cells shape * e.minSize) s.rest then .ok (Data.cells shape, s)
      else .error (.truncated (.list shape e))) rest (Data.cells shape) rest 0 :=
    .free fun _ => by simp only [hl, ite_true]
  exact .bind (fun total s => if hasAtLeast (total * e.minSize) s.rest then .ok (total, s)
      else .error (.truncated (.list shape e))) (fun _ => rfl) hs hk

/-! ## Lists -/

section Lists

variable {e : Ty} {shape : List Nat} {read : Reader Data} {bytes : List UInt8} {cost : Nat}

/-- What is read after the lengths of a list and the number of its elements. -/
def readElements (order : ByteOrder) (e : Ty) (read : Reader Data) (shape : List Nat) (total : Nat) : Reader Data :=
  fun s =>
    match shape, readArray? order e total with
    | [_], some readArray => readArray s
    | _, _ => (readTimes read total [] s).bind fun p => .ok (.nest shape p.1, p.2)

theorem readItems_eq (s : Input) : readItems order e read shape s =
    (enterList e shape s).bind fun p => readElements order e read shape p.1 p.2 := by
  rw [readItems]
  cases enterList e shape s with
  | error _ => rfl
  | ok p => rfl

/-- A list of one dimension that becomes an array. -/
theorem reads_array {n : Nat} {readArray : Reader Data} {a : Data} (hd : ∀ i, Data.cells ([n].take i) < 0x10000000000000000)
    (hb : n * e.minSize ≤ bytes.length) (ha : readArray? order e n = some readArray)
    (h : Reads readArray bytes a rest cost) :
    Reads (readItems order e read [n]) bytes a rest (freeCellsOf (e.minSize = 0) [n] + cost) := by
  have hc : Data.cells [n] = n := by simp
  have hs := reads_enterList e bytes hd (by rwa [hc])
  rw [hc] at hs
  have hr : Reads (readElements order e read [n] n) bytes a rest cost := by
    unfold readElements
    rw [ha]
    exact h
  exact hs.bind _ readItems_eq hr

theorem reads_nested {α : Type} {f : α → Data} {cost : α → Nat} {xs : List α} {parts : List (List UInt8)}
    (hd : ∀ i, Data.cells (shape.take i) < 0x10000000000000000) (hl : xs.length = Data.cells shape)
    (hb : Data.cells shape * e.minSize ≤ (parts.flatten ++ rest).length)
    (ha : shape.length = 1 → readArray? order e (Data.cells shape) = none)
    (h : List.Forall₂ (fun x p => ∀ rest, Reads read (p ++ rest) (f x) rest (cost x)) xs parts) :
    Reads (readItems order e read shape) (parts.flatten ++ rest) (.nest shape (xs.map f)) rest
      (freeCellsOf (e.minSize = 0) shape + (xs.map cost).sum) := by
  have hs := reads_enterList e _ hd hb
  have ht : Reads (readTimes read (Data.cells shape) []) (parts.flatten ++ rest) (xs.map f) rest
      (xs.map cost).sum := by
    rw [← hl]
    exact reads_times h
  have hr : Reads (readElements order e read shape (Data.cells shape)) (parts.flatten ++ rest)
      (.nest shape (xs.map f)) rest (xs.map cost).sum := by
    refine ht.map (Data.nest shape) fun s => ?_
    unfold readElements
    split
    · rename_i hsome
      rw [ha rfl] at hsome
      cases hsome
    · rfl
  exact hs.bind _ readItems_eq hr

theorem reads_noElements (hd : ∀ i, Data.cells (shape.take i) < 0x10000000000000000) (hc : Data.cells shape = 0) :
    Reads (readNoElements shape) rest (.nest shape []) rest (freeCellsOf true shape) := by
  have hs := reads_enterShape true rest hd
  rw [hc] at hs
  have hk : Reads (fun s => .ok (Data.nest shape [], s)) rest (.nest shape []) rest 0 := .free fun _ => rfl
  exact hs.bind (n := 0)
    (fun total s => if total = 0 then .ok (Data.nest shape [], s) else .error (.unknownElement total))
    (fun _ => rfl) (by simpa using hk)

end Lists

end TagWire
