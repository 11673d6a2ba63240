import TagWire.Codec
import TagWire.Proofs.Data.Nest
import TagWire.Proofs.Wire.RoundTrip
import TagWire.Proofs.Wire.Taken

/-!
# The bytes of values

Which bytes stand for a value of a type, without any reader. Several byte strings may stand for one value. The
decoder gives a value exactly if the whole buffer stands for it and the free cells suffice.
-/

namespace TagWire

/-- A list of one dimension becomes an array if its elements have one. Other lists are nested. -/
def Ty.assemble (e : Ty) (shape : List Nat) (leaves : List Data) : Data :=
  match shape, e.gather? leaves with
  | [_], some a => a
  | _, _ => .nest shape leaves

namespace Ty

variable {order : ByteOrder} {bs rest : List UInt8} {d : Data} {n : Nat} {s s' : Input}

mutual

/-- Bytes stand for a value of a type, at a cost in free cells. -/
def Denotes (order : ByteOrder) : Ty → List UInt8 → Data → Nat → Prop
  | none, bs, d, n => bs = [] ∧ d = .none ∧ n = 0
  | bool, bs, d, n => ∃ b : Bool, bs = [if b then 1 else 0] ∧ d = .bool b ∧ n = 0
  | int, bs, d, n => ∃ i, (-0x80000000 ≤ i ∧ i < 0x80000000) ∧ bs = Word.encode order 4 i ∧ d = .int (.ofInt i) ∧ n = 0
  | word, bs, d, n => ∃ k : Nat, k < 0x100000000 ∧ bs = Word.encode order 4 k ∧ d = .word (.ofNat k) ∧ n = 0
  | str, bs, d, n => ∃ xs, xs.length < 0x100000000 ∧ bs = stringBytes order xs ∧ d = .bytes xs ∧ n = 0
  | time, bs, d, n => ∃ stamp t, stamp.instant? = some t ∧ bs = stampBytes order stamp ∧ d = .time t ∧ n = 0
  | value u, bs, d, n => ∃ x : Double, bs = Word.encode order 8 x.bits.toNat ∧ d = .ofValue x u.label ∧ n = 0
  | complex u, bs, d, n => ∃ z : Complex,
    bs = Word.encode order 8 z.re.bits.toNat ++ Word.encode order 8 z.im.bits.toNat ∧ d = .ofComplex z u.label ∧ n = 0
  | cluster ts, bs, d, n => ∃ ds, MembersDenote order ts bs ds n ∧ d = .tuple ds
  | list (some e) depth, bs, d, n => ∃ (shape : List Nat) (leaves : List (Data × Nat)) (parts : List (List UInt8)),
    shape.length = depth ∧ (∀ k ∈ shape, k < 0x80000000) ∧ (∀ i, Data.cells (shape.take i) < 0x10000000000000000) ∧
      leaves.length = Data.cells shape ∧ List.Forall₂ (fun x p => e.Denotes order p x.1 x.2) leaves parts ∧
      bs = shapeBytes order shape ++ parts.flatten ∧ d = e.assemble shape (leaves.map Prod.fst) ∧
      n = freeCellsOf (e.minSize = 0) shape + (leaves.map Prod.snd).sum
  | list Option.none depth, bs, d, n => ∃ shape : List Nat, shape.length = depth ∧ (∀ k ∈ shape, k < 0x80000000) ∧
    (∀ i, Data.cells (shape.take i) < 0x10000000000000000) ∧ Data.cells shape = 0 ∧
      bs = shapeBytes order shape ∧ d = .nest shape [] ∧ n = freeCellsOf true shape
  | error payload, bs, d, n => ∃ (code : Int32) (message tail : List UInt8) (q : Option Data),
    message.length < 0x100000000 ∧ PayloadDenotes order payload tail q n ∧
      bs = Word.encode order 4 code.toInt ++ stringBytes order message ++ tail ∧
      d = .error code (Utf8.decodeLossy message) q

def MembersDenote (order : ByteOrder) : List Ty → List UInt8 → List Data → Nat → Prop
  | [], bs, ds, n => bs = [] ∧ ds = [] ∧ n = 0
  | t :: ts, bs, ds, n => ∃ xs ys d ds' k m, t.Denotes order xs d k ∧ MembersDenote order ts ys ds' m ∧
    bs = xs ++ ys ∧ ds = d :: ds' ∧ n = k + m

def PayloadDenotes (order : ByteOrder) : Option Ty → List UInt8 → Option Data → Nat → Prop
  | Option.none, bs, q, n => bs = [] ∧ q = Option.none ∧ n = 0
  | some p, bs, q, n => bs = [0] ∧ q = Option.none ∧ n = 0 ∨
    ∃ ys x, p.Denotes order ys x n ∧ bs = 1 :: ys ∧ q = some x

end

/-! ## Arrays -/

theorem assemble_of_gather {e : Ty} {leaves : List Data} {a : Data} (k : Nat) (h : e.gather? leaves = some a) :
    e.assemble [k] leaves = a := by
  simp only [assemble, h]

theorem assemble_of_none {e : Ty} {shape : List Nat} {leaves : List Data}
    (h : shape.length = 1 → e.gather? leaves = Option.none) : e.assemble shape leaves = .nest shape leaves := by
  unfold assemble
  split
  · rename_i ha
    rw [h rfl] at ha
    cases ha
  · rfl

theorem assemble_cases (e : Ty) (shape : List Nat) (leaves : List Data) :
    (∃ k a, shape = [k] ∧ e.gather? leaves = some a ∧ e.assemble shape leaves = a) ∨
    (shape.length = 1 → e.gather? leaves = Option.none) ∧ e.assemble shape leaves = .nest shape leaves := by
  by_cases h : shape.length = 1 → e.gather? leaves = Option.none
  · exact .inr ⟨h, assemble_of_none h⟩
  · obtain ⟨h1, ha⟩ := Classical.not_imp.1 h
    obtain ⟨k, rfl⟩ := List.length_eq_one_iff.1 h1
    obtain ⟨a, ha⟩ := Option.ne_none_iff_exists'.1 ha
    exact .inl ⟨k, a, rfl, ha, assemble_of_gather k ha⟩

/-- Bytes of a type whose lists become arrays are those that the value is written as. -/
theorem emit_of_denotes_item {e : Ty} {xs : List Data} {a : Data} (ha : e.gather? xs = some a)
    (h : e.Denotes order bs d n) : (e.emit order d).result = .ok bs ∧ n = 0 := by
  match e, ha with
  | int, _ =>
    obtain ⟨i, hr, rfl, rfl, rfl⟩ := h
    exact ⟨emit_int.2 ⟨i, by rw [Data.integer?, toInt_ofInt_of_int hr.1 hr.2], hr, rfl⟩, rfl⟩
  | word, _ =>
    obtain ⟨k, hk, rfl, rfl, rfl⟩ := h
    have hn : ((UInt64.ofNat k).toNat : Int) = k := toNat_ofNat_of_word (n := k) (by omega) (by omega)
    exact ⟨emit_word.2 ⟨k, by rw [Data.integer?, hn], ⟨by omega, by omega⟩, rfl⟩, rfl⟩
  | value u, _ =>
    obtain ⟨x, rfl, rfl, rfl⟩ := h
    exact ⟨emit_value.2 ⟨x, real?_ofValue x _, rfl⟩, rfl⟩
  | complex u, _ =>
    obtain ⟨z, rfl, rfl, rfl⟩ := h
    exact ⟨emit_complex.2 ⟨z, complex?_ofComplex z _, rfl⟩, rfl⟩

theorem forall_of_forall₂ {α β : Type} {R : α → β → Prop} {P : α → Prop} {xs : List α} {ys : List β}
    (h : List.Forall₂ R xs ys) (hP : ∀ {x y}, R x y → P x) : ∀ x ∈ xs, P x :=
  ((List.forall₂_and_left xs ys).1 (h.imp fun _ _ hr => ⟨hP hr, hr⟩)).1

theorem map_filterMap_eq_self {α : Type} {view : Data → Option α} {f : α → Data} {xs : List Data}
    (h : ∀ x ∈ xs, (view x).map f = some x) : (xs.filterMap view).map f = xs := by
  rw [List.map_filterMap, List.filterMap_congr h, List.filterMap_some]

theorem items?_of_gather {e : Ty} {xs : List Data} {a : Data} (ha : e.gather? xs = some a)
    (h : ∀ x ∈ xs, ∃ p n, e.Denotes order p x n) : a.items? = some xs := by
  match e, ha with
  | int, ha =>
    cases ha
    rw [Data.items?, NumArray.items, List.map_map]
    refine congrArg some (map_filterMap_eq_self fun x hx => ?_)
    obtain ⟨_, _, i, hr, _, rfl, _⟩ := h x hx
    have hi : (Int32.ofInt i).toInt64 = Int64.ofInt i := by
      rw [← Int64.toInt_inj, toInt_ofInt_of_item hr.1 hr.2, toInt_ofInt_of_int hr.1 hr.2]
    rw [Data.integer?, toInt_ofInt_of_int hr.1 hr.2, Option.map_some, Function.comp_apply, hi]
  | word, ha =>
    cases ha
    rw [Data.items?, NumArray.items, List.map_map, List.map_map]
    refine congrArg some (map_filterMap_eq_self fun x hx => ?_)
    obtain ⟨_, _, k, hk, _, rfl, _⟩ := h x hx
    have hn : ((UInt64.ofNat k).toNat : Int) = k := toNat_ofNat_of_word (n := k) (by omega) (by omega)
    have hi : ((UInt32.ofNat k).toUInt64.toNat : Int) = k := toNat_ofNat_of_item (n := k) (by omega) (by omega)
    have he : (UInt32.ofNat k).toUInt64 = UInt64.ofNat k := by
      rw [← UInt64.toNat_inj]
      omega
    rw [Data.integer?, hn, Option.map_some, Function.comp_apply, Function.comp_apply, Int.toNat_natCast, he]
  | value u, ha =>
    cases ha
    rw [items?_ofValues, List.map_map]
    refine congrArg some (map_filterMap_eq_self fun x hx => ?_)
    obtain ⟨_, _, y, _, rfl, _⟩ := h x hx
    rw [real?_ofValue, Option.map_some, Function.comp_apply]
  | complex .unspecified, ha | complex .dimensionless, ha =>
    cases ha
    rw [Data.items?, NumArray.items, List.map_map]
    refine congrArg some (map_filterMap_eq_self fun x hx => ?_)
    obtain ⟨_, _, z, _, rfl, _⟩ := h x hx
    rfl

theorem grid_assemble {e : Ty} {shape : List Nat} {leaves : List (Data × Nat)} {parts : List (List UInt8)}
    (hs : shape ≠ []) (hl : leaves.length = Data.cells shape)
    (hd : List.Forall₂ (fun x p => e.Denotes order p x.1 x.2) leaves parts) :
    (e.assemble shape (leaves.map Prod.fst)).grid shape.length = .ok ⟨Data.settle shape, leaves.map Prod.fst⟩ := by
  have hlen : (leaves.map Prod.fst).length = Data.cells shape := by rw [List.length_map, hl]
  rcases assemble_cases e shape (leaves.map Prod.fst) with ⟨k, a, rfl, ha, he⟩ | ⟨_, he⟩
  · have hx := forall_of_forall₂ hd (P := fun x => ∃ p n, e.Denotes order p x.1 n) fun h => ⟨_, _, h⟩
    have hi := items?_of_gather ha (List.forall_mem_map.2 hx)
    have hk : (leaves.map Prod.fst).length = k := by simpa using hlen
    rw [he, Data.settle_singleton, List.length_singleton, grid_gathered hi, hk]
  · rw [he, Data.grid_nest hs hlen]

/-- What is read several times over are the leaves of a list. -/
theorem denotes_of_readTimes {α : Type} (e : Ty) (view : α → Data) {read : Reader α} {as : List α} {k : Nat}
    (hr : ∀ {s a s'}, read s = .ok (a, s') → ∃ cost bytes, e.Denotes order bytes (view a) cost ∧ Took bytes cost s s')
    (h : readTimes read k [] s = .ok (as, s')) :
    ∃ (leaves : List (Data × Nat)) (parts : List (List UInt8)), leaves.map Prod.fst = as.map view ∧ leaves.length = k ∧
      List.Forall₂ (fun x p => e.Denotes order p x.1 x.2) leaves parts ∧
      Took parts.flatten (leaves.map Prod.snd).sum s s' := by
  obtain ⟨xs, parts, rfl, hl, hxs, ht⟩ :=
    took_of_readTimes (R := fun x p => e.Denotes order p (view x.1) x.2) hr h
  refine ⟨xs.map (Prod.map view id), parts, ?_, by rw [List.length_map, hl], forall₂_map_left hxs, ?_⟩
  · simp
  · simpa [Function.comp_def] using ht

theorem filterMap_map_of_view {α β : Type} {view : Data → Option β} {f : α → Data} {g : α → β}
    (h : ∀ a, view (f a) = some (g a)) (as : List α) : (as.map f).filterMap view = as.map g := by
  rw [List.filterMap_map, ← List.filterMap_eq_map]
  exact List.filterMap_congr fun a _ => h a

theorem denotes_of_readArray {e : Ty} {readArray : Reader Data} {k : Nat} (ha : readArray? order e k = some readArray)
    (h : readArray s = .ok (d, s')) :
    ∃ (leaves : List (Data × Nat)) (parts : List (List UInt8)), e.gather? (leaves.map Prod.fst) = some d ∧
      leaves.length = k ∧ List.Forall₂ (fun x p => e.Denotes order p x.1 x.2) leaves parts ∧
      Took parts.flatten (leaves.map Prod.snd).sum s s' := by
  match e, ha with
  | int, ha =>
    cases ha
    obtain ⟨⟨as, s₁⟩, has, h⟩ := bind_eq_ok.1 h
    cases h
    obtain ⟨leaves, parts, hv, hd⟩ := denotes_of_readTimes int (fun i => Data.int (.ofInt i))
      (fun h => ⟨0, _, ⟨_, (took_of_readInt h).1, rfl, rfl, rfl⟩, (took_of_readInt h).2⟩) has
    refine ⟨leaves, parts, ?_, hd⟩
    rw [hv, gather?, filterMap_map_of_view fun i => by rw [Data.integer?], List.map_map]
    simp only [Function.comp_def, Int32.ofInt_int64ToInt, Int64.toInt32_ofInt]
  | word, ha =>
    cases ha
    obtain ⟨⟨as, s₁⟩, has, h⟩ := bind_eq_ok.1 h
    cases h
    obtain ⟨leaves, parts, hv, hd⟩ := denotes_of_readTimes word (fun i => Data.word (.ofNat i))
      (fun h => ⟨0, _, ⟨_, (took_of_readUnsigned h).1, rfl, rfl, rfl⟩, (took_of_readUnsigned h).2⟩) has
    refine ⟨leaves, parts, ?_, hd⟩
    rw [hv, gather?, filterMap_map_of_view fun i => by rw [Data.integer?], List.map_map, List.map_map]
    simp only [Function.comp_def, Int.toNat_natCast, UInt32.ofNat_uInt64ToNat, UInt64.toUInt32_ofNat']
  | value u, ha =>
    cases ha
    obtain ⟨⟨as, s₁⟩, has, h⟩ := bind_eq_ok.1 h
    cases h
    obtain ⟨leaves, parts, hv, hd⟩ := denotes_of_readTimes (value u) (Data.ofValue · u.label)
      (fun h => ⟨0, _, ⟨_, rfl, rfl, rfl⟩, took_of_readDouble h⟩) has
    refine ⟨leaves, parts, ?_, hd⟩
    rw [hv, gather?, filterMap_map_of_view fun x => real?_ofValue x _, List.map_map]
    simp [Function.comp_def]
  | complex u, ha =>
    -- only plain complex numbers have an array
    obtain ⟨hg, rfl⟩ : (∀ xs, (complex u).gather? xs = some (.array (.complex128 ((xs.filterMap Data.complex?).map Prod.fst)))) ∧
        (fun s => (readTimes (readComplex order) k [] s).bind fun p => .ok (.array (.complex128 p.1), p.2)) = readArray := by
      cases u <;> cases ha <;> exact ⟨fun _ => rfl, rfl⟩
    obtain ⟨⟨as, s₁⟩, has, h⟩ := bind_eq_ok.1 h
    cases h
    obtain ⟨leaves, parts, hv, hd⟩ := denotes_of_readTimes (complex u) (Data.ofComplex · u.label)
      (fun h => ⟨0, _, ⟨_, rfl, rfl, rfl⟩, took_of_readComplex h⟩) has
    refine ⟨leaves, parts, ?_, hd⟩
    rw [hv, hg, filterMap_map_of_view fun z => complex?_ofComplex z _, List.map_map]
    simp [Function.comp_def]

theorem gather?_of_readArray? {e : Ty} {k : Nat} (xs : List Data) (h : readArray? order e k = Option.none) :
    e.gather? xs = Option.none := by
  unfold readArray? at h
  split at h <;> simp_all [gather?]

/-! ## What is read is denoted -/

theorem readElements_cases (order : ByteOrder) (e : Ty) (read : Reader Data) (shape : List Nat) (total : Nat) :
    (∃ k readArray, shape = [k] ∧ readArray? order e total = some readArray ∧
      readElements order e read shape total = readArray) ∨
    (shape.length = 1 → readArray? order e total = Option.none) ∧ ∀ s, readElements order e read shape total s =
      (readTimes read total [] s).bind fun p => .ok (.nest shape p.1, p.2) := by
  match shape with
  | [] => exact .inr ⟨fun h => (by cases h), fun _ => rfl⟩
  | k :: m :: shape => exact .inr ⟨fun h => (by cases h), fun _ => rfl⟩
  | [k] =>
    cases ha : readArray? order e total with
    | none => exact .inr ⟨fun _ => rfl, fun s => by simp only [readElements, ha]⟩
    | some readArray => exact .inl ⟨k, readArray, rfl, rfl, by funext s; simp only [readElements, ha]⟩

theorem denotes_of_readItems {e : Ty} {shape : List Nat}
    (hr : ∀ {s x s'}, e.read order s = .ok (x, s') → ∃ bs n, e.Denotes order bs x n ∧ Took bs n s s')
    (h : readItems order e (e.read order) shape s = .ok (d, s')) :
    ∃ (leaves : List (Data × Nat)) (parts : List (List UInt8)), leaves.length = Data.cells shape ∧
      (∀ i, Data.cells (shape.take i) < 0x10000000000000000) ∧
      List.Forall₂ (fun x p => e.Denotes order p x.1 x.2) leaves parts ∧
      d = e.assemble shape (leaves.map Prod.fst) ∧
      Took parts.flatten (freeCellsOf (e.minSize = 0) shape + (leaves.map Prod.snd).sum) s s' := by
  rw [readItems_eq] at h
  obtain ⟨⟨total, s₁⟩, hs, h⟩ := bind_eq_ok.1 h
  obtain ⟨rfl, hshape, ht⟩ := took_of_enterList hs
  rcases readElements_cases order e (e.read order) shape (Data.cells shape) with
    ⟨k, readArray, rfl, ha, he⟩ | ⟨hna, he⟩
  · rw [he] at h
    obtain ⟨leaves, parts, hg, hl, hd, htp⟩ := denotes_of_readArray ha h
    exact ⟨leaves, parts, hl, hshape, hd, (assemble_of_gather k hg).symm, ht.trans htp⟩
  · rw [he] at h
    obtain ⟨⟨as, s₂⟩, has, h⟩ := bind_eq_ok.1 h
    cases h
    obtain ⟨leaves, parts, hv, hl, hd, htp⟩ := denotes_of_readTimes e id
      (fun h => let ⟨bs, n, hx, ht⟩ := hr h; ⟨n, bs, hx, ht⟩) has
    rw [List.map_id] at hv
    have hn : shape.length = 1 → e.gather? as = Option.none := fun h1 => gather?_of_readArray? as (hna h1)
    exact ⟨leaves, parts, hl, hshape, hd, by rw [hv, assemble_of_none hn], ht.trans htp⟩

mutual

/-- What is read of a type was taken from bytes that stand for it. -/
theorem denotes_of_read : (t : Ty) → ∀ {s d s'}, t.read order s = .ok (d, s') →
    ∃ bs n, t.Denotes order bs d n ∧ Took bs n s s'
  | none, s, d, s', h => by
    rw [read] at h
    cases h
    exact ⟨[], 0, ⟨rfl, rfl, rfl⟩, .nothing s⟩
  | bool, s, d, s', h => by
    rw [read] at h
    obtain ⟨⟨b, s₁⟩, hb, h⟩ := bind_eq_ok.1 h
    have ht := took_of_readByte hb
    simp only at h
    split at h
    · rename_i h0
      cases h
      exact ⟨_, 0, ⟨false, by rw [h0]; rfl, rfl, rfl⟩, ht⟩
    · split at h
      · rename_i h1
        cases h
        exact ⟨_, 0, ⟨true, by rw [h1]; rfl, rfl, rfl⟩, ht⟩
      · cases h
  | int, s, d, s', h => by
    rw [read] at h
    obtain ⟨⟨i, s₁⟩, hi, h⟩ := bind_eq_ok.1 h
    cases h
    obtain ⟨hr, ht⟩ := took_of_readInt hi
    exact ⟨_, 0, ⟨i, hr, rfl, rfl, rfl⟩, ht⟩
  | word, s, d, s', h => by
    rw [read] at h
    obtain ⟨⟨k, s₁⟩, hk, h⟩ := bind_eq_ok.1 h
    cases h
    obtain ⟨hr, ht⟩ := took_of_readUnsigned hk
    exact ⟨_, 0, ⟨k, hr, rfl, rfl, rfl⟩, ht⟩
  | str, s, d, s', h => by
    rw [read] at h
    obtain ⟨⟨xs, s₁⟩, hx, h⟩ := bind_eq_ok.1 h
    cases h
    obtain ⟨hl, ht⟩ := took_of_readString hx
    exact ⟨_, 0, ⟨xs, hl, rfl, rfl, rfl⟩, ht⟩
  | time, s, d, s', h => by
    rw [read] at h
    obtain ⟨⟨t, s₁⟩, hi, h⟩ := bind_eq_ok.1 h
    cases h
    obtain ⟨stamp, hs, ht⟩ := took_of_readInstant hi
    exact ⟨_, 0, ⟨stamp, t, hs, rfl, rfl, rfl⟩, ht⟩
  | value u, s, d, s', h => by
    rw [read] at h
    obtain ⟨⟨x, s₁⟩, hx, h⟩ := bind_eq_ok.1 h
    cases h
    exact ⟨_, 0, ⟨x, rfl, rfl, rfl⟩, took_of_readDouble hx⟩
  | complex u, s, d, s', h => by
    rw [read] at h
    obtain ⟨⟨z, s₁⟩, hz, h⟩ := bind_eq_ok.1 h
    cases h
    exact ⟨_, 0, ⟨z, rfl, rfl, rfl⟩, took_of_readComplex hz⟩
  | cluster ts, s, d, s', h => by
    rw [read] at h
    obtain ⟨⟨ds, s₁⟩, hds, h⟩ := bind_eq_ok.1 h
    cases h
    obtain ⟨bs, n, hd, ht⟩ := membersDenote_of_read ts hds
    exact ⟨bs, n, ⟨ds, hd, rfl⟩, ht⟩
  | list (some e) depth, s, d, s', h => by
    rw [read] at h
    obtain ⟨⟨shape, s₁⟩, hs, h⟩ := bind_eq_ok.1 h
    obtain ⟨hl, hn, ht⟩ := took_of_readShape hs
    obtain ⟨leaves, parts, hlen, hshape, hd, rfl, hts⟩ := denotes_of_readItems (denotes_of_read e) h
    exact ⟨_, _, ⟨shape, leaves, parts, hl, hn, hshape, hlen, hd, rfl, rfl, rfl⟩, ht.append hts⟩
  | list Option.none depth, s, d, s', h => by
    rw [read] at h
    obtain ⟨⟨shape, s₁⟩, hs, h⟩ := bind_eq_ok.1 h
    obtain ⟨hl, hn, ht⟩ := took_of_readShape hs
    obtain ⟨⟨total, s₂⟩, hs₂, h⟩ := bind_eq_ok.1 h
    obtain ⟨rfl, hshape, hts⟩ := took_of_enterShape hs₂
    simp only at h
    split at h
    · rename_i h0
      cases h
      exact ⟨_, _, ⟨shape, hl, hn, hshape, h0, rfl, rfl, rfl⟩, by simpa using ht.append hts⟩
    · cases h
  | error payload, s, d, s', h => by
    rw [read] at h
    obtain ⟨⟨code, s₁⟩, hc, h⟩ := bind_eq_ok.1 h
    obtain ⟨⟨message, s₂⟩, hm, h⟩ := bind_eq_ok.1 h
    obtain ⟨⟨q, s₃⟩, hq, h⟩ := bind_eq_ok.1 h
    cases h
    obtain ⟨⟨hlo, hhi⟩, htc⟩ := took_of_readInt hc
    obtain ⟨hlen, htm⟩ := took_of_readString hm
    obtain ⟨tail, n, hd, htq⟩ := payloadDenotes_of_read payload hq
    have hcode : (Int32.ofInt code).toInt = code := Int32.toInt_ofInt_of_le (by omega) (by omega)
    refine ⟨_, n, ⟨.ofInt code, message, tail, q, hlen, hd, rfl, rfl⟩, ?_⟩
    rw [hcode]
    exact (htc.append htm).append htq

theorem membersDenote_of_read : (ts : List Ty) → ∀ {s ds s'}, readMembers order ts s = .ok (ds, s') →
    ∃ bs n, MembersDenote order ts bs ds n ∧ Took bs n s s'
  | [], s, ds, s', h => by
    rw [readMembers] at h
    cases h
    exact ⟨[], 0, ⟨rfl, rfl, rfl⟩, .nothing s⟩
  | t :: ts, s, ds, s', h => by
    rw [readMembers] at h
    obtain ⟨⟨d, s₁⟩, hd, h⟩ := bind_eq_ok.1 h
    obtain ⟨⟨ds', s₂⟩, hds, h⟩ := bind_eq_ok.1 h
    cases h
    obtain ⟨xs, k, hx, htx⟩ := denotes_of_read t hd
    obtain ⟨ys, m, hy, hty⟩ := membersDenote_of_read ts hds
    exact ⟨_, _, ⟨xs, ys, d, ds', k, m, hx, hy, rfl, rfl, rfl⟩, htx.trans hty⟩

theorem payloadDenotes_of_read : (payload : Option Ty) → ∀ {s q s'}, readPayload order payload s = .ok (q, s') →
    ∃ bs n, PayloadDenotes order payload bs q n ∧ Took bs n s s'
  | Option.none, s, q, s', h => by
    rw [readPayload] at h
    cases h
    exact ⟨[], 0, ⟨rfl, rfl, rfl⟩, .nothing s⟩
  | some p, s, q, s', h => by
    rw [readPayload] at h
    obtain ⟨⟨flag, s₁⟩, hf, h⟩ := bind_eq_ok.1 h
    have htf := took_of_readByte hf
    simp only at h
    split at h
    · rename_i h0
      cases h
      exact ⟨_, 0, .inl ⟨by rw [h0], rfl, rfl⟩, htf⟩
    · split at h
      · rename_i h1
        obtain ⟨⟨x, s₂⟩, hx, h⟩ := bind_eq_ok.1 h
        cases h
        obtain ⟨ys, n, hd, ht⟩ := denotes_of_read p hx
        rw [h1] at htf
        exact ⟨_, n, .inr ⟨ys, x, hd, rfl, rfl⟩, htf.append ht⟩
      · cases h

end

/-! ## What is denoted is read -/

mutual

theorem minSize_le_of_denotes : (t : Ty) → ∀ {bs d n}, t.Denotes order bs d n → t.minSize ≤ bs.length
  | none, _, _, _, _ => Nat.zero_le _
  | bool, _, _, _, ⟨b, hb, _⟩ => by simp [hb, minSize]
  | int, _, _, _, ⟨i, _, hb, _⟩ => by simp [hb, minSize]
  | word, _, _, _, ⟨k, _, hb, _⟩ => by simp [hb, minSize]
  | str, _, _, _, ⟨xs, _, hb, _⟩ => by simp [hb, minSize, stringBytes]
  | time, _, _, _, ⟨stamp, t, _, hb, _⟩ => by simp [hb, minSize, stampBytes]
  | value u, _, _, _, ⟨x, hb, _⟩ => by simp [hb, minSize]
  | complex u, _, _, _, ⟨z, hb, _⟩ => by simp [hb, minSize]
  | cluster ts, _, _, _, ⟨ds, hd, _⟩ => minSizes_le_of_denote ts hd
  | list (some e) depth, _, _, _, ⟨shape, leaves, parts, hl, _, _, _, _, hb, _⟩ => by
    rw [minSize, hb, List.length_append, length_shapeBytes, hl]
    exact Nat.le_add_right _ _
  | list Option.none depth, _, _, _, ⟨shape, hl, _, _, _, hb, _⟩ => by
    rw [minSize, hb, length_shapeBytes, hl]
  | error (some p), _, _, _, ⟨code, message, tail, q, _, hq, hb, _⟩ => by
    have htail : 1 ≤ tail.length := by
      rcases hq with ⟨rfl, _⟩ | ⟨ys, x, _, rfl, _⟩ <;> simp
    simp only [minSize, hb, stringBytes, List.length_append, Word.length_encode]
    omega
  | error Option.none, _, _, _, ⟨code, message, tail, q, _, _, hb, _⟩ => by
    simp only [minSize, hb, stringBytes, List.length_append, Word.length_encode]
    omega

theorem minSizes_le_of_denote : (ts : List Ty) → ∀ {bs ds n}, MembersDenote order ts bs ds n →
    minSize.minSizes ts ≤ bs.length
  | [], _, _, _, _ => Nat.zero_le _
  | t :: ts, _, _, _, ⟨xs, ys, d, ds, k, m, hx, hy, hb, _⟩ => by
    have h₁ := minSize_le_of_denotes t hx
    have h₂ := minSizes_le_of_denote ts hy
    rw [minSize.minSizes, hb, List.length_append]
    omega

end

theorem minSize_mul_le {e : Ty} {leaves : List (Data × Nat)} {parts : List (List UInt8)} (rest : List UInt8)
    (hd : List.Forall₂ (fun x p => e.Denotes order p x.1 x.2) leaves parts) :
    leaves.length * e.minSize ≤ (parts.flatten ++ rest).length := by
  rw [List.length_append]
  exact Nat.le_add_right_of_le (length_flatten_of_le (hd.imp fun _ _ h => minSize_le_of_denotes e h))

theorem reads_of_leaves {e : Ty} {shape : List Nat} {leaves : List (Data × Nat)} {parts : List (List UInt8)}
    (rest : List UInt8) (hshape : ∀ i, Data.cells (shape.take i) < 0x10000000000000000)
    (hl : leaves.length = Data.cells shape) (hd : List.Forall₂ (fun x p => e.Denotes order p x.1 x.2) leaves parts)
    (hr : ∀ {bs d n}, e.Denotes order bs d n → ∀ rest, Reads (e.read order) (bs ++ rest) d rest n) :
    Reads (readItems order e (e.read order) shape) (parts.flatten ++ rest) (e.assemble shape (leaves.map Prod.fst)) rest
      (freeCellsOf (e.minSize = 0) shape + (leaves.map Prod.snd).sum) := by
  have hb := minSize_mul_le rest hd
  rw [hl] at hb
  rcases assemble_cases e shape (leaves.map Prod.fst) with ⟨k, a, rfl, ha, he⟩ | ⟨hna, he⟩
  · have hk : k = (leaves.map Prod.fst).length := by simpa using hl.symm
    have hemit : List.Forall₂ (fun x p => (e.emit order x).result = .ok p) (leaves.map Prod.fst) parts :=
      forall₂_map_left (hd.imp fun x p h => (emit_of_denotes_item ha h).1)
    have h0 : (leaves.map Prod.snd).sum = 0 :=
      List.sum_eq_zero (List.forall_mem_map.2 (forall_of_forall₂ hd fun h => (emit_of_denotes_item ha h).2))
    obtain ⟨readArray, hra, hread⟩ := reads_gathered rest ha hemit
    rw [he, h0, hk]
    exact reads_array (by rwa [hk] at hshape) (by simpa [hk] using hb) hra hread
  · rw [he]
    refine reads_nested hshape hl hb (fun h1 => readArray?_of_gather? _ (hna h1)) (hd.imp fun x p h => hr h)

mutual

/-- Bytes that stand for a value are read as this value, whatever follows them. -/
theorem reads_of_denotes : (t : Ty) → ∀ {bs d n}, t.Denotes order bs d n → ∀ rest,
    Reads (t.read order) (bs ++ rest) d rest n
  | none, bs, d, n, ⟨hb, hd, hn⟩, rest => by
    subst hb hd hn
    exact .free fun _ => by simp [read]
  | bool, bs, d, n, ⟨b, hb, hd, hn⟩, rest => by
    subst hb hd hn
    refine .free fun _ => ?_
    cases b <;> simp [read, readByte, bind, Except.bind]
  | int, bs, d, n, ⟨i, hr, hb, hd, hn⟩, rest => by
    subst hb hd hn
    exact (reads_int order rest hr).map (fun n => Data.int (.ofInt n)) fun _ => rfl
  | word, bs, d, n, ⟨k, hk, hb, hd, hn⟩, rest => by
    subst hb hd hn
    exact (reads_unsigned order rest 4 hk).map (fun n => Data.word (.ofNat n)) fun _ => rfl
  | str, bs, d, n, ⟨xs, hl, hb, hd, hn⟩, rest => by
    subst hb hd hn
    exact (reads_string order rest hl).map Data.bytes fun _ => rfl
  | time, bs, d, n, ⟨stamp, t, ht, hb, hd, hn⟩, rest => by
    subst hb hd hn
    exact (reads_stamp order rest ht).map Data.time fun _ => rfl
  | value u, bs, d, n, ⟨x, hb, hd, hn⟩, rest => by
    subst hb hd hn
    exact (reads_double order rest x).map (fun x => Data.ofValue x u.label) fun _ => rfl
  | complex u, bs, d, n, ⟨z, hb, hd, hn⟩, rest => by
    subst hb hd hn
    exact (reads_complex order rest z).map (fun z => Data.ofComplex z u.label) fun _ => rfl
  | cluster ts, bs, d, n, ⟨ds, hds, hd⟩, rest => by
    subst hd
    exact (reads_of_membersDenote ts hds rest).map Data.tuple fun _ => by rw [read]; rfl
  | list (some e) depth, bs, d, n, ⟨shape, leaves, parts, hl, hk, hshape, hlen, hp, hb, hd, hn⟩, rest => by
    subst hl hb hd hn
    have hs := reads_shape order (parts.flatten ++ rest) hk
    rw [List.append_assoc, ← Nat.zero_add (freeCellsOf _ _ + _)]
    exact hs.bind (readItems order e (e.read order)) (fun _ => by rw [read]; rfl)
      (reads_of_leaves rest hshape hlen hp (reads_of_denotes e))
  | list Option.none depth, bs, d, n, ⟨shape, hl, hk, hshape, h0, hb, hd, hn⟩, rest => by
    subst hl hb hd hn
    have hs := reads_shape order rest hk
    rw [← Nat.zero_add (freeCellsOf true shape)]
    exact hs.bind readNoElements (fun _ => by rw [read]; rfl) (reads_noElements hshape h0)
  | error payload, bs, d, n, ⟨code, message, tail, q, hm, hq, hb, hd⟩, rest => by
    subst hb hd
    exact reads_error_lossy hm (reads_of_payloadDenotes payload hq rest)

theorem reads_of_membersDenote : (ts : List Ty) → ∀ {bs ds n}, MembersDenote order ts bs ds n → ∀ rest,
    Reads (readMembers order ts) (bs ++ rest) ds rest n
  | [], bs, ds, n, ⟨hb, hd, hn⟩, rest => by
    subst hb hd hn
    exact .free fun _ => by simp [readMembers]
  | t :: ts, bs, ds, n, ⟨xs, ys, d, ds', k, m, hx, hy, hb, hd, hn⟩, rest => by
    subst hb hd hn
    have h₁ := reads_of_denotes t hx (ys ++ rest)
    have h₂ := reads_of_membersDenote ts hy rest
    rw [List.append_assoc]
    exact h₁.bind (fun d s => (readMembers order ts s).bind fun p => .ok (d :: p.1, p.2))
      (fun _ => by rw [readMembers]; rfl) (h₂.map (d :: ·) fun _ => rfl)

theorem reads_of_payloadDenotes : (payload : Option Ty) → ∀ {bs q n}, PayloadDenotes order payload bs q n → ∀ rest,
    Reads (readPayload order payload) (bs ++ rest) q rest n
  | Option.none, bs, q, n, ⟨hb, hq, hn⟩, rest => by
    subst hb hq hn
    exact .free fun _ => by simp [readPayload]
  | some p, bs, q, n, h, rest => by
    rcases h with ⟨hb, hq, hn⟩ | ⟨ys, x, hx, hb, hq⟩
    · subst hb hq hn
      exact .free fun _ => by simp [readPayload, readByte, bind, Except.bind]
    · subst hb hq
      have hr := reads_of_denotes p hx rest
      refine ⟨fun {free} hfree => ?_, fun {free} hfree => ?_⟩
      · simp [readPayload, readByte, bind, Except.bind, hr.ok hfree]
      · obtain ⟨shape, hs⟩ := hr.tooLarge hfree
        exact ⟨shape, by simp [readPayload, readByte, bind, Except.bind, hs]⟩

end

end Ty

/-- A whole buffer is read as a value exactly if it stands for the value and the free cells suffice. -/
theorem Codec.unflatten_eq_ok {c : Codec} {bs : List UInt8} {t : Ty} {d : Data} :
    c.unflatten bs t = .ok d ↔ ∃ n, n ≤ maxFreeCells ∧ t.Denotes c.order bs d n := by
  unfold Codec.unflatten Ty.unflatten
  constructor
  · intro h
    obtain ⟨⟨d', s⟩, hr, h⟩ := bind_eq_ok.1 h
    obtain ⟨bs', n, hd, ht⟩ := Ty.denotes_of_read t hr
    simp only at h
    split at h
    · rename_i hs
      cases h
      have hb : bs = bs' := by simpa [hs] using ht.rest
      exact ⟨n, Nat.le.intro (ht.freeCells.symm ▸ Nat.add_comm n _), hb ▸ hd⟩
    · cases h
  · rintro ⟨n, hn, hd⟩
    have hr := (Ty.reads_of_denotes t hd []).ok hn
    rw [List.append_nil] at hr
    rw [hr]
    rfl

end TagWire
