import TagWire.Codec
import TagWire.Proofs.Text.Utf8
import TagWire.Proofs.Wire.Normal
import TagWire.Proofs.Wire.Readers

/-!
# What is written is read back

Unflattening the bytes of a value gives the normal form of the value, unless the lists of the value have more
cells without bytes than a buffer may declare.
-/

namespace TagWire.Ty

variable {order : ByteOrder} {rest : List UInt8}

/-! ## The least size -/

theorem length_shapeBytes (shape : List Nat) : (shapeBytes order shape).length = 4 * shape.length := by
  induction shape with
  | nil => rfl
  | cons n shape ih =>
    rw [shapeBytes_cons, List.length_append, Word.length_encode, ih, List.length_cons]
    omega

theorem length_shape_of_grid {d : Data} {depth : Nat} {g : Grid} (h : d.grid depth = .ok g) :
    depth ≤ g.shape.length := by
  cases depth with
  | zero => exact Nat.zero_le _
  | succ k => exact Nat.le_of_eq (Data.grid_spec h).1.symm

theorem length_errorBytes (order : ByteOrder) (code : Int32) (message : String) : 8 ≤ (errorBytes order code message).length := by
  simp only [errorBytes, stringBytes, List.length_append, Word.length_encode]
  omega

mutual

/-- No value takes up fewer bytes than the decoder counts on. -/
theorem minSize_le : (t : Ty) → ∀ {d bs}, (t.emit order d).result = .ok bs → t.minSize ≤ bs.length
  | none, _, _, _ => Nat.zero_le _
  | bool, _, _, h => by
    obtain ⟨b, _, rfl⟩ := emit_bool.1 h
    exact Nat.le_refl 1
  | int, _, _, h => by
    obtain ⟨n, _, _, rfl⟩ := emit_int.1 h
    simp [minSize]
  | word, _, _, h => by
    obtain ⟨n, _, _, rfl⟩ := emit_word.1 h
    simp [minSize]
  | str, _, _, h => by
    obtain ⟨xs, _, _, rfl⟩ := emit_str.1 h
    simp [minSize, stringBytes]
  | time, _, _, h => by
    obtain ⟨i, _, rfl⟩ := emit_time.1 h
    simp [minSize, stampBytes]
  | value u, _, _, h => by
    obtain ⟨x, _, rfl⟩ := emit_value.1 h
    simp [minSize]
  | complex u, _, _, h => by
    obtain ⟨z, _, rfl⟩ := emit_complex.1 h
    simp [minSize]
  | cluster ts, _, _, h => by
    obtain ⟨ds, _, hl, hm⟩ := emit_cluster.1 h
    exact minSizes_le ts hl hm
  | list (some e) depth, _, _, h => by
    obtain ⟨g, parts, hg, _, _, rfl⟩ := emit_list.1 h
    have hd := length_shape_of_grid hg
    rw [minSize, List.length_append, length_shapeBytes]
    omega
  | list .none depth, _, _, h => by
    obtain ⟨g, hg, _, _, rfl⟩ := emit_emptyList.1 h
    have hd := length_shape_of_grid hg
    rw [minSize, length_shapeBytes]
    omega
  | error (some p), _, _, h => by
    obtain ⟨code, message, payload, tail, _, _, rfl, ht⟩ := emit_error.1 h
    have he := length_errorBytes order code message
    have hn : 1 ≤ tail.length := by
      cases payload with
      | none => rw [ht]; exact Nat.le_refl 1
      | some q =>
        obtain ⟨ys, _, rfl⟩ := ht
        simp
    rw [minSize, List.length_append]
    omega
  | error .none, _, _, h => by
    obtain ⟨code, message, _, _, rfl⟩ := emit_bareError.1 h
    exact length_errorBytes order code message

theorem minSizes_le : (ts : List Ty) → ∀ {ds bs}, ds.length = ts.length →
    (emitMembers order ts ds).result = .ok bs → minSize.minSizes ts ≤ bs.length
  | [], _, _, _, _ => Nat.zero_le _
  | t :: ts, d :: ds, _, hl, h => by
    obtain ⟨xs, ys, hx, hy, rfl⟩ := emitMembers_cons.1 h
    have h₁ := minSize_le t hx
    have h₂ := minSizes_le ts (by simpa using hl) hy
    rw [minSize.minSizes, List.length_append]
    omega

end

theorem length_flatten_of_le {α : Type} {n : Nat} {xs : List α} {parts : List (List UInt8)}
    (h : List.Forall₂ (fun _ p => n ≤ p.length) xs parts) : xs.length * n ≤ parts.flatten.length := by
  induction h with
  | nil => simp
  | cons hp _ ih =>
    rw [List.flatten_cons, List.length_append, List.length_cons, Nat.succ_mul]
    omega

/-! ## Lists without bytes -/

mutual

/-- The lists that are written for a value: their elements, and their lengths from the outermost on. -/
def lists : Ty → Data → List (Option Ty × List Nat)
  | cluster ts, .tuple ds => listsOfMembers ts ds
  | list (some e) depth, d =>
    match d.grid depth with
    | .ok g => (some e, g.shape) :: g.leaves.flatMap e.lists
    | .error _ => []
  | list .none depth, d =>
    match d.grid depth with
    | .ok g => [(Option.none, g.shape)]
    | .error _ => []
  | error (some p), .error _ _ (some q) => p.lists q
  | _, _ => []

def listsOfMembers : List Ty → List Data → List (Option Ty × List Nat)
  | t :: ts, d :: ds => t.lists d ++ listsOfMembers ts ds
  | _, _ => []

end

/-- The cells without bytes of some lists. -/
def freeCellsOfLists (ls : List (Option Ty × List Nat)) : Nat :=
  (ls.map fun l => freeCellsOf (l.1.all (·.minSize = 0)) l.2).sum

/-- The list cells of a value that take up no bytes: the rows of empty grids, and elements without bytes. -/
def freeCells (t : Ty) (d : Data) : Nat := freeCellsOfLists (t.lists d)

/-- All products of lengths of some lists fit into 64 bits. -/
def Fit (ls : List (Option Ty × List Nat)) : Prop := ∀ l ∈ ls, ∀ i, Data.cells (l.2.take i) < 0x10000000000000000

theorem freeCellsOfLists_append (ls ms : List (Option Ty × List Nat)) :
    freeCellsOfLists (ls ++ ms) = freeCellsOfLists ls + freeCellsOfLists ms := by
  simp [freeCellsOfLists]

theorem Fit.append {ls ms : List (Option Ty × List Nat)} (h : Fit (ls ++ ms)) : Fit ls ∧ Fit ms :=
  List.forall_mem_append.1 h

theorem freeCellsOfLists_flatMap (f : Data → List (Option Ty × List Nat)) (ds : List Data) :
    freeCellsOfLists (ds.flatMap f) = (ds.map fun d => freeCellsOfLists (f d)).sum := by
  induction ds with
  | nil => rfl
  | cons d ds ih => rw [List.flatMap_cons, freeCellsOfLists_append, ih, List.map_cons, List.sum_cons]

theorem freeCells_list {e : Ty} {depth : Nat} {d : Data} {g : Grid} (h : d.grid depth = .ok g) :
    (list (some e) depth).freeCells d = freeCellsOf (e.minSize = 0) g.shape + (g.leaves.map e.freeCells).sum := by
  have hl : (list (some e) depth).lists d = [(some e, g.shape)] ++ g.leaves.flatMap e.lists := by simp [lists, h]
  have hs : freeCellsOfLists [(some e, g.shape)] = freeCellsOf (e.minSize = 0) g.shape := by simp [freeCellsOfLists]
  rw [freeCells, hl, freeCellsOfLists_append, freeCellsOfLists_flatMap, hs]
  rfl

theorem Fit.list {e : Ty} {depth : Nat} {d : Data} {g : Grid} (h : d.grid depth = .ok g)
    (hf : Fit ((list (some e) depth).lists d)) :
    (∀ i, Data.cells (g.shape.take i) < 0x10000000000000000) ∧ ∀ x ∈ g.leaves, Fit (e.lists x) := by
  simp only [lists, h] at hf
  obtain ⟨hs, hx⟩ := List.forall_mem_cons.1 hf
  exact ⟨hs, fun x hm l hl => hx l (List.mem_flatMap.2 ⟨x, hm, hl⟩)⟩

/-! ## Arrays -/

theorem reads_all {α : Type} {read : Reader α} {as : List α} {n : Nat} {parts : List (List UInt8)}
    (hn : parts.length = n) (h : List.Forall₂ (fun a p => ∀ rest, Reads read (p ++ rest) a rest 0) as parts) :
    Reads (readTimes read n []) (parts.flatten ++ rest) as rest 0 := by
  have ht : Reads (readTimes read as.length []) (parts.flatten ++ rest) ([].reverse ++ as.map id) rest
    (as.map fun _ => 0).sum := reads_times h
  rw [h.length_eq, hn] at ht
  simpa using ht

theorem reads_gathered {e : Ty} {xs : List Data} {a : Data} {parts : List (List UInt8)} (rest : List UInt8)
    (ha : e.gather? xs = some a)
    (h : List.Forall₂ (fun x p => (e.emit order x).result = .ok p) xs parts) :
    ∃ readArray, readArray? order e xs.length = some readArray ∧
      Reads readArray (parts.flatten ++ rest) a rest 0 := by
  have hn := h.length_eq.symm
  match e, ha with
  | int, ha =>
    cases ha
    have hr : List.Forall₂ (fun n p => ∀ rest, Reads (readSigned order 4) (p ++ rest) n rest 0)
        (xs.filterMap Data.integer?) parts := by
      refine forall₂_filterMap (h.imp fun x p hx => ?_)
      obtain ⟨n, hi, hr, rfl⟩ := emit_int.1 hx
      exact ⟨n, hi, fun rest => reads_int order rest hr⟩
    exact ⟨_, rfl, (reads_all hn hr).map (fun ns => Data.array (.int32 (ns.map .ofInt))) fun _ => rfl⟩
  | word, ha =>
    cases ha
    have hr : List.Forall₂ (fun n p => ∀ rest, Reads (readUnsigned order 4) (p ++ rest) n rest 0)
        ((xs.filterMap Data.integer?).map Int.toNat) parts := by
      refine forall₂_map_left (forall₂_filterMap (h.imp fun x p hx => ?_))
      obtain ⟨n, hi, hr, rfl⟩ := emit_word.1 hx
      exact ⟨n, hi, fun rest => reads_word order rest hr⟩
    exact ⟨_, rfl, (reads_all hn hr).map (fun ns => Data.array (.word32 (ns.map .ofNat))) fun _ => rfl⟩
  | value u, ha =>
    cases ha
    have hr : List.Forall₂ (fun y p => ∀ rest, Reads (readDouble order) (p ++ rest) y rest 0)
        ((xs.filterMap Data.real?).map Prod.fst) parts := by
      refine forall₂_map_left (forall₂_filterMap (h.imp fun x p hx => ?_))
      obtain ⟨y, hy, rfl⟩ := emit_value.1 hx
      exact ⟨_, hy, fun rest => reads_double order rest y⟩
    exact ⟨_, rfl, (reads_all hn hr).map (fun ys => Data.ofValues ys u.label) fun _ => rfl⟩
  | complex .unspecified, ha | complex .dimensionless, ha =>
    cases ha
    have hr : List.Forall₂ (fun z p => ∀ rest, Reads (readComplex order) (p ++ rest) z rest 0)
        ((xs.filterMap Data.complex?).map Prod.fst) parts := by
      refine forall₂_map_left (forall₂_filterMap (h.imp fun x p hx => ?_))
      obtain ⟨z, hz, rfl⟩ := emit_complex.1 hx
      exact ⟨_, hz, fun rest => reads_complex order rest z⟩
    exact ⟨_, rfl, (reads_all hn hr).map (fun zs => Data.array (.complex128 zs)) fun _ => rfl⟩

theorem readArray?_of_gather? {e : Ty} {xs : List Data} (n : Nat) (h : e.gather? xs = Option.none) :
    readArray? order e n = Option.none := by
  unfold gather? at h
  split at h <;> simp_all [readArray?]

theorem freeCells_of_gather? {e : Ty} {xs : List Data} {a : Data} (h : e.gather? xs = some a) (x : Data) :
    e.freeCells x = 0 := by
  unfold gather? at h
  split at h <;> simp_all [freeCells, lists, freeCellsOfLists]

/-! ## Reading what was written -/

/-- The elements of a list, each read as its normal form, are read as the normal form of the list. -/
theorem reads_list {e : Ty} {d : Data} {depth : Nat} {g : Grid} {parts : List (List UInt8)} (hd : 1 ≤ depth)
    (hg : d.grid depth = .ok g) (hf : ∀ i, Data.cells (g.shape.take i) < 0x10000000000000000)
    (hp : List.Forall₂ (fun x p => (e.emit order x).result = .ok p) g.leaves parts)
    (hr : List.Forall₂ (fun x p => ∀ rest, Reads (e.read order) (p ++ rest) (e.norm x) rest (e.freeCells x))
      g.leaves parts) :
    Reads (readItems order e (e.read order) g.shape) (parts.flatten ++ rest) ((list (some e) depth).norm d) rest
      ((list (some e) depth).freeCells d) := by
  have hl := grid_leavesAt hd hg
  have hb : g.leaves.length * e.minSize ≤ (parts.flatten ++ rest).length := by
    rw [List.length_append]
    exact Nat.le_add_right_of_le (length_flatten_of_le (hp.imp fun _ _ hx => minSize_le e hx))
  rw [freeCells_list hg]
  rcases norm_list e d depth with ⟨rfl, a, ha, hn⟩ | ⟨hna, hn⟩
  · have h0 : (g.leaves.map e.freeCells).sum = 0 := by
      rw [List.map_congr_left fun x _ => freeCells_of_gather? ha x]
      simp
    rw [← hl] at ha
    obtain ⟨readArray, hra, hread⟩ := reads_gathered rest ha hp
    rw [shape_of_grid_one hg] at hf ⊢
    rw [hn, h0]
    exact reads_array hf hb hra hread
  · obtain ⟨k, rfl⟩ := Nat.exists_eq_add_of_le' hd
    have hc := Data.length_leaves hg
    have hna' : g.shape.length = 1 → readArray? order e (Data.cells g.shape) = Option.none := by
      intro h1
      exact readArray?_of_gather? _ (hna ((Data.grid_spec hg).1.symm.trans h1))
    rw [hn, ← Data.nest_leaves e.norm hg]
    exact reads_nested hf hc (hc ▸ hb) hna' hr

theorem freeCells_emptyList {d : Data} {depth : Nat} {g : Grid} (h : d.grid depth = .ok g) :
    (list .none depth).freeCells d = freeCellsOf true g.shape := by
  simp [freeCells, lists, h, freeCellsOfLists]

/-- An error is read if its payload is, whether or not its message is text. -/
theorem reads_error_lossy {payload : Option Ty} {code : Int32} {message tail : List UInt8} {q : Option Data} {cost : Nat}
    (hm : message.length < 0x100000000) (hp : Reads (readPayload order payload) (tail ++ rest) q rest cost) :
    Reads ((error payload).read order) (Word.encode order 4 code.toInt ++ stringBytes order message ++ tail ++ rest)
      (.error code (Utf8.decodeLossy message) q) rest cost := by
  have hc := reads_int order (stringBytes order message ++ (tail ++ rest)) ⟨code.le_toInt, code.toInt_lt⟩
  have hs := reads_string order (tail ++ rest) hm
  have hq : Reads (fun s => (readPayload order payload s).bind fun p =>
      .ok (Data.error code (Utf8.decodeLossy message) p.1, p.2))
      (tail ++ rest) (.error code (Utf8.decodeLossy message) q) rest cost :=
    hp.map (Data.error code (Utf8.decodeLossy message)) fun _ => rfl
  have hmq : Reads (fun s => (readString order s).bind fun p => (readPayload order payload p.2).bind fun q =>
      .ok (Data.error code (Utf8.decodeLossy p.1) q.1, q.2)) (stringBytes order message ++ (tail ++ rest))
      (.error code (Utf8.decodeLossy message) q) rest (0 + cost) :=
    hs.bind (fun m s => (readPayload order payload s).bind fun q =>
      .ok (Data.error code (Utf8.decodeLossy m) q.1, q.2)) (fun _ => rfl) hq
  rw [List.append_assoc, List.append_assoc, ← Nat.zero_add cost, ← Nat.zero_add (0 + cost)]
  refine hc.bind (fun n s => (readString order s).bind fun p => (readPayload order payload p.2).bind fun q =>
    .ok (Data.error (.ofInt n) (Utf8.decodeLossy p.1) q.1, q.2)) (fun _ => by rw [read]; rfl) ?_
  rw [Int32.ofInt_toInt]
  exact hmq

theorem reads_error {payload : Option Ty} {code : Int32} {message : String} {tail : List UInt8} {q : Option Data}
    {cost : Nat} (hm : (Utf8.encode message).length < 0x100000000)
    (hp : Reads (readPayload order payload) (tail ++ rest) q rest cost) :
    Reads ((error payload).read order) (errorBytes order code message ++ tail ++ rest) (.error code message q) rest
      cost := by
  have h : Reads ((error payload).read order) (errorBytes order code message ++ tail ++ rest) _ rest cost :=
    reads_error_lossy hm hp
  rwa [Utf8.decodeLossy_encode] at h

mutual

/-- The bytes of a value are read as its normal form, whatever follows them. -/
theorem reads_norm : (t : Ty) → t.Dimensioned → ∀ {d bs}, (t.emit order d).result = .ok bs → Fit (t.lists d) →
    ∀ rest, Reads (t.read order) (bs ++ rest) (t.norm d) rest (t.freeCells d)
  | none, _, d, bs, h, _, rest => by
    obtain ⟨rfl, rfl⟩ := emit_none.1 h
    exact .free fun _ => by simp [read, norm]
  | bool, _, d, bs, h, _, rest => by
    obtain ⟨b, rfl, rfl⟩ := emit_bool.1 h
    refine .free fun _ => ?_
    cases b <;> simp [read, readByte, norm, bind, Except.bind]
  | int, _, d, bs, h, _, rest => by
    obtain ⟨n, hn, hr, rfl⟩ := emit_int.1 h
    rw [norm, hn]
    exact (reads_int order rest hr).map (fun n => Data.int (.ofInt n)) fun _ => rfl
  | word, _, d, bs, h, _, rest => by
    obtain ⟨n, hn, hr, rfl⟩ := emit_word.1 h
    rw [norm, hn]
    exact (reads_word order rest hr).map (fun n => Data.word (.ofNat n)) fun _ => rfl
  | str, _, d, bs, h, _, rest => by
    obtain ⟨xs, hx, hl, rfl⟩ := emit_str.1 h
    rw [norm, hx]
    exact (reads_string order rest hl).map Data.bytes fun _ => rfl
  | time, _, d, bs, h, _, rest => by
    obtain ⟨i, rfl, rfl⟩ := emit_time.1 h
    rw [norm]
    exact (reads_instant order rest i).map Data.time fun _ => rfl
  | value u, _, d, bs, h, _, rest => by
    obtain ⟨x, hx, rfl⟩ := emit_value.1 h
    rw [norm, hx]
    exact (reads_double order rest x).map (fun x => Data.ofValue x u.label) fun _ => rfl
  | complex u, _, d, bs, h, _, rest => by
    obtain ⟨z, hz, rfl⟩ := emit_complex.1 h
    rw [norm, hz]
    exact (reads_complex order rest z).map (fun z => Data.ofComplex z u.label) fun _ => rfl
  | cluster ts, ht, d, bs, h, hf, rest => by
    obtain ⟨ds, rfl, hl, hm⟩ := emit_cluster.1 h
    have hr := reads_normMembers ts ht hl hm (by simpa [lists] using hf) rest
    have hc : (cluster ts).freeCells (.tuple ds) = freeCellsOfLists (listsOfMembers ts ds) := by
      rw [freeCells, lists]
    rw [norm, hc]
    exact hr.map Data.tuple fun _ => by rw [read]; rfl
  | list (some e) depth, ⟨hd, he⟩, d, bs, h, hf, rest => by
    obtain ⟨g, parts, hg, hs, hp, rfl⟩ := emit_list.1 h
    obtain ⟨hfs, hfx⟩ := Fit.list hg hf
    have hlen : g.shape.length = depth := length_shape_of_dimensioned hd hg
    have hr : List.Forall₂ (fun x p => ∀ rest, Reads (e.read order) (p ++ rest) (e.norm x) rest (e.freeCells x))
        g.leaves parts := by
      refine List.forall₂_iff_get.2 ⟨hp.length_eq, fun i h₁ h₂ => ?_⟩
      exact reads_norm e he (hp.get h₁ h₂) (hfx _ (List.get_mem _ _))
    have hshape : Reads (readShape order depth) _ g.shape _ 0 :=
      hlen ▸ reads_shape order (parts.flatten ++ rest) hs
    rw [List.append_assoc, ← Nat.zero_add ((list (some e) depth).freeCells d)]
    exact hshape.bind (readItems order e (e.read order)) (fun _ => by rw [read]; rfl) (reads_list hd hg hfs hp hr)
  | list .none depth, hd, d, bs, h, hf, rest => by
    obtain ⟨g, hg, hs, hl, rfl⟩ := emit_emptyList.1 h
    obtain ⟨k, rfl⟩ := Nat.exists_eq_add_of_le' hd
    have hfs : ∀ i, Data.cells (g.shape.take i) < 0x10000000000000000 := by
      simp only [lists, hg] at hf
      exact hf _ (List.mem_singleton_self _)
    have hc : Data.cells g.shape = 0 := by
      rw [← Data.length_leaves hg, hl, List.length_nil]
    have hnest : Data.nest g.shape [] = (list .none (k + 1)).norm d := by
      rw [norm, ← Data.nest_leaves id hg, hl, List.map_nil]
    have hshape : Reads (readShape order (k + 1)) _ g.shape _ 0 :=
      (Data.grid_spec hg).1 ▸ reads_shape order rest hs
    rw [freeCells_emptyList hg, ← hnest, ← Nat.zero_add (freeCellsOf true g.shape)]
    exact hshape.bind readNoElements (fun _ => by rw [read]; rfl) (reads_noElements hfs hc)
  | error (some p), ht, d, bs, h, hf, rest => by
    obtain ⟨code, message, payload, tail, rfl, hm, rfl, htail⟩ := emit_error.1 h
    cases payload with
    | none =>
      have hn : (error (some p)).norm (.error code message .none) = .error code message .none := by simp [norm]
      have hc : (error (some p)).freeCells (.error code message .none) = 0 := by
        simp [freeCells, lists, freeCellsOfLists]
      rw [hn, hc, htail]
      exact reads_error hm (.free fun _ => rfl)
    | some q =>
      obtain ⟨ys, hy, rfl⟩ := htail
      have hc : (error (some p)).freeCells (.error code message (some q)) = p.freeCells q := by
        simp [freeCells, lists]
      have hr := reads_norm p ht hy (by simpa [lists] using hf) rest
      rw [norm, hc]
      refine reads_error hm ⟨fun {free} hfree => ?_, fun {free} hfree => ?_⟩
      · simp [readPayload, readByte, bind, Except.bind, hr.ok hfree]
      · obtain ⟨shape, hs⟩ := hr.tooLarge hfree
        exact ⟨shape, by simp [readPayload, readByte, bind, Except.bind, hs]⟩
  | error .none, _, d, bs, h, _, rest => by
    obtain ⟨code, message, rfl, hm, rfl⟩ := emit_bareError.1 h
    have hn : (error .none).norm (.error code message .none) = .error code message .none := by simp [norm]
    have hc : (error .none).freeCells (.error code message .none) = 0 := by
      simp [freeCells, lists, freeCellsOfLists]
    rw [hn, hc, ← List.append_nil (errorBytes order code message)]
    exact reads_error hm (.free fun _ => rfl)

theorem reads_normMembers : (ts : List Ty) → AllDimensioned ts → ∀ {ds bs}, ds.length = ts.length →
    (emitMembers order ts ds).result = .ok bs → Fit (listsOfMembers ts ds) →
    ∀ rest, Reads (readMembers order ts) (bs ++ rest) (normMembers ts ds) rest (freeCellsOfLists (listsOfMembers ts ds))
  | [], _, [], bs, _, h, _, rest => by
    obtain rfl := emitMembers_nil.1 h
    exact .free fun _ => by simp [readMembers, normMembers]
  | t :: ts, ⟨ht, hts⟩, d :: ds, bs, hl, h, hf, rest => by
    obtain ⟨xs, ys, hx, hy, rfl⟩ := emitMembers_cons.1 h
    rw [listsOfMembers] at hf
    obtain ⟨hf₁, hf₂⟩ := hf.append
    have h₁ := reads_norm t ht hx hf₁ (ys ++ rest)
    have h₂ := reads_normMembers ts hts (by simpa using hl) hy hf₂ rest
    rw [listsOfMembers, freeCellsOfLists_append, normMembers, List.append_assoc]
    exact h₁.bind (fun d s => (readMembers order ts s).bind fun p => .ok (d :: p.1, p.2))
      (fun _ => by rw [readMembers]; rfl) (h₂.map (t.norm d :: ·) fun _ => rfl)

end

end TagWire.Ty

namespace TagWire.Codec

/-- What a codec has flattened it unflattens to the normal form, which flattens to the same bytes. Only values
with more free cells than a buffer may declare are refused, as too large. -/
theorem unflatten_flattenAs (c : Codec) {t : Ty} {d : Data} {bs : List UInt8} (ht : t.Dimensioned)
    (hf : Ty.Fit (t.lists d)) (h : c.flattenAs d t = .ok bs) :
    (t.freeCells d ≤ maxFreeCells → c.unflatten bs t = .ok (t.norm d)) ∧
    (maxFreeCells < t.freeCells d → ∃ shape, c.unflatten bs t = .error (.tooLarge shape)) ∧
    c.flattenAs (t.norm d) t = .ok bs := by
  have hr : Reads (t.read c.order) bs (t.norm d) [] (t.freeCells d) := by
    have := Ty.reads_norm t ht h hf []
    rwa [List.append_nil] at this
  refine ⟨fun hfree => ?_, fun hfree => ?_, Ty.emit_norm t ht h⟩
  · rw [unflatten, Ty.unflatten, hr.ok hfree]
    rfl
  · obtain ⟨shape, hs⟩ := hr.tooLarge hfree
    exact ⟨shape, by rw [unflatten, Ty.unflatten, hs]; rfl⟩

/-- A list of mixed integers comes back as an array, and text as bytes. -/
theorem unflatten_flattenAs_tuple :
    let t : Ty := .cluster [.list (some .int) 1, .list (some .none) 2, .str]
    let d : Data := .tuple [.list [.int 1, .word 2], .list [.list [.none, .none]], .text "a"]
    let bs : List UInt8 := [0, 0, 0, 2, 0, 0, 0, 1, 0, 0, 0, 2, 0, 0, 0, 1, 0, 0, 0, 2, 0, 0, 0, 1, 97]
    t.Dimensioned ∧ Ty.Fit (t.lists d) ∧ ({} : Codec).flattenAs d t = .ok bs ∧
      ({} : Codec).unflatten bs t =
        .ok (.tuple [.array (.int32 [1, 2]), .list [.list [.none, .none]], .bytes [97]]) := by
  intro t d bs
  have ht : t.Dimensioned := by simp [t, Ty.Dimensioned, Ty.AllDimensioned]
  have hl : t.lists d = [(some .int, [2]), (some .none, [1, 2])] := rfl
  have hf : Ty.Fit (t.lists d) := by
    rw [hl]
    intro l hm i
    rcases List.mem_pair.1 hm with rfl | rfl <;> rcases i with _ | _ | i <;> simp
  have h : ({} : Codec).flattenAs d t = .ok bs := rfl
  exact ⟨ht, hf, h, (unflatten_flattenAs {} ht hf h).1 (by decide)⟩

end TagWire.Codec
