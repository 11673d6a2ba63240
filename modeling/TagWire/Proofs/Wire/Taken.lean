import TagWire.Proofs.Outcome
import TagWire.Proofs.Wire.Readers

/-!
# What readers take

A reader that gives a value has taken some bytes off the front of its input, and some free cells. Here is one
statement for each reader of what those bytes are.
-/

namespace TagWire

/-- Some bytes are gone from the front of an input, and a number of free cells. -/
structure Took (bytes : List UInt8) (cost : Nat) (s s' : Input) : Prop where
  rest : s.rest = bytes ++ s'.rest
  freeCells : s.freeCells = s'.freeCells + cost

variable {bytes bytes' : List UInt8} {m n : Nat} {s s' s'' : Input} {order : ByteOrder}

namespace Took

theorem nothing (s : Input) : Took [] 0 s s := ⟨rfl, rfl⟩

theorem trans (h : Took bytes m s s') (h' : Took bytes' n s' s'') : Took (bytes ++ bytes') (m + n) s s'' where
  rest := by rw [h.rest, h'.rest, List.append_assoc]
  freeCells := by rw [h.freeCells, h'.freeCells, Nat.add_assoc, Nat.add_comm n]

theorem append (h : Took bytes 0 s s') (h' : Took bytes' n s' s'') : Took (bytes ++ bytes') n s s'' := by
  simpa using h.trans h'

end Took

/-- A reader of some bytes reads them off an input that they are gone from. -/
theorem Reads.of_took {α : Type} {read : Reader α} {bytes : List UInt8} {a : α} {n : Nat} {s s' : Input}
    (h : Reads read (bytes ++ s'.rest) a s'.rest n) (ht : Took bytes n s s') : read s = .ok (a, s') := by
  obtain ⟨rest, free⟩ := s
  obtain ⟨rfl, rfl⟩ : rest = bytes ++ s'.rest ∧ free = s'.freeCells + n := ⟨ht.rest, ht.freeCells⟩
  rw [h.ok (Nat.le_add_left n _), Nat.add_sub_cancel]

/-! ## Scalars -/

theorem took_of_readBytes {what : Shortage} {xs : List UInt8} (h : readBytes what n s = .ok (xs, s')) :
    xs.length = n ∧ Took xs 0 s s' := by
  unfold readBytes at h
  split at h
  · rename_i hn
    cases h
    exact ⟨List.length_take_of_le (hasAtLeast_iff.1 hn), (List.take_append_drop n s.rest).symm, rfl⟩
  · cases h

theorem took_of_readByte {b : UInt8} (h : readByte s = .ok (b, s')) : Took [b] 0 s s' := by
  unfold readByte at h
  split at h
  · rename_i hs
    cases h
    exact ⟨hs, rfl⟩
  · cases h

theorem took_of_readUnsigned {width : Nat} (h : readUnsigned order width s = .ok (n, s')) :
    n < 256 ^ width ∧ Took (Word.encode order width n) 0 s s' := by
  obtain ⟨⟨xs, s₁⟩, hx, h⟩ := bind_eq_ok.1 h
  cases h
  obtain ⟨rfl, ht⟩ := took_of_readBytes hx
  exact ⟨Word.unsigned_lt order xs, by rwa [Word.encode_unsigned]⟩

theorem took_of_readSigned {width : Nat} {i : Int} (h : readSigned order width s = .ok (i, s')) :
    (-(256 ^ width : Nat) ≤ i * 2 ∧ i * 2 < (256 ^ width : Nat)) ∧ Took (Word.encode order width i) 0 s s' := by
  obtain ⟨⟨xs, s₁⟩, hx, h⟩ := bind_eq_ok.1 h
  cases h
  obtain ⟨rfl, ht⟩ := took_of_readBytes hx
  exact ⟨Word.signed_bounds order xs, by rwa [Word.encode_signed]⟩

theorem took_of_readInt {i : Int} (h : readSigned order 4 s = .ok (i, s')) :
    (-0x80000000 ≤ i ∧ i < 0x80000000) ∧ Took (Word.encode order 4 i) 0 s s' := by
  obtain ⟨⟨hl, hu⟩, ht⟩ := took_of_readSigned h
  exact ⟨⟨by omega, by omega⟩, ht⟩

theorem took_of_readDouble {x : Double} (h : readDouble order s = .ok (x, s')) :
    Took (Word.encode order 8 x.bits.toNat) 0 s s' := by
  obtain ⟨⟨n, s₁⟩, hn, h⟩ := bind_eq_ok.1 h
  cases h
  obtain ⟨hlt, ht⟩ := took_of_readUnsigned hn
  rwa [UInt64.toNat_ofNat_of_lt' hlt]

theorem took_of_readComplex {z : Complex} (h : readComplex order s = .ok (z, s')) :
    Took (Word.encode order 8 z.re.bits.toNat ++ Word.encode order 8 z.im.bits.toNat) 0 s s' := by
  obtain ⟨⟨re, s₁⟩, hre, h⟩ := bind_eq_ok.1 h
  obtain ⟨⟨im, s₂⟩, him, h⟩ := bind_eq_ok.1 h
  cases h
  exact (took_of_readDouble hre).append (took_of_readDouble him)

theorem took_of_readString {xs : List UInt8} (h : readString order s = .ok (xs, s')) :
    xs.length < 0x100000000 ∧ Took (stringBytes order xs) 0 s s' := by
  obtain ⟨⟨n, s₁⟩, hn, h⟩ := bind_eq_ok.1 h
  obtain ⟨hlt, ht⟩ := took_of_readUnsigned hn
  obtain ⟨rfl, hx⟩ := took_of_readBytes h
  exact ⟨hlt, ht.append hx⟩

theorem took_of_readInstant {t : Instant} (h : readInstant order s = .ok (t, s')) :
    ∃ stamp : Stamp, stamp.instant? = some t ∧ Took (stampBytes order stamp) 0 s s' := by
  obtain ⟨⟨i, s₁⟩, hi, h⟩ := bind_eq_ok.1 h
  obtain ⟨⟨n, s₂⟩, hn, h⟩ := bind_eq_ok.1 h
  obtain ⟨⟨hl, hu⟩, hti⟩ := took_of_readSigned hi
  obtain ⟨hlt, htn⟩ := took_of_readUnsigned hn
  obtain ⟨u, hu', h⟩ := bind_eq_ok.1 h
  cases h
  refine ⟨_, Stamp.read_eq_ok.1 hu', ?_⟩
  rw [stampBytes, Int64.toInt_ofInt_of_le (by omega) (by omega), UInt64.toNat_ofNat_of_lt' hlt]
  exact hti.append htn

/-! ## Repetition -/

/-- Values are read one after the other, each from its own bytes and at its own cost. -/
theorem took_of_readTimes {α : Type} {read : Reader α} {R : α × Nat → List UInt8 → Prop}
    (hr : ∀ {s a s'}, read s = .ok (a, s') → ∃ cost bytes, R (a, cost) bytes ∧ Took bytes cost s s') :
    ∀ {n : Nat} {acc as : List α} {s s' : Input}, readTimes read n acc s = .ok (as, s') →
      ∃ (xs : List (α × Nat)) (parts : List (List UInt8)), as = acc.reverse ++ xs.map Prod.fst ∧ xs.length = n ∧
        List.Forall₂ R xs parts ∧ Took parts.flatten (xs.map Prod.snd).sum s s'
  | 0, acc, as, s, s', h => by
    cases h
    exact ⟨[], [], (List.append_nil _).symm, rfl, .nil, .nothing s⟩
  | n + 1, acc, as, s, s', h => by
    unfold readTimes at h
    split at h
    · cases h
    · rename_i a s₁ ha
      obtain ⟨cost, bytes, hR, ht⟩ := hr ha
      obtain ⟨xs, parts, rfl, rfl, hxs, hts⟩ := took_of_readTimes hr h
      exact ⟨(a, cost) :: xs, bytes :: parts, by simp, rfl, .cons hR hxs, by simpa using ht.trans hts⟩

/-! ## Lengths -/

theorem took_of_readShape : ∀ {depth : Nat} {shape : List Nat} {s s' : Input},
    readShape order depth s = .ok (shape, s') →
    shape.length = depth ∧ (∀ n ∈ shape, n < 0x80000000) ∧ Took (shapeBytes order shape) 0 s s'
  | 0, _, s, _, h => by
    cases h
    exact ⟨rfl, by simp, .nothing s⟩
  | depth + 1, shape, s, s', h => by
    obtain ⟨⟨i, s₁⟩, hi, h⟩ := bind_eq_ok.1 h
    obtain ⟨hi, ht⟩ := took_of_readInt hi
    simp only at h
    split at h
    · cases h
    · obtain ⟨⟨shape, s₂⟩, hs, h⟩ := bind_eq_ok.1 h
      cases h
      obtain ⟨hl, hn, hts⟩ := took_of_readShape hs
      refine ⟨by rw [List.length_cons, hl], List.forall_mem_cons.2 ⟨by omega, hn⟩, ?_⟩
      rw [shapeBytes_cons, Int.toNat_of_nonneg (by omega)]
      exact ht.append hts

theorem of_cells?_eq_some {s : List Nat} {n : Nat} (h : cells? s = some n) :
    n = Data.cells s ∧ ∀ i, Data.cells (s.take i) < 0x10000000000000000 := by
  have hf : ∀ (s : List Nat) (m : Nat), m < 0x10000000000000000 →
      s.foldlM (fun n length => if n * length < 0x10000000000000000 then some (n * length) else none) m = some n →
      n = m * Data.cells s ∧ ∀ i, m * Data.cells (s.take i) < 0x10000000000000000 := by
    intro s
    induction s with
    | nil =>
      intro m hm h
      cases h
      exact ⟨by simp, by simpa using hm⟩
    | cons k s ih =>
      intro m hm h
      rw [List.foldlM_cons] at h
      split at h
      · rename_i hk
        obtain ⟨hn, ht⟩ := ih (m * k) hk h
        refine ⟨by rw [hn, Data.cells_cons, Nat.mul_assoc], fun i => ?_⟩
        cases i with
        | zero => simpa using hm
        | succ i => simpa [Nat.mul_assoc] using ht i
      · cases h
  simpa using hf s 1 (by decide) h

theorem took_of_enterShape {shape : List Nat} {free : Bool} {total : Nat}
    (h : enterShape shape free s = .ok (total, s')) :
    total = Data.cells shape ∧ (∀ i, Data.cells (shape.take i) < 0x10000000000000000) ∧
      Took [] (freeCellsOf free shape) s s' := by
  have hshape : ∀ i, Data.cells (shape.take i) < 0x10000000000000000 := by
    unfold enterShape at h
    split at h
    · exact (of_cells?_eq_some ‹_›).2
    · cases h
  have hr := reads_enterShape free s.rest hshape
  by_cases hfree : freeCellsOf free shape ≤ s.freeCells
  · have he := (hr.ok hfree).symm.trans h
    cases he
    exact ⟨rfl, hshape, rfl, (Nat.sub_add_cancel hfree).symm⟩
  · obtain ⟨shape', hs⟩ := hr.tooLarge (Nat.lt_of_not_le hfree)
    cases hs.symm.trans h

theorem took_of_enterList {e : Ty} {shape : List Nat} {total : Nat} (h : enterList e shape s = .ok (total, s')) :
    total = Data.cells shape ∧ (∀ i, Data.cells (shape.take i) < 0x10000000000000000) ∧
      Took [] (freeCellsOf (e.minSize = 0) shape) s s' := by
  obtain ⟨⟨total', s₁⟩, hs, h⟩ := bind_eq_ok.1 h
  simp only at h
  split at h
  · cases h
    exact took_of_enterShape hs
  · cases h

end TagWire
