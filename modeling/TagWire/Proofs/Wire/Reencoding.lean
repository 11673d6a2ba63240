import TagWire.Proofs.Wire.Denotation

/-!
# Decoded values written again

A decoded value is written as bytes that stand for it at the same cost, so that they are decoded to the same value.
They may differ from the bytes that it was decoded from: fractions of seconds are rounded, messages that are no text
get replacement characters, and the lengths below an empty level are lost.
-/

namespace TagWire

theorem length_encode_decodeLossy {message : List UInt8} (h : message.length < 0x40000000) :
    (Utf8.encode (Utf8.decodeLossy message)).length < 0x100000000 := by
  have h₁ := Utf8.length_encode_le (Utf8.decodeLossy message)
  have h₂ := Utf8.length_decodeLossy_le message
  omega

theorem freeCellsOf_settle (free : Bool) (shape : List Nat) :
    freeCellsOf free (Data.settle shape) = freeCellsOf free shape := by
  simp [freeCellsOf, Data.dropLast_settle]

namespace Ty

variable {order : ByteOrder}

/-! ## Types with one layout -/

mutual

/-- No times, no errors, and no lists of more than one dimension: each value has just one layout. -/
def Rigid : Ty → Prop
  | time | error _ => False
  | cluster ts => AllRigid ts
  | list (some e) depth => depth ≤ 1 ∧ e.Rigid
  | list Option.none depth => depth ≤ 1
  | _ => True

def AllRigid : List Ty → Prop
  | [] => True
  | t :: ts => t.Rigid ∧ AllRigid ts

end

/-! ## Lists -/

theorem settle_of_length_le_one : ∀ {shape : List Nat}, shape.length ≤ 1 → Data.settle shape = shape
  | [], _ => rfl
  | [n], _ => Data.settle_singleton n

theorem lt_of_mem_settle {bound : Nat} (hb : 0 < bound) : ∀ {shape : List Nat}, (∀ k ∈ shape, k < bound) →
    ∀ k ∈ Data.settle shape, k < bound
  | [], _, _, hk => by cases hk
  | n :: shape, h, k, hk => by
    obtain ⟨hn, hs⟩ := List.forall_mem_cons.1 h
    by_cases h0 : n = 0
    · rw [h0, Data.settle_zero] at hk
      rwa [List.eq_of_mem_replicate hk]
    · rw [Data.settle_pos h0] at hk
      rcases List.mem_cons.1 hk with rfl | hk
      · exact hn
      · exact lt_of_mem_settle hb hs k hk

theorem cells_take_settle {shape : List Nat} {bound : Nat} (h : ∀ i, Data.cells (shape.take i) < bound) (i : Nat) :
    Data.cells ((Data.settle shape).take i) < bound := by
  rw [Data.take_settle, Data.cells_settle]
  exact h i

theorem assemble_settle {e : Ty} {shape : List Nat} {xs : List Data} (h : xs.length = Data.cells shape) :
    e.assemble (Data.settle shape) xs = e.assemble shape xs := by
  rcases assemble_cases e shape xs with ⟨k, _, rfl, _⟩ | ⟨hna, he⟩
  · rw [Data.settle_singleton]
  · rw [he, assemble_of_none (by rwa [Data.length_settle]), Data.nest_settle h]

/-- Leaves that can be written again one by one can be written again together. -/
theorem exists_parts_of_denotes {e : Ty} {leaves : List (Data × Nat)} {parts : List (List UInt8)}
    (ih : ∀ {bs d n}, e.Denotes order bs d n → bs.length < 0x40000000 →
      ∃ bs', (e.emit order d).result = .ok bs' ∧ e.Denotes order bs' d n ∧ (e.Rigid → bs' = bs))
    (hd : List.Forall₂ (fun x p => e.Denotes order p x.1 x.2) leaves parts) (hlen : parts.flatten.length < 0x40000000) :
    ∃ parts', List.Forall₂ (fun x p => (e.emit order x).result = .ok p) (leaves.map Prod.fst) parts' ∧
      List.Forall₂ (fun x p => e.Denotes order p x.1 x.2) leaves parts' ∧ (e.Rigid → parts' = parts) := by
  induction hd with
  | nil => exact ⟨[], .nil, .nil, fun _ => rfl⟩
  | cons hx _ ihs =>
    rw [List.flatten_cons, List.length_append] at hlen
    obtain ⟨p, hp, hpd, hpr⟩ := ih hx (by omega)
    obtain ⟨ps, hps, hpsd, hpsr⟩ := ihs (by omega)
    exact ⟨p :: ps, .cons hp hps, .cons hpd hpsd, fun hr => by rw [hpr hr, hpsr hr]⟩

/-! ## Values -/

mutual

/-- The bytes that a denoted value is written as stand for it at the same cost. -/
theorem exists_emit_of_denotes : (t : Ty) → t.Dimensioned → ∀ {bs d n}, t.Denotes order bs d n →
    bs.length < 0x40000000 →
    ∃ bs', (t.emit order d).result = .ok bs' ∧ t.Denotes order bs' d n ∧ (t.Rigid → bs' = bs)
  | none, _, bs, d, n, h, _ => by
    obtain ⟨rfl, rfl, rfl⟩ := h
    exact ⟨[], emit_none.2 ⟨rfl, rfl⟩, ⟨rfl, rfl, rfl⟩, fun _ => rfl⟩
  | bool, _, bs, d, n, h, _ => by
    obtain ⟨b, rfl, rfl, rfl⟩ := h
    exact ⟨_, emit_bool.2 ⟨b, rfl, rfl⟩, ⟨b, rfl, rfl, rfl⟩, fun _ => rfl⟩
  | int, _, bs, d, n, h, _ => ⟨bs, (emit_of_denotes_item (show int.gather? [] = some _ from rfl) h).1, h, fun _ => rfl⟩
  | word, _, bs, d, n, h, _ => ⟨bs, (emit_of_denotes_item (show word.gather? [] = some _ from rfl) h).1, h, fun _ => rfl⟩
  | str, _, bs, d, n, h, _ => by
    obtain ⟨xs, hl, rfl, rfl, rfl⟩ := h
    exact ⟨_, emit_str.2 ⟨xs, rfl, hl, rfl⟩, ⟨xs, hl, rfl, rfl, rfl⟩, fun _ => rfl⟩
  | time, _, bs, d, n, h, _ => by
    obtain ⟨stamp, t, ht, rfl, rfl, rfl⟩ := h
    have hi := Stamp.instant?_ofInstant t
    rw [Instant.withoutLeap_of_lt (Stamp.nanos_lt_of_instant? ht)] at hi
    exact ⟨_, emit_time.2 ⟨t, rfl, rfl⟩, ⟨.ofInstant t, t, hi, rfl, rfl, rfl⟩, False.elim⟩
  | value u, _, bs, d, n, h, _ => ⟨bs, (emit_of_denotes_item (show (value u).gather? [] = some _ from rfl) h).1, h, fun _ => rfl⟩
  | complex u, _, bs, d, n, h, _ => by
    obtain ⟨z, rfl, rfl, rfl⟩ := h
    exact ⟨_, emit_complex.2 ⟨z, complex?_ofComplex z _, rfl⟩, ⟨z, rfl, rfl, rfl⟩, fun _ => rfl⟩
  | cluster ts, ht, bs, d, n, ⟨ds, hds, hd⟩, hlen => by
    subst hd
    obtain ⟨bs', hl, he, hd', hr⟩ := exists_emitMembers_of_denote ts ht hds hlen
    exact ⟨bs', emit_cluster.2 ⟨ds, rfl, hl, he⟩, ⟨ds, hd', rfl⟩, hr⟩
  | list (some e) depth, ⟨hdepth, he⟩, bs, d, n, ⟨shape, leaves, parts, hl, hk, hshape, hlen, hp, hb, hd, hn⟩, hlt => by
    subst hl hb hd hn
    rw [List.length_append] at hlt
    have hs : shape ≠ [] := List.ne_nil_of_length_pos hdepth
    have hg := grid_assemble hs hlen hp
    obtain ⟨parts', hemit, hp', hr⟩ := exists_parts_of_denotes (exists_emit_of_denotes e he) hp (by omega)
    have hk' := lt_of_mem_settle (by decide) hk
    refine ⟨_, emit_list.2 ⟨_, parts', hg, hk', hemit, rfl⟩, ⟨Data.settle shape, leaves, parts', Data.length_settle _,
      hk', cells_take_settle hshape, by rw [hlen, Data.cells_settle], hp', rfl, ?_, ?_⟩, fun ⟨h1, her⟩ => ?_⟩
    · rw [assemble_settle (by rw [List.length_map, hlen])]
    · rw [freeCellsOf_settle]
    · rw [settle_of_length_le_one h1, hr her]
  | list Option.none depth, hdepth, bs, d, n, ⟨shape, hl, hk, hshape, h0, hb, hd, hn⟩, _ => by
    subst hl hb hd hn
    have hs : shape ≠ [] := List.ne_nil_of_length_pos hdepth
    have hx : ([] : List Data).length = Data.cells shape := h0.symm
    have hg := Data.grid_nest hs hx
    have hk' := lt_of_mem_settle (by decide) hk
    refine ⟨_, emit_emptyList.2 ⟨_, hg, hk', rfl, rfl⟩, ⟨Data.settle shape, Data.length_settle _, hk',
      cells_take_settle hshape, by rw [Data.cells_settle, h0], rfl, ?_, ?_⟩, fun h1 => ?_⟩
    · rw [Data.nest_settle hx]
    · rw [freeCellsOf_settle]
    · rw [settle_of_length_le_one h1]
  | error Option.none, _, bs, d, n, h, hlen => by
    obtain ⟨code, message, _, _, hm, ⟨rfl, rfl, rfl⟩, rfl, rfl⟩ := h
    simp only [stringBytes, List.length_append] at hlen
    have hmsg := length_encode_decodeLossy (show message.length < 0x40000000 by omega)
    refine ⟨_, emit_bareError.2 ⟨code, _, rfl, hmsg, rfl⟩, ⟨code, _, [], Option.none, hmsg, ⟨rfl, rfl, rfl⟩, ?_, ?_⟩,
      False.elim⟩
    · rw [errorBytes, List.append_nil]
    · rw [Utf8.decodeLossy_encode]
  | error (some p), ht, bs, d, n, h, hlen => by
    obtain ⟨code, message, tail, q, _, hq, rfl, rfl⟩ := h
    simp only [stringBytes, List.length_append] at hlen
    have hmsg := length_encode_decodeLossy (show message.length < 0x40000000 by omega)
    rcases hq with ⟨rfl, rfl, rfl⟩ | ⟨ys, x, hx, rfl, rfl⟩
    · refine ⟨_, emit_error.2 ⟨code, _, Option.none, [0], rfl, hmsg, rfl, rfl⟩, ⟨code, _, [0], Option.none, hmsg,
        .inl ⟨rfl, rfl, rfl⟩, rfl, ?_⟩, False.elim⟩
      rw [Utf8.decodeLossy_encode]
    · rw [List.length_cons] at hlen
      obtain ⟨ys', hemit, hd, _⟩ := exists_emit_of_denotes p ht hx (by omega)
      refine ⟨_, emit_error.2 ⟨code, _, some x, 1 :: ys', rfl, hmsg, rfl, ys', hemit, rfl⟩, ⟨code, _, 1 :: ys', some x,
        hmsg, .inr ⟨ys', x, hd, rfl, rfl⟩, rfl, ?_⟩, False.elim⟩
      rw [Utf8.decodeLossy_encode]

theorem exists_emitMembers_of_denote : (ts : List Ty) → AllDimensioned ts → ∀ {bs ds n},
    MembersDenote order ts bs ds n → bs.length < 0x40000000 →
    ∃ bs', ds.length = ts.length ∧ (emitMembers order ts ds).result = .ok bs' ∧ MembersDenote order ts bs' ds n ∧
      (AllRigid ts → bs' = bs)
  | [], _, bs, ds, n, h, _ => by
    obtain ⟨rfl, rfl, rfl⟩ := h
    exact ⟨[], rfl, emitMembers_nil.2 rfl, ⟨rfl, rfl, rfl⟩, fun _ => rfl⟩
  | t :: ts, ⟨ht, hts⟩, bs, ds, n, h, hlen => by
    obtain ⟨xs, ys, d, ds', k, m, hx, hy, rfl, rfl, rfl⟩ := h
    rw [List.length_append] at hlen
    obtain ⟨xs', hxe, hxd, hxr⟩ := exists_emit_of_denotes t ht hx (by omega)
    obtain ⟨ys', hl, hye, hyd, hyr⟩ := exists_emitMembers_of_denote ts hts hy (by omega)
    exact ⟨xs' ++ ys', by rw [List.length_cons, hl, List.length_cons], emitMembers_cons.2 ⟨xs', ys', hxe, hye, rfl⟩,
      ⟨xs', ys', d, ds', k, m, hxd, hyd, rfl, rfl, rfl⟩, fun ⟨hr, hrs⟩ => by rw [hxr hr, hyr hrs]⟩

end

end Ty

namespace Codec

/-- A value that was decoded can be encoded, and the new bytes are decoded to it again. Where each value has just one
layout they are the bytes that it was decoded from. -/
theorem flattenAs_of_unflatten (c : Codec) {bs : List UInt8} {t : Ty} {d : Data} (ht : t.Dimensioned)
    (hlen : bs.length < 0x40000000) (h : c.unflatten bs t = .ok d) :
    ∃ bs', c.flattenAs d t = .ok bs' ∧ c.unflatten bs' t = .ok d ∧ (t.Rigid → bs' = bs) := by
  obtain ⟨n, hn, hd⟩ := unflatten_eq_ok.1 h
  obtain ⟨bs', hemit, hd', hr⟩ := Ty.exists_emit_of_denotes t ht hd hlen
  exact ⟨bs', hemit, unflatten_eq_ok.2 ⟨n, hn, hd'⟩, hr⟩

/-- A list of integers and a string are encoded to just the bytes that they were decoded from. -/
theorem flattenAs_of_unflatten_tuple :
    let t : Ty := .cluster [.list (some .int) 1, .str]
    let d : Data := .tuple [.array (.int32 [7]), .bytes [97]]
    let bs : List UInt8 := [0, 0, 0, 1, 0, 0, 0, 7, 0, 0, 0, 1, 97]
    t.Dimensioned ∧ bs.length < 0x40000000 ∧ ({} : Codec).unflatten bs t = .ok d ∧ t.Rigid ∧
      ({} : Codec).flattenAs d t = .ok bs := by
  intro t d bs
  have ht : t.Dimensioned := ⟨⟨by decide, trivial⟩, trivial, trivial⟩
  have hr : t.Rigid := ⟨⟨by decide, trivial⟩, trivial, trivial⟩
  have hc : ∀ i, Data.cells (([1] : List Nat).take i) < 0x10000000000000000 := by
    intro i
    rcases i with _ | i <;> simp
  have hlist : (Ty.list (some .int) 1).Denotes .big [0, 0, 0, 1, 0, 0, 0, 7] (.array (.int32 [7])) 0 :=
    ⟨[1], [(.int 7, 0)], [[0, 0, 0, 7]], rfl, by decide, hc, rfl, .cons ⟨7, by decide, rfl, rfl, rfl⟩ .nil, rfl, rfl, rfl⟩
  have hstr : Ty.str.Denotes .big [0, 0, 0, 1, 97] (.bytes [97]) 0 := ⟨[97], by decide, rfl, rfl, rfl⟩
  have hd : t.Denotes .big bs d 0 :=
    ⟨_, ⟨_, _, _, _, 0, 0, hlist, ⟨_, [], _, [], 0, 0, hstr, ⟨rfl, rfl, rfl⟩, rfl, rfl, rfl⟩, rfl, rfl, rfl⟩, rfl⟩
  have h : ({} : Codec).unflatten bs t = .ok d := unflatten_eq_ok.2 ⟨0, Nat.zero_le _, hd⟩
  obtain ⟨bs', hf, _, hb⟩ := flattenAs_of_unflatten {} ht (by decide) h
  exact ⟨ht, by decide, h, hr, hb hr ▸ hf⟩

end Codec

end TagWire
