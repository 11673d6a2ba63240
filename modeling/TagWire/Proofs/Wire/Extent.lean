import TagWire.Codec
import TagWire.Proofs.Outcome
import TagWire.Proofs.Wire.Readers

/-!
# The extent of a value

How many bytes a value takes up is told by these bytes alone. A reader that meets more of them behind the value does
just the same, and the only thing that a reader of fewer bytes can miss is bytes. So the buffers that hold a value of
one type are prefix-free.
-/

namespace TagWire

/-- An input that goes on. -/
def Input.followedBy (s : Input) (more : List UInt8) : Input := { s with rest := s.rest ++ more }

theorem Input.rest_followedBy (s : Input) (more : List UInt8) : (s.followedBy more).rest = s.rest ++ more := rfl

/-- What a reader does on an input it does on one that goes on, unless it has run out of bytes. -/
structure Steady {α : Type} (read : Reader α) : Prop where
  ok : ∀ {s s' a} (more : List UInt8), read s = .ok (a, s') → read (s.followedBy more) = .ok (a, s'.followedBy more)
  error : ∀ {s e} (more : List UInt8), read s = .error e →
    (∃ what, e = .truncated what) ∨ read (s.followedBy more) = .error e

namespace Steady

variable {α β : Type} {read : Reader α}

/-- A reader that does not look at the bytes. -/
theorem blind (h : ∀ s more, read (s.followedBy more) = (read s).map fun p => (p.1, p.2.followedBy more)) :
    Steady read where
  ok {s s' a} more ha := by
    rw [h, ha]
    rfl
  error {s e} more he := by
    rw [h, he]
    exact .inr rfl

theorem pure (a : α) : Steady fun s => .ok (a, s) := .blind fun _ _ => rfl

theorem fail (e : UnflattenError) : Steady fun _ => (.error e : Except UnflattenError (α × Input)) :=
  .blind fun _ _ => rfl

theorem bind (next : α → Reader β) {both : Reader β}
    (hb : ∀ s, both s = (read s).bind fun p => next p.1 p.2) (h₁ : Steady read) (h₂ : ∀ a, Steady (next a)) :
    Steady both where
  ok {s s' b} more h := by
    rw [hb] at h ⊢
    obtain ⟨⟨a, s₁⟩, ha, h⟩ := bind_eq_ok.1 h
    exact bind_eq_ok.2 ⟨(a, s₁.followedBy more), h₁.ok more ha, (h₂ a).ok more h⟩
  error {s e} more h := by
    rw [hb] at h ⊢
    rcases bind_eq_error.1 h with ha | ⟨⟨a, s₁⟩, ha, h⟩
    · exact (h₁.error more ha).imp_right fun he => bind_eq_error.2 (.inl he)
    · exact ((h₂ a).error more h).imp_right fun he =>
        bind_eq_error.2 (.inr ⟨(a, s₁.followedBy more), h₁.ok more ha, he⟩)

theorem map (f : α → β) {both : Reader β} (hb : ∀ s, both s = (read s).bind fun p => .ok (f p.1, p.2))
    (h : Steady read) : Steady both :=
  h.bind (fun a s => .ok (f a, s)) hb fun a => pure (f a)

theorem ite {c : Prop} [Decidable c] {f g : Reader α} (hf : Steady f) (hg : Steady g) :
    Steady fun s => if c then f s else g s := by
  by_cases hc : c
  · simpa only [if_pos hc] using hf
  · simpa only [if_neg hc] using hg

end Steady

/-! ## Scalars -/

section Scalars

variable (order : ByteOrder)

theorem hasAtLeast_append {n : Nat} {bytes : List UInt8} (more : List UInt8) (h : hasAtLeast n bytes = true) :
    hasAtLeast n (bytes ++ more) = true := by
  rw [hasAtLeast_iff, List.length_append]
  exact Nat.le_add_right_of_le (hasAtLeast_iff.1 h)

theorem steady_bytes (what : Shortage) (n : Nat) : Steady (readBytes what n) where
  ok {s s' xs} more h := by
    unfold readBytes at h
    split at h
    · rename_i hn
      cases h
      have hl : n ≤ s.rest.length := hasAtLeast_iff.1 hn
      rw [readBytes, Input.rest_followedBy, if_pos (hasAtLeast_append more hn), List.take_append_of_le_length hl,
        List.drop_append_of_le_length hl]
      rfl
    · cases h
  error {s e} more h := by
    unfold readBytes at h
    split at h
    · cases h
    · cases h
      exact .inl ⟨what, rfl⟩

theorem steady_byte : Steady readByte where
  ok {s s' b} more h := by
    unfold readByte at h
    split at h
    · rename_i hs
      cases h
      rw [readByte, Input.rest_followedBy, hs]
      rfl
    · cases h
  error {s e} more h := by
    unfold readByte at h
    split at h
    · cases h
    · cases h
      exact .inl ⟨.word, rfl⟩

theorem steady_unsigned (width : Nat) : Steady (readUnsigned order width) :=
  (steady_bytes .word width).map (Word.unsigned order) fun _ => rfl

theorem steady_signed (width : Nat) : Steady (readSigned order width) :=
  (steady_bytes .word width).map (Word.signed order) fun _ => rfl

theorem steady_double : Steady (readDouble order) :=
  (steady_unsigned order 8).map (fun n => (⟨.ofNat n⟩ : Double)) fun _ => rfl

theorem steady_complex : Steady (readComplex order) :=
  (steady_double order).bind (fun re s => (readDouble order s).bind fun p => .ok ((⟨re, p.1⟩ : Complex), p.2))
    (fun _ => rfl) fun re => (steady_double order).map (fun im => ⟨re, im⟩) fun _ => rfl

theorem steady_string : Steady (readString order) :=
  (steady_unsigned order 4).bind (fun n => readBytes (.text n) n) (fun _ => rfl) fun n => steady_bytes (.text n) n

theorem steady_stamp (stamp : Stamp) : Steady fun s => stamp.read.bind fun t => .ok (t, s) := by
  cases stamp.read with
  | ok t => exact .pure t
  | error e => exact .fail e

theorem steady_instant : Steady (readInstant order) :=
  (steady_signed order 8).bind
    (fun seconds s => (readUnsigned order 8 s).bind fun p =>
      (Stamp.read ⟨.ofInt seconds, .ofNat p.1⟩).bind fun t => .ok (t, p.2)) (fun _ => rfl)
    fun seconds => (steady_unsigned order 8).bind
      (fun fraction s => (Stamp.read ⟨.ofInt seconds, .ofNat fraction⟩).bind fun t => .ok (t, s)) (fun _ => rfl)
      fun fraction => steady_stamp ⟨.ofInt seconds, .ofNat fraction⟩

theorem steady_times {α : Type} {read : Reader α} (h : Steady read) :
    ∀ (n : Nat) (acc : List α), Steady (readTimes read n acc)
  | 0, acc => .pure acc.reverse
  | n + 1, acc => by
    refine h.bind (fun a => readTimes read n (a :: acc)) (fun s => ?_) fun a => steady_times h n (a :: acc)
    rw [readTimes]
    cases read s <;> rfl

end Scalars

/-! ## Lists -/

section Lists

variable (order : ByteOrder)

theorem steady_shape : (depth : Nat) → Steady (readShape order depth)
  | 0 => .pure []
  | depth + 1 =>
    (steady_signed order 4).bind
      (fun n s => if n < 0 then .error (.negativeLength n)
        else (readShape order depth s).bind fun p => .ok (n.toNat :: p.1, p.2))
      (fun _ => rfl)
      fun n => .ite (.fail _) ((steady_shape depth).map (n.toNat :: ·) fun _ => rfl)

theorem steady_enterShape (shape : List Nat) (free : Bool) : Steady (enterShape shape free) := by
  unfold enterShape
  split
  · rename_i total rows _ _
    refine .ite (.blind fun s more => ?_) (.pure total)
    by_cases hm : max total rows ≤ s.freeCells
    · rw [if_pos hm]
      exact if_pos hm
    · rw [if_neg hm]
      exact if_neg hm
  · exact .fail _

/-- The bytes of the elements have to be there. -/
theorem steady_enterList (elem : Ty) (shape : List Nat) : Steady (enterList elem shape) := by
  refine (steady_enterShape shape (elem.minSize = 0)).bind
    (fun total s => if hasAtLeast (total * elem.minSize) s.rest then .ok (total, s)
      else .error (.truncated (.list shape elem))) (fun _ => rfl) fun total => ⟨?_, ?_⟩
  · intro s s' n more h
    split at h
    · rename_i hl
      cases h
      exact if_pos (hasAtLeast_append more hl)
    · cases h
  · intro s e more h
    split at h
    · cases h
    · cases h
      exact .inl ⟨_, rfl⟩

theorem steady_array {elem : Ty} {n : Nat} {readArray : Reader Data} (h : readArray? order elem n = some readArray) :
    Steady readArray := by
  unfold readArray? at h
  split at h <;> cases h
  · exact (steady_times (steady_signed order 4) n []).map (fun xs => .array (.int32 (xs.map .ofInt))) fun _ => rfl
  · exact (steady_times (steady_unsigned order 4) n []).map (fun xs => .array (.word32 (xs.map .ofNat))) fun _ => rfl
  · rename_i u
    exact (steady_times (steady_double order) n []).map (.ofValues · u.label) fun _ => rfl
  · exact (steady_times (steady_complex order) n []).map (fun xs => .array (.complex128 xs)) fun _ => rfl
  · exact (steady_times (steady_complex order) n []).map (fun xs => .array (.complex128 xs)) fun _ => rfl

theorem steady_items {elem : Ty} {read : Reader Data} (h : Steady read) (shape : List Nat) :
    Steady (readItems order elem read shape) := by
  refine (steady_enterList elem shape).bind (readElements order elem read shape) readItems_eq fun total => ?_
  unfold readElements
  split
  · rename_i ha
    exact steady_array order ha
  · exact (steady_times h total []).map (.nest _) fun _ => rfl

theorem steady_noElements (shape : List Nat) : Steady (readNoElements shape) :=
  (steady_enterShape shape true).bind
    (fun total s => if total = 0 then .ok (.nest shape [], s) else .error (.unknownElement total)) (fun _ => rfl)
    fun _ => .ite (.pure _) (.fail _)

end Lists

/-! ## Values -/

namespace Ty

variable (order : ByteOrder)

mutual

theorem steady_read : (t : Ty) → Steady (t.read order)
  | none => .pure _
  | bool => steady_byte.bind
      (fun b s => if b = 0 then .ok (.bool false, s)
        else if b = 1 then .ok (.bool true, s) else .error (.invalidBool b))
      (fun _ => rfl) fun _ => .ite (.pure _) (.ite (.pure _) (.fail _))
  | int => (steady_signed order 4).map (fun n => .int (.ofInt n)) fun _ => rfl
  | word => (steady_unsigned order 4).map (fun n => .word (.ofNat n)) fun _ => rfl
  | str => (steady_string order).map .bytes fun _ => rfl
  | time => (steady_instant order).map .time fun _ => rfl
  | value u => (steady_double order).map (.ofValue · u.label) fun _ => rfl
  | complex u => (steady_complex order).map (.ofComplex · u.label) fun _ => rfl
  | cluster ts => (steady_members ts).map .tuple fun _ => rfl
  | list (some e) depth =>
    (steady_shape order depth).bind (readItems order e (e.read order)) (fun _ => rfl)
      (steady_items order (steady_read e))
  | list .none depth => (steady_shape order depth).bind readNoElements (fun _ => rfl) steady_noElements
  | error payload =>
    (steady_signed order 4).bind
      (fun code s => (readString order s).bind fun p => (readPayload order payload p.2).bind fun q =>
        .ok (.error (.ofInt code) (Utf8.decodeLossy p.1) q.1, q.2))
      (fun _ => rfl) fun code => (steady_string order).bind
        (fun message s => (readPayload order payload s).bind fun q =>
          .ok (.error (.ofInt code) (Utf8.decodeLossy message) q.1, q.2))
        (fun _ => rfl) fun message =>
          (steady_payload payload).map (.error (.ofInt code) (Utf8.decodeLossy message)) fun _ => rfl

theorem steady_members : (ts : List Ty) → Steady (readMembers order ts)
  | [] => .pure []
  | t :: ts => (steady_read t).bind (fun d s => (readMembers order ts s).bind fun p => .ok (d :: p.1, p.2))
      (fun _ => rfl) fun d => (steady_members ts).map (d :: ·) fun _ => rfl

theorem steady_payload : (payload : Option Ty) → Steady (readPayload order payload)
  | .none => .pure _
  | some t => steady_byte.bind
      (fun flag s => if flag = 0 then .ok (.none, s)
        else if flag = 1 then (t.read order s).bind fun p => .ok (some p.1, p.2) else .error (.invalidFlag flag))
      (fun _ => rfl)
      fun _ => .ite (.pure _) (.ite ((steady_read t).map some fun _ => rfl) (.fail _))

end

end Ty

namespace Codec

variable {c : Codec} {t : Ty} {bytes : List UInt8} {d : Data}

/-- A value is unflattened from the bytes that its reader takes, with nothing behind them. -/
theorem read_of_unflatten (h : c.unflatten bytes t = .ok d) :
    ∃ free, t.read c.order ⟨bytes, maxFreeCells⟩ = .ok (d, ⟨[], free⟩) := by
  obtain ⟨⟨d', ⟨rest, free⟩⟩, hr, h⟩ := bind_eq_ok.1 h
  simp only at h
  split at h
  · cases h
    exact ⟨free, hr⟩
  · cases h

theorem unflatten_of_read {rest : List UInt8} {free : Nat}
    (hr : t.read c.order ⟨bytes, maxFreeCells⟩ = .ok (d, ⟨rest, free⟩)) (hne : rest ≠ []) :
    c.unflatten bytes t = .error (.trailingBytes rest.length t) := by
  rw [unflatten, Ty.unflatten, hr]
  cases rest with
  | nil => exact absurd rfl hne
  | cons b rest => rfl

/-- The buffers that hold a value of a type are prefix-free: a shorter one runs out of bytes, and of a longer one the
bytes behind are left over. -/
theorem unflatten_prefixFree (h : c.unflatten bytes t = .ok d) :
    (∀ p, p <+: bytes → p ≠ bytes → ∃ what, c.unflatten p t = .error (.truncated what)) ∧
    ∀ more, more ≠ [] → c.unflatten (bytes ++ more) t = .error (.trailingBytes more.length t) := by
  obtain ⟨free, hr⟩ := read_of_unflatten h
  have hs := t.steady_read c.order
  refine ⟨?_, fun more hne => unflatten_of_read (hs.ok more hr) hne⟩
  rintro p ⟨more, rfl⟩ hne
  cases hp : t.read c.order ⟨p, maxFreeCells⟩ with
  | error e =>
    rcases hs.error more hp with ⟨what, rfl⟩ | he
    · exact ⟨what, by rw [unflatten, Ty.unflatten, hp]; rfl⟩
    · -- any other error is one of the whole buffer too
      cases he.symm.trans hr
  | ok a =>
    -- a value of the shorter buffer would leave the other bytes over
    obtain ⟨d', ⟨rest, free'⟩⟩ := a
    have he := (hs.ok more hp).symm.trans hr
    simp only [Input.followedBy, Except.ok.injEq, Prod.mk.injEq, Input.mk.injEq, List.append_eq_nil_iff] at he
    exact absurd (by rw [he.2.1.2, List.append_nil]) hne

/-- A list of two strings, its first string alone, and both strings with one more byte. -/
theorem unflatten_prefixFree_strings :
    let t : Ty := .list (some .str) 1
    let bytes : List UInt8 := [0, 0, 0, 2, 0, 0, 0, 1, 97, 0, 0, 0, 0]
    ({} : Codec).unflatten bytes t = .ok (.list [.bytes [97], .bytes []]) ∧
    (∃ what, ({} : Codec).unflatten (bytes.take 9) t = .error (.truncated what)) ∧
    ({} : Codec).unflatten (bytes ++ [255]) t = .error (.trailingBytes 1 t) := by
  intro t bytes
  have hs : readShape .big 1 ⟨bytes, maxFreeCells⟩ = .ok ([2], ⟨bytes.drop 4, maxFreeCells⟩) :=
    (reads_shape .big (bytes.drop 4) (List.forall_mem_singleton.2 (by decide : 2 < 0x80000000))).ok
      (Nat.zero_le maxFreeCells)
  have h : ({} : Codec).unflatten bytes t = .ok (.list [.bytes [97], .bytes []]) :=
    bind_eq_ok.2 ⟨(_, ⟨[], maxFreeCells⟩), bind_eq_ok.2 ⟨_, hs, rfl⟩, rfl⟩
  obtain ⟨hp, hm⟩ := unflatten_prefixFree h
  exact ⟨h, hp _ (List.take_prefix 9 bytes) (by decide), hm [255] (by decide)⟩

end Codec

end TagWire
