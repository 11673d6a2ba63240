import TagWire.Codec
import TagWire.Proofs.Wire.Faults

/-!
# Streaming into a bounded buffer

A buffer takes the beginning of everything that is written to it, one value after the other. Only the write that passes
its end fails, and the calls before it end as they do without a bound.
-/

namespace TagWire

/-! ## Emissions in a bounded room -/

namespace Emission

variable {room : Nat} {e : Emission}

theorem cutSteps_eq_self {failure : Option FlattenError} : ∀ {ss : List Step} {room : Nat},
    (ss.flatMap Step.bytes).length ≤ room → cutSteps room ss failure = ⟨ss, failure⟩
  | [], _, _ => rfl
  | s :: ss, room, h => by
    rw [List.flatMap_cons, List.length_append] at h
    rw [cutSteps, if_pos (by omega), cutSteps_eq_self (by omega)]

theorem bytes_cutSteps {failure : Option FlattenError} : ∀ {ss : List Step} {room : Nat},
    (cutSteps room ss failure).bytes = (ss.flatMap Step.bytes).take room
  | [], _ => by simp [cutSteps, bytes]
  | s :: ss, room => by
    rw [cutSteps, List.flatMap_cons, List.take_append]
    split
    · rename_i h
      have ih : (cutSteps (room - s.bytes.length) ss failure).bytes = _ := bytes_cutSteps
      rw [List.take_of_length_le h, ← ih]
      rfl
    · rename_i h
      rw [Nat.sub_eq_zero_of_le (by omega), List.take_zero, List.append_nil]
      exact List.append_nil _

theorem failure_cutSteps_of_lt {failure : Option FlattenError} : ∀ {ss : List Step} {room : Nat},
    room < (ss.flatMap Step.bytes).length → (cutSteps room ss failure).failure = some .bufferFull
  | [], _, h => by cases h
  | s :: ss, room, h => by
    rw [List.flatMap_cons, List.length_append] at h
    rw [cutSteps]
    split
    · exact failure_cutSteps_of_lt (by omega)
    · rfl

theorem within_eq_self (h : e.bytes.length ≤ room) : e.within room = e := cutSteps_eq_self h

theorem bytes_within : (e.within room).bytes = e.bytes.take room := bytes_cutSteps

theorem outcome_within_of_lt (h : room < e.bytes.length) : (e.within room).outcome = .error .bufferFull := by
  rw [outcome, within, failure_cutSteps_of_lt h]

theorem cutSteps_append {failure : Option FlattenError} {us : List Step} : ∀ {ss : List Step} {room : Nat},
    cutSteps room (ss ++ us) failure =
      (cutSteps room ss none).andThen (cutSteps (room - (ss.flatMap Step.bytes).length) us failure)
  | [], room => by simp [cutSteps, andThen]
  | s :: ss, room => by
    rw [List.cons_append, cutSteps, cutSteps]
    split
    · rw [cutSteps_append, List.flatMap_cons, List.length_append, Nat.sub_add_eq]
      cases hf : (cutSteps (room - s.bytes.length) ss none).failure <;> simp [andThen, hf]
    · rfl

/-- A bound cuts two emissions one after the other, the second one in the room that the first one leaves. -/
theorem within_andThen (a b : Emission) :
    (a.andThen b).within room = (a.within room).andThen (b.within (room - a.bytes.length)) := by
  obtain ⟨ss, failure⟩ := a
  cases failure with
  | none => exact cutSteps_append
  | some e =>
    -- the bound may strike before the failure of the first emission
    by_cases h : (bytes ⟨ss, some e⟩).length ≤ room
    · rw [within_eq_self h]
      exact within_eq_self h
    · have hf : (within room ⟨ss, some e⟩).failure = some .bufferFull := failure_cutSteps_of_lt (Nat.lt_of_not_le h)
      simp [andThen, hf]

end Emission

namespace Buffer

variable {b : Buffer} {e : Emission}

theorem written_accept (b : Buffer) (e : Emission) : (b.accept e).written = b.written ++ (e.within b.room).bytes := rfl

/-- A buffer that holds the beginning of what was sent holds the beginning of all that is sent then. -/
theorem written_accept_of_written {sent : List UInt8} (h : b.written = sent.take b.capacity) :
    (b.accept e).written = (sent ++ e.bytes).take b.capacity := by
  rw [written_accept, Emission.bytes_within, room, h, List.take_append, List.length_take]
  congr 2
  omega

theorem room_of_written {sent : List UInt8} (h : b.written = sent.take b.capacity) :
    b.room = b.capacity - sent.length := by
  rw [room, h, List.length_take]
  omega

end Buffer

/-! ## Node by node -/

/-- What a writer holds after it was written to, and how the writing ended. -/
abbrev Written := Buffer × Except FlattenError Unit

/-- Writes on, unless there was a failure. -/
def Written.andThen (r : Written) (next : Buffer → Written) : Written :=
  match r.2 with
  | .ok () => next r.1
  | .error _ => r

namespace Buffer

/-- Writes an emission. -/
def run (b : Buffer) (e : Emission) : Written := (b.accept e, (e.within b.room).outcome)

theorem eq_of_written {b b' : Buffer} (hc : b.capacity = b'.capacity) (hw : b.written = b'.written) : b = b' := by
  cases b
  cases b'
  cases hc
  cases hw
  rfl

theorem accept_congr {b : Buffer} {x y : Emission} (h : x.within b.room = y.within b.room) : b.accept x = b.accept y :=
  eq_of_written rfl (by rw [written_accept, written_accept, h])

theorem run_andThen (b : Buffer) (x y : Emission) : b.run (x.andThen y) = (b.run x).andThen fun b' => b'.run y := by
  have hw : (x.andThen y).within b.room = (x.within b.room).andThen (y.within (b.room - x.bytes.length)) :=
    Emission.within_andThen x y
  cases hf : (x.within b.room).failure with
  | none =>
    have hlen : x.bytes.length ≤ b.room := by
      refine Nat.le_of_not_lt fun hlt => ?_
      have ho := Emission.outcome_within_of_lt hlt
      rw [Emission.outcome, hf] at ho
      cases ho
    have hx : (x.within b.room).outcome = .ok () := by rw [Emission.outcome, hf]
    have hroom : (b.accept x).room = b.room - x.bytes.length := by
      rw [room, written_accept, List.length_append, Emission.within_eq_self hlen, Nat.sub_add_eq]
      rfl
    have hb : b.accept (x.andThen y) = (b.accept x).accept y := by
      refine eq_of_written rfl ?_
      rw [written_accept, hw, Emission.bytes_andThen_of_none hf, ← List.append_assoc, written_accept, hroom,
        written_accept]
    have ho : ((x.andThen y).within b.room).outcome = (y.within (b.accept x).room).outcome := by
      rw [hw, hroom, Emission.outcome, Emission.failure_andThen, hf]
      rfl
    rw [run, Written.andThen, run, hx, hb, ho]
    rfl
  | some e =>
    have hxy : (x.andThen y).within b.room = x.within b.room := by rw [hw, Emission.andThen, hf]
    have hx : (x.within b.room).outcome = .error e := by rw [Emission.outcome, hf]
    rw [run, Written.andThen, run, hxy, accept_congr hxy, hx]

/-- Looking at a value writes nothing. -/
theorem run_visit (b : Buffer) (d : Data) (t : Ty) : b.run ⟨[.visit d t], none⟩ = (b, .ok ()) := by
  have hw : Emission.within b.room ⟨[.visit d t], none⟩ = ⟨[.visit d t], none⟩ :=
    Emission.within_eq_self (Nat.zero_le b.room)
  have hb : b.accept ⟨[.visit d t], none⟩ = b := eq_of_written rfl (by rw [written_accept, hw]; exact List.append_nil _)
  rw [run, hb, hw]
  rfl

end Buffer

namespace Codec

variable {b : Buffer}

theorem flattenInto_visited (c : Codec) (d : Data) (t : Ty) {e : Emission}
    (h : c.emission d t = Emission.andThen ⟨[.visit d t], none⟩ e) : c.flattenInto b d t = b.run e := by
  have hr : c.flattenInto b d t = b.run (c.emission d t) := rfl
  rw [hr, h, Buffer.run_andThen, Buffer.run_visit]
  rfl

/-- Flattens values into a buffer up to the first that fails. -/
def flattenAllInto (c : Codec) (b : Buffer) : List (Data × Ty) → Written
  | [] => (b, .ok ())
  | (d, t) :: calls => Written.andThen (c.flattenInto b d t) fun b' => c.flattenAllInto b' calls

/-- Flattening into a buffer flattens the parts of a value into it, one after the other. -/
structure WritesByNode (c : Codec) : Prop where
  cluster : ∀ b ts ds, ds.length = ts.length →
    c.flattenInto b (.tuple ds) (.cluster ts) = c.flattenAllInto b (ds.zip ts)
  list : ∀ b d e depth g, d.grid depth = .ok g → c.flattenInto b d (.list (some e) depth) =
    (b.run (emitShape c.order g.shape)).andThen fun b' => c.flattenAllInto b' (g.leaves.map fun leaf => (leaf, e))
  payload : ∀ b code message p t, c.flattenInto b (.error code message (some p)) (.error (some t)) =
    (b.run (emitWord c.order 4 code.toInt)).andThen fun b' =>
      (b'.run (emitString c.order (Utf8.encode message))).andThen fun b' =>
        (b'.run (.write [1])).andThen fun b' => c.flattenInto b' p t

theorem run_emitMembers (c : Codec) : ∀ (b : Buffer) (ts : List Ty) (ds : List Data), ds.length = ts.length →
    b.run (Ty.emitMembers c.order ts ds) = c.flattenAllInto b (ds.zip ts)
  | b, [], [], _ => by
    rw [Ty.emitMembers]
    · exact Prod.ext (Buffer.eq_of_written rfl (List.append_nil b.written)) rfl
    · rintro _ _ _ _ ⟨⟩
  | b, t :: ts, d :: ds, h => by
    rw [Ty.emitMembers, Buffer.run_andThen, List.zip_cons_cons, flattenAllInto]
    exact congrArg _ (funext fun b' => c.run_emitMembers b' ts ds (Nat.succ.inj h))

theorem run_sequence_emit (c : Codec) (e : Ty) : ∀ (b : Buffer) (leaves : List Data),
    b.run (.sequence (leaves.map (e.emit c.order))) = c.flattenAllInto b (leaves.map fun leaf => (leaf, e))
  | b, [] => Prod.ext (Buffer.eq_of_written rfl (List.append_nil b.written)) rfl
  | b, leaf :: leaves => by
    have hs : Emission.sequence ((leaf :: leaves).map (e.emit c.order)) =
        (e.emit c.order leaf).andThen (.sequence (leaves.map (e.emit c.order))) := rfl
    rw [hs, Buffer.run_andThen, List.map_cons, flattenAllInto]
    exact congrArg _ (funext fun b' => c.run_sequence_emit e b' leaves)

theorem writesByNode (c : Codec) : c.WritesByNode where
  cluster b ts ds h := by
    rw [← c.run_emitMembers b ts ds h]
    refine c.flattenInto_visited _ _ ?_
    rw [emission, Ty.emit]
    exact congrArg _ (if_pos h)
  list b d e depth g h := by
    rw [c.flattenInto_visited d (.list (some e) depth)
      (e := (emitShape c.order g.shape).andThen (.sequence (g.leaves.map (e.emit c.order))))]
    · rw [Buffer.run_andThen]
      exact congrArg _ (funext fun b' => c.run_sequence_emit e b' g.leaves)
    · rw [emission, Ty.emit, h]
      rfl
  payload b code message p t := by
    rw [c.flattenInto_visited _ _ (by rw [emission, Ty.emit])]
    simp only [Buffer.run_andThen]
    rfl

/-! ## Calls one after the other -/

/-- A call ends as it would with an unbounded writer if there is room for its bytes. -/
theorem outcome_flattenInto (c : Codec) (d : Data) (t : Ty) :
    (c.flattenInto b d t).2 =
      if (c.emission d t).bytes.length ≤ b.room then (c.flattenAs d t).map fun _ => () else .error .bufferFull := by
  rw [flattenInto]
  split
  · rename_i h
    rw [Emission.within_eq_self h, flattenAs, Emission.result]
    cases (c.emission d t).outcome <;> rfl
  · rename_i h
    exact Emission.outcome_within_of_lt (Nat.lt_of_not_le h)

theorem flattenAs_ne_bufferFull (c : Codec) (d : Data) (t : Ty) : c.flattenAs d t ≠ .error .bufferFull := by
  intro h
  have hf : (c.emission d t).failure ≠ some .bufferFull := Ty.failure_ne_bufferFull t d
  rw [flattenAs, Emission.result, map_eq_error, Emission.outcome] at h
  split at h
  · cases h
  · rename_i e he
    cases h
    exact hf he

theorem flattenInto_bufferFull_iff (c : Codec) (d : Data) (t : Ty) :
    (c.flattenInto b d t).2 = .error .bufferFull ↔ b.room < (c.emission d t).bytes.length := by
  rw [outcome_flattenInto]
  split
  · rename_i h
    rw [map_eq_error]
    exact ⟨fun he => absurd he (flattenAs_ne_bufferFull c d t), fun hlt => by omega⟩
  · rename_i h
    exact ⟨fun _ => Nat.lt_of_not_le h, fun _ => rfl⟩

theorem flattenInto_eq_ok (c : Codec) (d : Data) (t : Ty) :
    (c.flattenInto b d t).2 = .ok () ↔ ∃ bs, c.flattenAs d t = .ok bs ∧ bs.length ≤ b.room := by
  rw [outcome_flattenInto]
  constructor
  · intro h
    split at h
    · rename_i hl
      obtain ⟨bs, hbs, -⟩ := map_eq_ok.1 h
      obtain ⟨-, rfl⟩ := Emission.result_eq_ok_iff.1 hbs
      exact ⟨_, hbs, hl⟩
    · cases h
  · rintro ⟨bs, hbs, hl⟩
    obtain ⟨-, rfl⟩ := Emission.result_eq_ok_iff.1 hbs
    rw [if_pos hl, hbs]
    rfl

/-- Flattening values into one buffer: the buffer after each call, and how the call ended. -/
def stream (c : Codec) (b : Buffer) : List (Data × Ty) → List (Buffer × Except FlattenError Unit)
  | [] => []
  | (d, t) :: calls =>
    let r := c.flattenInto b d t
    r :: c.stream r.1 calls

/-- What calls write with an unbounded writer, each up to its own end or failure. -/
def sent (c : Codec) (calls : List (Data × Ty)) : List UInt8 :=
  calls.flatMap fun p => (c.emission p.1 p.2).bytes

theorem length_stream (c : Codec) : ∀ (b : Buffer) (calls : List (Data × Ty)),
    (c.stream b calls).length = calls.length
  | _, [] => rfl
  | b, (d, t) :: calls => by rw [stream, List.length_cons, List.length_cons, length_stream]

/-- The buffer before a call holds the beginning of what the calls before it wrote, and the call goes on from there. -/
theorem stream_getElem? (c : Codec) {d : Data} {t : Ty} : ∀ (calls : List (Data × Ty)) (b : Buffer) (before : List UInt8)
    (k : Nat), b.written = before.take b.capacity → calls[k]? = some (d, t) →
    ∃ b' : Buffer, b'.capacity = b.capacity ∧ b'.written = (before ++ c.sent (calls.take k)).take b.capacity ∧
      (c.stream b calls)[k]? = some (c.flattenInto b' d t)
  | [], _, _, _, _, h => by cases h
  | (d', t') :: calls, b, before, 0, hb, h => by
    cases h
    exact ⟨b, rfl, by simpa [sent] using hb, rfl⟩
  | (d', t') :: calls, b, before, k + 1, hb, h => by
    -- for the other calls the bytes of this one were sent before
    obtain ⟨b', hc, hw, hs⟩ := stream_getElem? c calls (b.accept (c.emission d' t'))
      (before ++ (c.emission d' t').bytes) k (Buffer.written_accept_of_written hb) h
    rw [List.append_assoc] at hw
    exact ⟨b', hc, hw, hs⟩

theorem sent_take_succ (c : Codec) {calls : List (Data × Ty)} {k : Nat} {d : Data} {t : Ty}
    (h : calls[k]? = some (d, t)) : c.sent (calls.take (k + 1)) = c.sent (calls.take k) ++ (c.emission d t).bytes := by
  rw [List.take_add_one, h, sent, List.flatMap_append]
  simp [sent]

/-- A buffer that values are flattened into holds the beginning of all their bytes. A call fails for want of room
exactly if its bytes pass the end, and otherwise it ends as it does with an unbounded writer. Within a call the parts of
the value are written one after the other, each into the room that is left. -/
theorem stream_truncates (c : Codec) (capacity : Nat) (calls : List (Data × Ty)) :
    (c.stream (.empty capacity) calls).length = calls.length ∧
    (∀ k d t, calls[k]? = some (d, t) → ∃ b r, (c.stream (.empty capacity) calls)[k]? = some (b, r) ∧
      b.written = (c.sent (calls.take (k + 1))).take capacity ∧
      (r = .error .bufferFull ↔ capacity - (c.sent (calls.take k)).length < (c.emission d t).bytes.length) ∧
      (r ≠ .error .bufferFull → r = (c.flattenAs d t).map fun _ => ())) ∧
    (∀ d t, (c.flattenInto (.empty capacity) d t).2 = .ok () ↔
      ∃ bs, c.flattenAs d t = .ok bs ∧ bs.length ≤ capacity) ∧
    c.WritesByNode := by
  refine ⟨length_stream c _ _, fun k d t hk => ?_, fun d t => flattenInto_eq_ok c d t, c.writesByNode⟩
  obtain ⟨b, hc, hw, hs⟩ := stream_getElem? c calls (.empty capacity) [] k List.take_nil.symm hk
  rw [← hc, List.nil_append] at hw
  have hroom : b.room = capacity - (c.sent (calls.take k)).length := by
    rw [Buffer.room_of_written hw, hc]
    rfl
  refine ⟨(c.flattenInto b d t).1, (c.flattenInto b d t).2, hs, ?_, ?_, fun hne => ?_⟩
  · rw [sent_take_succ c hk]
    have ha := Buffer.written_accept_of_written (e := c.emission d t) hw
    rwa [hc] at ha
  · rw [flattenInto_bufferFull_iff, hroom]
  · rw [ne_eq, flattenInto_bufferFull_iff, Nat.not_lt] at hne
    rw [outcome_flattenInto, if_pos hne]

/-- The first call fails at its second member, and the next one finds one byte of room left. -/
theorem stream_truncates_half_written :
    let calls : List (Data × Ty) := [(.tuple [.int 1, .none], .cluster [.int, .bool]), (.int 7, .int)]
    ∃ b b' : Buffer, ({} : Codec).stream (.empty 5) calls =
        [(b, .error (.mismatch .bool .none)), (b', .error .bufferFull)] ∧
      b.written = [0, 0, 0, 1] ∧ b'.written = [0, 0, 0, 1, 0] := by
  intro calls
  obtain ⟨hl, hk, -⟩ := stream_truncates {} 5 calls
  obtain ⟨b, r, hs, hw, hf, ho⟩ := hk 0 _ _ rfl
  obtain ⟨b', r', hs', hw', hf', -⟩ := hk 1 _ _ rfl
  have hr : r = .error (.mismatch .bool .none) := ho (mt hf.1 (by decide))
  have hr' : r' = .error .bufferFull := hf'.2 (by decide)
  refine ⟨b, b', ?_, hw.trans (by decide), hw'.trans (by decide)⟩
  refine List.ext_getElem? fun i => ?_
  match i with
  | 0 => rw [hs, hr]; rfl
  | 1 => rw [hs', hr']; rfl
  | i + 2 => rw [List.getElem?_eq_none (by rw [hl]; simp [calls]), List.getElem?_eq_none (by simp)]

end Codec

end TagWire
