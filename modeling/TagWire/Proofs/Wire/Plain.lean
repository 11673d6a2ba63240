import TagWire.Proofs.Wire.Denotation

/-!
# The plain decoder

The decoder looks whether a string or a list can fit into the buffer before it reads it, and reads the numbers of an
array without making values of them. The plain decoder does neither. It takes strings byte for byte and lists element
for element, and makes an array of the elements afterwards. Both give the same values for the same buffers.
-/

namespace TagWire

/-- A string: its length and its bytes, one after the other. -/
def readPlainString (order : ByteOrder) : Reader (List UInt8) := fun s => do
  let (n, s) ← readUnsigned order 4 s
  readTimes readByte n [] s

/-- The elements of a list whose lengths are read, one after the other. -/
def readPlainItems (elem : Ty) (read : Reader Data) (shape : List Nat) : Reader Data := fun s => do
  let (total, s) ← enterShape shape (elem.minSize = 0) s
  let (leaves, s) ← readTimes read total [] s
  .ok (elem.assemble shape leaves, s)

namespace Ty

mutual

/-- A value of a type, without shortcuts. Only strings and lists have any. -/
def readPlain (order : ByteOrder) : Ty → Reader Data
  | str, s => do
    let (bs, s) ← readPlainString order s
    .ok (.bytes bs, s)
  | cluster ts, s => do
    let (ds, s) ← readPlainMembers order ts s
    .ok (.tuple ds, s)
  | list (some e) depth, s => do
    let (shape, s) ← readShape order depth s
    readPlainItems e (e.readPlain order) shape s
  | error payload, s => do
    let (code, s) ← readSigned order 4 s
    let (message, s) ← readPlainString order s
    let (p, s) ← readPlainPayload order payload s
    .ok (.error (.ofInt code) (Utf8.decodeLossy message) p, s)
  | t, s => t.read order s

def readPlainMembers (order : ByteOrder) : List Ty → Reader (List Data)
  | [], s => .ok ([], s)
  | t :: ts, s => do
    let (d, s) ← t.readPlain order s
    let (ds, s) ← readPlainMembers order ts s
    .ok (d :: ds, s)

def readPlainPayload (order : ByteOrder) : Option Ty → Reader (Option Data)
  | Option.none, s => .ok (Option.none, s)
  | some t, s => do
    let (flag, s) ← readByte s
    if flag = 0 then .ok (Option.none, s)
    else if flag = 1 then
      let (d, s) ← t.readPlain order s
      .ok (some d, s)
    else .error (.invalidFlag flag)

end

/-- The value of a type that a whole buffer holds, read without shortcuts. -/
def unflattenPlain (order : ByteOrder) (t : Ty) (bytes : List UInt8) : Except UnflattenError Data := do
  let (d, s) ← t.readPlain order ⟨bytes, maxFreeCells⟩
  match s.rest with
  | [] => .ok d
  | rest => .error (.trailingBytes rest.length t)

end Ty

/-! ## Agreement -/

/-- Two readers give the same values and leave the same input. They may fail for different reasons. -/
structure Agree {α : Type} (r p : Reader α) : Prop where
  ok : ∀ {s a s'}, r s = .ok (a, s') ↔ p s = .ok (a, s')

namespace Agree

variable {α β : Type} {r p r' p' : Reader α}

theorem refl (r : Reader α) : Agree r r := ⟨Iff.rfl⟩

theorem trans {q : Reader α} (h : Agree r p) (h' : Agree p q) : Agree r q := ⟨h.ok.trans h'.ok⟩

theorem bind_eq_ok_iff {k k' : α × Input → Except UnflattenError β} {s : Input} {b : β} (h : Agree r p)
    (hk : ∀ x, k x = .ok b ↔ k' x = .ok b) : (r s).bind k = .ok b ↔ (p s).bind k' = .ok b := by
  constructor
  · intro hb
    obtain ⟨⟨a, s₁⟩, ha, hb⟩ := bind_eq_ok.1 hb
    exact bind_eq_ok.2 ⟨(a, s₁), h.ok.1 ha, (hk _).1 hb⟩
  · intro hb
    obtain ⟨⟨a, s₁⟩, ha, hb⟩ := bind_eq_ok.1 hb
    exact bind_eq_ok.2 ⟨(a, s₁), h.ok.2 ha, (hk _).2 hb⟩

theorem bind (f g : α → Reader β) {both both' : Reader β} (hr : ∀ s, both s = (r s).bind fun x => f x.1 x.2)
    (hp : ∀ s, both' s = (p s).bind fun x => g x.1 x.2) (h : Agree r p) (hfg : ∀ a, Agree (f a) (g a)) :
    Agree both both' where
  ok {s b s'} := by
    rw [hr, hp]
    exact h.bind_eq_ok_iff fun x => (hfg x.1).ok

theorem map (f : α → β) {both both' : Reader β} (hr : ∀ s, both s = (r s).bind fun x => .ok (f x.1, x.2))
    (hp : ∀ s, both' s = (p s).bind fun x => .ok (f x.1, x.2)) (h : Agree r p) : Agree both both' :=
  h.bind (fun a s => .ok (f a, s)) (fun a s => .ok (f a, s)) hr hp fun _ => .refl _

theorem ite {c : Prop} [Decidable c] (h : Agree r p) (h' : Agree r' p') :
    Agree (fun s => if c then r s else r' s) (fun s => if c then p s else p' s) := by
  by_cases hc : c
  · simpa only [if_pos hc] using h
  · simpa only [if_neg hc] using h'

theorem times (h : Agree r p) : ∀ (n : Nat) (acc : List α), Agree (readTimes r n acc) (readTimes p n acc)
  | 0, _ => .refl _
  | n + 1, acc =>
    h.bind (fun a => readTimes r n (a :: acc)) (fun a => readTimes p n (a :: acc))
      (fun s => by rw [readTimes]; cases r s <;> rfl) (fun s => by rw [readTimes]; cases p s <;> rfl)
      fun a => h.times n (a :: acc)

end Agree

/-! ## Strings -/

theorem readTimes_readByte (n : Nat) (acc : List UInt8) (s : Input) : readTimes readByte n acc s =
    if n ≤ s.rest.length then .ok (acc.reverse ++ s.rest.take n, { s with rest := s.rest.drop n })
    else .error (.truncated .word) := by
  induction n generalizing acc s with
  | zero => simp [readTimes]
  | succ n ih =>
    obtain ⟨bytes, free⟩ := s
    cases bytes with
    | nil => simp [readTimes, readByte]
    | cons b bytes => simp [readTimes, readByte, ih]

/-- Whether there are enough bytes shows when they are taken. -/
theorem agree_bytes (what : Shortage) (n : Nat) : Agree (readBytes what n) (readTimes readByte n []) where
  ok {s bs s'} := by
    simp only [readBytes, readTimes_readByte, hasAtLeast_iff]
    split <;> simp

theorem agree_string (order : ByteOrder) : Agree (readString order) (readPlainString order) :=
  (Agree.refl (readUnsigned order 4)).bind (fun n => readBytes (.text n) n) (fun n => readTimes readByte n [])
    (fun _ => rfl) (fun _ => rfl) fun n => agree_bytes (.text n) n

/-! ## Lists -/

namespace Ty

variable {order : ByteOrder}

theorem agree_plainItems {e : Ty} {r p : Reader Data} (shape : List Nat) (h : Agree r p) :
    Agree (readPlainItems e r shape) (readPlainItems e p shape) :=
  (Agree.refl (enterShape shape (e.minSize = 0))).bind
    (fun total s => (readTimes r total [] s).bind fun x => .ok (e.assemble shape x.1, x.2))
    (fun total s => (readTimes p total [] s).bind fun x => .ok (e.assemble shape x.1, x.2)) (fun _ => rfl)
    (fun _ => rfl) fun total => (h.times total []).map (e.assemble shape) (fun _ => rfl) fun _ => rfl

/-- Elements that are read one after the other take up as many bytes as the list is asked to have, and an array
has just these elements. -/
theorem agree_items (e : Ty) (shape : List Nat) :
    Agree (readItems order e (e.read order) shape) (readPlainItems e (e.read order) shape) where
  ok {s d s'} := by
    constructor
    · intro h
      obtain ⟨leaves, parts, hl, hshape, hd, rfl, ht⟩ := denotes_of_readItems (denotes_of_read e) h
      have hs := reads_enterShape (decide (e.minSize = 0)) (parts.flatten ++ s'.rest) hshape
      have hr : Reads (readTimes (e.read order) leaves.length []) (parts.flatten ++ s'.rest)
          (leaves.map Prod.fst) s'.rest (leaves.map Prod.snd).sum :=
        reads_times (hd.imp fun x p hx => reads_of_denotes e hx)
      rw [hl] at hr
      have hp : Reads (readPlainItems e (e.read order) shape) _ _ s'.rest _ :=
        hs.bind (fun total s => (readTimes (e.read order) total [] s).bind fun x => .ok (e.assemble shape x.1, x.2))
          (fun _ => rfl) (hr.map (e.assemble shape) fun _ => rfl)
      exact hp.of_took ht
    · intro h
      obtain ⟨⟨total, s₁⟩, hs, h⟩ := bind_eq_ok.1 h
      obtain ⟨⟨as, s₂⟩, has, h⟩ := bind_eq_ok.1 h
      cases h
      obtain ⟨rfl, hshape, ht⟩ := took_of_enterShape hs
      obtain ⟨leaves, parts, hv, hl, hd, hts⟩ := denotes_of_readTimes e id
        (fun h => let ⟨bs, n, hx, ht⟩ := denotes_of_read e h; ⟨n, bs, hx, ht⟩) has
      rw [List.map_id] at hv
      rw [← hv]
      exact (reads_of_leaves s'.rest hshape hl hd (reads_of_denotes e)).of_took (ht.trans hts)

/-! ## Values -/

mutual

theorem agree_read : (t : Ty) → Agree (t.read order) (t.readPlain order)
  | none | bool | int | word | time | value _ | complex _ | list Option.none _ => .refl _
  | str => (agree_string order).map .bytes (fun _ => rfl) fun _ => rfl
  | cluster ts => (agree_members ts).map .tuple (fun _ => rfl) fun _ => rfl
  | list (some e) depth =>
    (Agree.refl (readShape order depth)).bind (readItems order e (e.read order))
      (readPlainItems e (e.readPlain order)) (fun _ => rfl) (fun _ => rfl) fun shape =>
        (agree_items e shape).trans (agree_plainItems shape (agree_read e))
  | error payload =>
    (Agree.refl (readSigned order 4)).bind
      (fun code s => (readString order s).bind fun x => (readPayload order payload x.2).bind fun y =>
        .ok (.error (.ofInt code) (Utf8.decodeLossy x.1) y.1, y.2))
      (fun code s => (readPlainString order s).bind fun x => (readPlainPayload order payload x.2).bind fun y =>
        .ok (.error (.ofInt code) (Utf8.decodeLossy x.1) y.1, y.2))
      (fun _ => rfl) (fun _ => rfl) fun code => (agree_string order).bind
        (fun message s => (readPayload order payload s).bind fun y =>
          .ok (.error (.ofInt code) (Utf8.decodeLossy message) y.1, y.2))
        (fun message s => (readPlainPayload order payload s).bind fun y =>
          .ok (.error (.ofInt code) (Utf8.decodeLossy message) y.1, y.2))
        (fun _ => rfl) (fun _ => rfl) fun message =>
          (agree_payload payload).map (.error (.ofInt code) (Utf8.decodeLossy message)) (fun _ => rfl) fun _ => rfl

theorem agree_members : (ts : List Ty) → Agree (readMembers order ts) (readPlainMembers order ts)
  | [] => .refl _
  | t :: ts => (agree_read t).bind
      (fun d s => (readMembers order ts s).bind fun x => .ok (d :: x.1, x.2))
      (fun d s => (readPlainMembers order ts s).bind fun x => .ok (d :: x.1, x.2))
      (fun _ => rfl) (fun _ => rfl) fun d => (agree_members ts).map (d :: ·) (fun _ => rfl) fun _ => rfl

theorem agree_payload : (payload : Option Ty) → Agree (readPayload order payload) (readPlainPayload order payload)
  | Option.none => .refl _
  | some t => (Agree.refl readByte).bind
      (fun flag s => if flag = 0 then .ok (Option.none, s)
        else if flag = 1 then (t.read order s).bind fun x => .ok (some x.1, x.2) else .error (.invalidFlag flag))
      (fun flag s => if flag = 0 then .ok (Option.none, s)
        else if flag = 1 then (t.readPlain order s).bind fun x => .ok (some x.1, x.2) else .error (.invalidFlag flag))
      (fun _ => rfl) (fun _ => rfl)
      fun _ => .ite (.refl _) (.ite ((agree_read t).map some (fun _ => rfl) fun _ => rfl) (.refl _))

end

/-- The array that elements are made into has just these elements. -/
theorem items?_of_readPlain {e : Ty} {k : Nat} {s s' : Input} {leaves : List Data} {a : Data}
    (h : readTimes (e.readPlain order) k [] s = .ok (leaves, s')) (ha : e.gather? leaves = some a) :
    a.items? = some leaves := by
  have hr := ((agree_read e).times k []).ok.2 h
  obtain ⟨xs, parts, hv, _, hd, _⟩ := denotes_of_readTimes e id
    (fun h => let ⟨bs, n, hx, ht⟩ := denotes_of_read e h; ⟨n, bs, hx, ht⟩) hr
  rw [List.map_id] at hv
  subst hv
  exact items?_of_gather ha (List.forall_mem_map.2 (forall_of_forall₂ hd fun hx => ⟨_, _, hx⟩))

end Ty

/-- A buffer is unflattened to a value exactly if the plain decoder reads this value from the whole buffer. -/
theorem Codec.unflatten_iff_plain (c : Codec) (bytes : List UInt8) (t : Ty) (d : Data) :
    c.unflatten bytes t = .ok d ↔ t.unflattenPlain c.order bytes = .ok d :=
  t.agree_read.bind_eq_ok_iff fun _ => Iff.rfl

/-- Only the reasons of failures differ: a string that is too long, or a byte that is missing. -/
example : Ty.unflatten .big .str [0, 0, 0, 1] = .error (.truncated (.text 1)) ∧
    Ty.unflattenPlain .big .str [0, 0, 0, 1] = .error (.truncated .word) :=
  ⟨rfl, rfl⟩

end TagWire
