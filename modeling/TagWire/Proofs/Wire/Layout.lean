import Mathlib.Data.List.Forall2
import TagWire.Proofs.Typing.Fitting

/-!
# The layout of values

What `Ty.emit` writes when it does not fail, one statement for each type. Nothing below this module is unfolded
again.
-/

namespace TagWire

/-! ## Emissions -/

namespace Emission

variable {a b : Emission} {bs : List UInt8}

@[simp] theorem result_done : done.result = .ok [] := rfl

@[simp] theorem result_write (bs : List UInt8) : (write bs).result = .ok bs :=
  result_eq_ok_iff.2 ⟨rfl, bytes_write bs⟩

@[simp] theorem result_fail (e : FlattenError) : (fail e).result = .error e := rfl

theorem result_andThen : (a.andThen b).result = .ok bs ↔
    ∃ xs ys, a.result = .ok xs ∧ b.result = .ok ys ∧ bs = xs ++ ys := by
  constructor
  · intro h
    obtain ⟨hf, hb⟩ := result_eq_ok_iff.1 h
    rw [failure_andThen] at hf
    cases fa : a.failure with
    | some e => rw [fa] at hf; cases hf
    | none =>
      rw [fa] at hf
      rw [bytes_andThen_of_none fa] at hb
      exact ⟨a.bytes, b.bytes, result_eq_ok_iff.2 ⟨fa, rfl⟩, result_eq_ok_iff.2 ⟨hf, rfl⟩, hb.symm⟩
  · rintro ⟨xs, ys, ha, hb, rfl⟩
    obtain ⟨fa, rfl⟩ := result_eq_ok_iff.1 ha
    obtain ⟨fb, rfl⟩ := result_eq_ok_iff.1 hb
    exact result_eq_ok_iff.2 ⟨by rw [failure_andThen, fa, fb]; rfl, bytes_andThen_of_none fa⟩

/-- Looking at a value writes nothing. -/
theorem result_visit (d : Data) (t : Ty) :
    (andThen ⟨[.visit d t], none⟩ b).result = .ok bs ↔ b.result = .ok bs := by
  rw [result_andThen]
  constructor
  · rintro ⟨xs, ys, hx, hy, rfl⟩
    cases hx
    exact hy
  · intro h
    exact ⟨[], bs, rfl, h, rfl⟩

theorem result_guarded {α : Type} {check : Except FlattenError α} {emit : α → Emission} :
    (guarded check emit).result = .ok bs ↔ ∃ x, check = .ok x ∧ (emit x).result = .ok bs := by
  cases check <;> simp [guarded]

theorem result_sequence_map {α : Type} {emit : α → Emission} {xs : List α} : ∀ {bs : List UInt8},
    (sequence (xs.map emit)).result = .ok bs ↔
      ∃ parts, List.Forall₂ (fun x p => (emit x).result = .ok p) xs parts ∧ bs = parts.flatten := by
  induction xs with
  | nil => intro bs; simp [sequence, eq_comm]
  | cons x xs ih =>
    intro bs
    rw [List.map_cons, sequence, List.foldr_cons, result_andThen]
    constructor
    · rintro ⟨p, ys, hp, hys, rfl⟩
      obtain ⟨parts, hparts, rfl⟩ := ih.1 hys
      exact ⟨p :: parts, .cons hp hparts, by simp⟩
    · rintro ⟨_, h, rfl⟩
      obtain ⟨p, parts, hp, hparts, rfl⟩ := List.forall₂_cons_left_iff.1 h
      exact ⟨p, parts.flatten, hp, ih.2 ⟨parts, hparts, rfl⟩, by simp⟩

end Emission

open Emission

variable {order : ByteOrder} {d : Data} {bs : List UInt8}

/-! ## Scalars -/

/-- Data is only written in its own unit. -/
theorem UnitMark.checkLabel_eq_ok {u : UnitMark} {ty : Ty} {l : String} :
    u.checkLabel ty l = .ok () ↔ l = u.label := by
  cases u <;> simp only [checkLabel, label, label?] <;> split <;> simp_all [eq_comm]

/-- The bytes of a string: its length and its contents. -/
def stringBytes (order : ByteOrder) (xs : List UInt8) : List UInt8 := Word.encode order 4 xs.length ++ xs

theorem result_emitString {xs : List UInt8} :
    (emitString order xs).result = .ok bs ↔ xs.length < 0x100000000 ∧ bs = stringBytes order xs := by
  unfold emitString
  by_cases h : xs.length < 0x100000000
  · rw [if_pos h, result_andThen]
    constructor
    · rintro ⟨_, _, hx, hy, rfl⟩
      rw [emitWord, result_write] at hx
      rw [result_write] at hy
      cases hx
      cases hy
      exact ⟨h, rfl⟩
    · rintro ⟨_, rfl⟩
      exact ⟨_, _, result_write _, result_write _, rfl⟩
  · rw [if_neg h]
    constructor
    · intro hf
      cases hf
    · rintro ⟨hx, _⟩
      exact absurd hx h

/-- The bytes of a stamp: its seconds and its fraction. -/
def stampBytes (order : ByteOrder) (s : Stamp) : List UInt8 :=
  Word.encode order 8 s.seconds.toInt ++ Word.encode order 8 s.fraction.toNat

/-- The bytes of the lengths of a list. -/
def shapeBytes (order : ByteOrder) (shape : List Nat) : List UInt8 :=
  shape.flatMap fun n : Nat => Word.encode order 4 n

@[simp] theorem shapeBytes_cons (order : ByteOrder) (n : Nat) (shape : List Nat) :
    shapeBytes order (n :: shape) = Word.encode order 4 n ++ shapeBytes order shape := rfl

theorem result_emitShape {shape : List Nat} : ∀ {bs : List UInt8}, (emitShape order shape).result = .ok bs ↔
    (∀ n ∈ shape, n < 0x80000000) ∧ bs = shapeBytes order shape := by
  induction shape with
  | nil => intro bs; simp [emitShape, Emission.sequence, shapeBytes, eq_comm]
  | cons n shape ih =>
    intro bs
    have he : emitShape order (n :: shape) =
        (if n < 0x80000000 then emitWord order 4 n else .fail (.outOfRange n .int)).andThen (emitShape order shape) := rfl
    rw [he, result_andThen]
    constructor
    · rintro ⟨xs, ys, hx, hy, rfl⟩
      obtain ⟨hs, rfl⟩ := ih.1 hy
      split at hx
      · rw [emitWord, result_write] at hx
        cases hx
        exact ⟨List.forall_mem_cons.2 ⟨‹_›, hs⟩, rfl⟩
      · cases hx
    · rintro ⟨hs, rfl⟩
      obtain ⟨hn, hs⟩ := List.forall_mem_cons.1 hs
      exact ⟨_, _, by rw [if_pos hn, emitWord, result_write], ih.2 ⟨hs, rfl⟩, rfl⟩

/-- The bytes that every error begins with: its code and its message. -/
def errorBytes (order : ByteOrder) (code : Int32) (message : String) : List UInt8 :=
  Word.encode order 4 code.toInt ++ stringBytes order (Utf8.encode message)

/-! ## Values -/

namespace Ty

attribute [local simp] emit emitMembers

theorem result_mismatch {t : Ty} : (t.mismatch d).result ≠ .ok bs := by simp [mismatch]

theorem result_emitView {α : Type} {t : Ty} {view : Option α} {emit : α → Emission} :
    (t.emitView d view emit).result = .ok bs ↔ ∃ a, view = some a ∧ (emit a).result = .ok bs := by
  cases view <;> simp [emitView, mismatch]

theorem emit_none : (none.emit order d).result = .ok bs ↔ d = .none ∧ bs = [] := by
  cases d <;> simp only [emit] <;> rw [result_visit] <;> simp [mismatch, eq_comm]

theorem emit_bool : (bool.emit order d).result = .ok bs ↔ ∃ b, d = .bool b ∧ bs = [if b then 1 else 0] := by
  cases d <;> simp only [emit] <;> rw [result_visit] <;> simp [mismatch, eq_comm]

theorem emit_int : (int.emit order d).result = .ok bs ↔
    ∃ n, d.integer? = some n ∧ (-0x80000000 ≤ n ∧ n < 0x80000000) ∧ bs = Word.encode order 4 n := by
  rw [emit, result_visit, result_emitView]
  simp only [result_guarded, checkInt_eq_ok, emitWord, result_write, Except.ok.injEq]
  constructor
  · rintro ⟨n, hn, _, ⟨rfl, hr⟩, rfl⟩
    exact ⟨n, hn, hr, rfl⟩
  · rintro ⟨n, hn, hr, rfl⟩
    exact ⟨n, hn, n, ⟨rfl, hr⟩, rfl⟩

theorem emit_word : (word.emit order d).result = .ok bs ↔
    ∃ n, d.integer? = some n ∧ (0 ≤ n ∧ n < 0x100000000) ∧ bs = Word.encode order 4 n := by
  rw [emit, result_visit, result_emitView]
  simp only [result_guarded, checkWord_eq_ok, emitWord, result_write, Except.ok.injEq]
  constructor
  · rintro ⟨n, hn, _, ⟨rfl, hr⟩, rfl⟩
    exact ⟨n, hn, hr, rfl⟩
  · rintro ⟨n, hn, hr, rfl⟩
    exact ⟨n, hn, n, ⟨rfl, hr⟩, rfl⟩

theorem emit_str : (str.emit order d).result = .ok bs ↔
    ∃ xs, d.bytes? = some xs ∧ xs.length < 0x100000000 ∧ bs = stringBytes order xs := by
  rw [emit, result_visit, result_emitView]
  simp only [result_emitString]

theorem emit_time : (time.emit order d).result = .ok bs ↔
    ∃ i, d = .time i ∧ bs = stampBytes order (.ofInstant i) := by
  cases d with
  | time i =>
    simp only [emit]
    rw [result_visit]
    simp [result_andThen, emitWord, stampBytes]
  | _ =>
    simp only [emit]
    rw [result_visit]
    simp [mismatch]

theorem emit_value {u : UnitMark} : ((value u).emit order d).result = .ok bs ↔
    ∃ x, d.real? = some (x, u.label) ∧ bs = Word.encode order 8 x.bits.toNat := by
  rw [emit, result_visit, result_emitView]
  simp only [result_guarded, emitDouble, emitWord, result_write, Except.ok.injEq]
  constructor
  · rintro ⟨⟨x, l⟩, hd, ⟨⟩, hl, rfl⟩
    obtain rfl := UnitMark.checkLabel_eq_ok.1 hl
    exact ⟨x, hd, rfl⟩
  · rintro ⟨x, hd, rfl⟩
    exact ⟨_, hd, (), UnitMark.checkLabel_eq_ok.2 rfl, rfl⟩

theorem emit_complex {u : UnitMark} : ((complex u).emit order d).result = .ok bs ↔
    ∃ z, d.complex? = some (z, u.label) ∧
      bs = Word.encode order 8 z.re.bits.toNat ++ Word.encode order 8 z.im.bits.toNat := by
  rw [emit, result_visit, result_emitView]
  simp only [result_guarded, result_andThen, emitDouble, emitWord, result_write, Except.ok.injEq]
  constructor
  · rintro ⟨⟨z, l⟩, hd, ⟨⟩, hl, _, _, rfl, rfl, rfl⟩
    obtain rfl := UnitMark.checkLabel_eq_ok.1 hl
    exact ⟨z, hd, rfl⟩
  · rintro ⟨z, hd, rfl⟩
    exact ⟨_, hd, (), UnitMark.checkLabel_eq_ok.2 rfl, _, _, rfl, rfl, rfl⟩

theorem emitMembers_nil : (emitMembers order [] []).result = .ok bs ↔ bs = [] := by
  simp [emitMembers, eq_comm]

theorem emitMembers_cons {t : Ty} {ts : List Ty} {ds : List Data} :
    (emitMembers order (t :: ts) (d :: ds)).result = .ok bs ↔
      ∃ xs ys, (t.emit order d).result = .ok xs ∧ (emitMembers order ts ds).result = .ok ys ∧ bs = xs ++ ys := by
  rw [emitMembers, result_andThen]

theorem emit_cluster {ts : List Ty} : ((cluster ts).emit order d).result = .ok bs ↔
    ∃ ds, d = .tuple ds ∧ ds.length = ts.length ∧ (emitMembers order ts ds).result = .ok bs := by
  cases d with
  | tuple ds =>
    simp only [emit]
    rw [result_visit]
    by_cases h : ds.length = ts.length <;> simp [h]
  | _ =>
    simp only [emit]
    rw [result_visit]
    simp [mismatch]

/-- A list is its lengths and then its leaves. -/
theorem emit_list {e : Ty} {depth : Nat} : ((list (some e) depth).emit order d).result = .ok bs ↔
    ∃ g parts, d.grid depth = .ok g ∧ (∀ n ∈ g.shape, n < 0x80000000) ∧
      List.Forall₂ (fun x p => (e.emit order x).result = .ok p) g.leaves parts ∧
      bs = shapeBytes order g.shape ++ parts.flatten := by
  rw [emit, result_visit]
  simp only [result_guarded, result_andThen, result_emitShape, result_sequence_map, mapError_eq_ok]
  constructor
  · rintro ⟨g, hg, _, _, ⟨hs, rfl⟩, ⟨parts, hp, rfl⟩, rfl⟩
    exact ⟨g, parts, hg, hs, hp, rfl⟩
  · rintro ⟨g, parts, hg, hs, hp, rfl⟩
    exact ⟨g, hg, _, _, ⟨hs, rfl⟩, ⟨parts, hp, rfl⟩, rfl⟩

theorem emit_emptyList {depth : Nat} : ((list Option.none depth).emit order d).result = .ok bs ↔
    ∃ g, d.grid depth = .ok g ∧ (∀ n ∈ g.shape, n < 0x80000000) ∧ g.leaves = [] ∧
      bs = shapeBytes order g.shape := by
  rw [emit, result_visit]
  simp only [result_guarded, result_andThen, result_emitShape, mapError_eq_ok]
  constructor
  · rintro ⟨g, hg, _, ys, ⟨hs, rfl⟩, hl, rfl⟩
    by_cases he : g.leaves.isEmpty
    · rw [if_pos he, result_done] at hl
      cases hl
      exact ⟨g, hg, hs, List.isEmpty_iff.1 he, by simp⟩
    · rw [if_neg he] at hl
      cases hl
  · rintro ⟨g, hg, hs, hl, rfl⟩
    exact ⟨g, hg, _, [], ⟨hs, rfl⟩, by simp [hl], by simp⟩

theorem result_error {code : Int32} {message : String} {rest : Emission} :
    ((emitWord order 4 code.toInt).andThen <| (emitString order (Utf8.encode message)).andThen rest).result = .ok bs ↔
      (Utf8.encode message).length < 0x100000000 ∧ ∃ ys, rest.result = .ok ys ∧
        bs = errorBytes order code message ++ ys := by
  simp only [result_andThen, result_emitString, emitWord, result_write, Except.ok.injEq]
  constructor
  · rintro ⟨_, _, rfl, ⟨_, ys, ⟨hm, rfl⟩, hy, rfl⟩, rfl⟩
    exact ⟨hm, ys, hy, by simp [errorBytes]⟩
  · rintro ⟨hm, ys, hy, rfl⟩
    exact ⟨_, _, rfl, ⟨_, ys, ⟨hm, rfl⟩, hy, rfl⟩, by simp [errorBytes]⟩

theorem emit_bareError : ((error Option.none).emit order d).result = .ok bs ↔
    ∃ code message, d = .error code message Option.none ∧ (Utf8.encode message).length < 0x100000000 ∧
      bs = errorBytes order code message := by
  cases d with
  | error code message payload =>
    simp only [emit]
    rw [result_visit, result_error]
    cases payload with
    | none =>
      constructor
      · rintro ⟨hm, ys, hy, rfl⟩
        cases hy
        exact ⟨code, message, rfl, hm, List.append_nil _⟩
      · rintro ⟨_, _, ⟨⟩, hm, rfl⟩
        exact ⟨hm, [], result_done, (List.append_nil _).symm⟩
    | some q =>
      constructor
      · rintro ⟨_, ys, hy, _⟩
        exact absurd hy result_mismatch
      · rintro ⟨_, _, ⟨⟩, _⟩
  | _ =>
    simp only [emit]
    rw [result_visit]
    constructor
    · intro h
      exact absurd h result_mismatch
    · rintro ⟨_, _, ⟨⟩, _⟩

/-- The bytes of an error without a payload end in 0, and those of an error with one have 1 before it. -/
theorem emit_error {p : Ty} : ((error (some p)).emit order d).result = .ok bs ↔
    ∃ code message payload tail, d = .error code message payload ∧ (Utf8.encode message).length < 0x100000000 ∧
      bs = errorBytes order code message ++ tail ∧
      match payload with
      | Option.none => tail = [0]
      | some q => ∃ ys, (p.emit order q).result = .ok ys ∧ tail = 1 :: ys := by
  cases d with
  | error code message payload =>
    simp only [emit]
    rw [result_visit, result_error]
    cases payload with
    | none => simp [eq_comm]
    | some q =>
      simp only [result_andThen, result_write, Except.ok.injEq]
      constructor
      · rintro ⟨hm, _, ⟨_, ys, rfl, hy, rfl⟩, rfl⟩
        exact ⟨code, message, some q, _, rfl, hm, rfl, ys, hy, rfl⟩
      · rintro ⟨_, _, _, _, ⟨⟩, hm, rfl, ys, hy, rfl⟩
        exact ⟨hm, _, ⟨_, ys, rfl, hy, rfl⟩, rfl⟩
  | _ =>
    simp only [emit]
    rw [result_visit]
    constructor
    · intro h
      exact absurd h result_mismatch
    · rintro ⟨_, _, _, _, ⟨⟩, _⟩

end Ty

end TagWire
