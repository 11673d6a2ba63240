import TagWire.Tag.Matching

/-!
# Joining types

Two types that leave different things open are joined into one that leaves open only what both do. Open are
the unknown element of a list and the missing payload of an error.
-/

namespace TagWire

namespace Ty

mutual

/-- The join of two types. Whatever neither leaves open has to agree. -/
def unify : Ty → Ty → Option Ty
  | list (some a) d, list (some b) e => if d = e then (unify a b).map fun t => list (some t) d else Option.none
  | list Option.none d, list b e => if d = e then some (list b d) else Option.none
  | list a d, list Option.none e => if d = e then some (list a d) else Option.none
  | cluster as, cluster bs => (unifyAll as bs).map cluster
  | error (some a), error (some b) => (unify a b).map fun t => error (some t)
  | error Option.none, error b => some (error b)
  | error a, error Option.none => some (error a)
  | a, b => if a = b then some a else Option.none

def unifyAll : List Ty → List Ty → Option (List Ty)
  | [], [] => some []
  | a :: as, b :: bs =>
    match unify a b, unifyAll as bs with
    | some t, some ts => some (t :: ts)
    | _, _ => Option.none
  | _, _ => Option.none

end

mutual

/-- Fills what a type leaves open with what a hint says of it without any data. -/
def fillFrom : Ty → Hint → Ty
  | list Option.none depth, .list (some h) _ => list h.withoutData? depth
  | list (some t) depth, .list (some h) _ => list (some (t.fillFrom h)) depth
  | cluster ts, .cluster hs => if ts.length = hs.length then cluster (fillAllFrom ts hs) else cluster ts
  | error Option.none, .error (some h) => error h.withoutData?
  | error (some t), .error (some h) => error (some (t.fillFrom h))
  | t, _ => t

def fillAllFrom : List Ty → List Hint → List Ty
  | t :: ts, h :: hs => t.fillFrom h :: fillAllFrom ts hs
  | ts, _ => ts

end

/-- Induction along filling in. -/
theorem fillFrom_induction {P : Ty → Hint → Prop} {A : List Ty → List Hint → Prop}
    (unknown : ∀ depth h n, P (list Option.none depth) (.list (some h) n))
    (elem : ∀ t depth h n, P t h → P (list (some t) depth) (.list (some h) n))
    (cluster : ∀ ts hs, ts.length = hs.length → A ts hs → P (cluster ts) (.cluster hs))
    (bareError : ∀ h, P (error Option.none) (.error (some h)))
    (payload : ∀ t h, P t h → P (error (some t)) (.error (some h)))
    (unchanged : ∀ t h, t.fillFrom h = t → P t h)
    (cons : ∀ t ts h hs, P t h → A ts hs → A (t :: ts) (h :: hs))
    (uneven : ∀ ts hs, fillAllFrom ts hs = ts → A ts hs) :
    (∀ t h, P t h) ∧ ∀ ts hs, A ts hs := by
  refine fillFrom.mutual_induct P A unknown elem cluster (fun ts hs hl => ?_) bareError payload
    (fun t h _ _ _ _ _ => ?_) cons fun ts hs hn => ?_
  · exact unchanged _ _ (by rw [fillFrom, if_neg hl])
  · exact unchanged t h (by rw [fillFrom] <;> assumption)
  · exact uneven ts hs (by rw [fillAllFrom]; exact hn)

end Ty

end TagWire
