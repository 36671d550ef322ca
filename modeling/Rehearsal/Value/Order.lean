import Rehearsal.Fault
import Rehearsal.Value.Same

/-!
The order of values, and sorting by it.

Numbers have an order among each other, as have texts, bytes, times and durations; lists and
tuples are compared at the first place where they differ. Two values that have no order are
reported as the pair that was compared.

A sort begins with the run at the front of a list, turned round if it falls, and puts each further
element in its place by halving.
-/

namespace Rehearsal.Value

/-- Whether one of two values is a decimal and the other no number at all. -/
def mixesNan : Value → Value → Bool
  | .decimal _, .float x => x.isNan
  | .float x, .decimal _ => x.isNan
  | _, _ => false

mutual

/-- Whether a value is below another, or the pair inside them that has no order. -/
def less : Value → Value → Except (Value × Value) Bool
  | .list as, .list bs => lessItems as bs
  | .tuple as, .tuple bs => lessItems as bs
  | .bytes as, .bytes bs => .ok (decide (as < bs))
  | .span a, .span b => .ok (a.micros < b.micros)
  | .instant a, .instant b =>
    if a.offset.isSome = b.offset.isSome then .ok (a.epochMicros < b.epochMicros)
    else .error (.instant a, .instant b)
  | a, b =>
    match a.number?, b.number?, a.text?, b.text? with
    | some x, some y, _, _ =>
      if a.mixesNan b then .error (a, b) else .ok (x.compare? y == some .lt)
    | _, _, some x, some y => .ok (x < y)
    | _, _, _, _ => .error (a, b)

def lessItems : List Value → List Value → Except (Value × Value) Bool
  | _, [] => .ok false
  | [], _ :: _ => .ok true
  | a :: as, b :: bs => if a.same b then lessItems as bs else a.less b

end

/-- How a comparison of two values without order is refused. -/
def noOrder (mark : String) (a b : Value) : Fault :=
  match a, b with
  | .instant _, .instant _ =>
    .wrongType "can't compare offset-naive and offset-aware datetimes"
  | .decimal _, .float _ => .raised .decimalLimit "[<class 'decimal.InvalidOperation'>]"
  | .float _, .decimal _ => .raised .decimalLimit "[<class 'decimal.InvalidOperation'>]"
  | a, b =>
    .wrongType ("'" ++ mark ++ "' not supported between instances of '" ++ a.qualifiedTypeName
      ++ "' and '" ++ b.qualifiedTypeName ++ "'")

def isBelow (a b : Value) : Except Fault Bool := (a.less b).mapError fun (a, b) => noOrder "<" a b

def isAbove (a b : Value) : Except Fault Bool := (b.less a).mapError fun (b, a) => noOrder ">" a b

section Sorting

variable {α : Type} (key : α → Value)

/-- The elements that go on falling, or go on without falling, after one; and the rest. -/
def run (falling : Bool) (last : α) : List α → Except Fault (List α × List α)
  | [] => .ok ([], [])
  | x :: rest => do
    if (← (key x).isBelow (key last)) = falling then
      let (more, rest) ← run falling x rest
      return (x :: more, rest)
    else return ([], x :: rest)

/-- Puts an element into a sorted list, after those it is not below. -/
def place (x : α) (made : List α) : Except Fault (List α) :=
  match _h : made.drop (made.length / 2) with
  | [] => .ok [x]
  | middle :: after => do
    if ← (key x).isBelow (key middle) then
      return (← place x (made.take (made.length / 2))) ++ middle :: after
    else return made.take (made.length / 2) ++ middle :: (← place x after)
termination_by made.length
decreasing_by
  all_goals
    have := congrArg List.length _h
    simp only [List.length_drop, List.length_cons, List.length_take] at this ⊢
    omega

/-- The elements sorted by their keys; equal ones stay in their order. -/
def sortBy : List α → Except Fault (List α)
  | [] => .ok []
  | [x] => .ok [x]
  | x :: y :: rest => do
    let falling ← (key y).isBelow (key x)
    let (more, rest) ← run key falling y rest
    let front := x :: y :: more
    rest.foldlM (fun made x => place key x made) (if falling then front.reverse else front)

end Sorting

end Rehearsal.Value
