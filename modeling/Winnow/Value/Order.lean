import Winnow.Value.Equal

/-!
# The order of values

Numbers are ordered by value, texts and identifiers by code point, dates with dates, times with times, and sequences by
their first unequal items. Values of different kinds have no order, which is a fault and not an answer; a NaN is neither
before nor after a number, which is an answer, except that a decimal refuses to be compared with one.
-/

namespace Winnow

/-- Why two values have no order: they are of kinds that are not compared, or a decimal meets a NaN. -/
inductive OrderFault where
  | incomparable
  | undefined
  deriving DecidableEq

/-- The order of two texts by code point. -/
def orderText (s t : String) : Ordering :=
  if s < t then .lt else if s = t then .eq else .gt

namespace Value

/-- Whether a number is a decimal. -/
def isDecimal : Value → Bool
  | decimal _ => true
  | _ => false

/-- The order of two numbers. -/
def orderQuantity (v w : Value) (x y : Quantity) : Except OrderFault (Option Ordering) :=
  match x.compare y with
  | some o => .ok (some o)
  | none => if v.isDecimal || w.isDecimal then .error .undefined else .ok none

/-- The order of two values that hold no others. -/
def orderScalar (v w : Value) : Except OrderFault (Option Ordering) :=
  match v.asQuantity?, w.asQuantity? with
  | some x, some y => orderQuantity v w x y
  | _, _ =>
    match v.asText?, w.asText? with
    | some s, some t => .ok (some (orderText s t))
    | _, _ =>
      match v, w with
      | .date d, .date e => .ok (some (compare d.ordinal e.ordinal))
      | .datetime t, .datetime u => known (t.order? u)
      | .time t, .time u => known (t.order? u)
      | .uuid s, .uuid t => .ok (some (orderText s t))
      | _, _ => .error .incomparable
where
  known : Option Ordering → Except OrderFault (Option Ordering)
    | some o => .ok (some o)
    | none => .error .incomparable

end Value

mutual

/-- The order of two values, `none` when one is a NaN. -/
def Value.order (v w : Value) : Except OrderFault (Option Ordering) :=
  match v with
  | .list items => match w with
    | .list items' => orderItems items items'
    | _ => .error .incomparable
  | .tuple items => match w with
    | .tuple items' => orderItems items items'
    | _ => .error .incomparable
  | v => v.orderScalar w
termination_by structural v

/-- The order of two sequences: that of their first unequal items, or else the shorter one first. -/
def orderItems (items items' : List Value) : Except OrderFault (Option Ordering) :=
  match items with
  | [] => .ok (some (if items'.isEmpty then .eq else .lt))
  | v :: rest => match items' with
    | [] => .ok (some .gt)
    | w :: rest' => match v.same? w with
      | none => .error .undefined
      | some true => orderItems rest rest'
      | some false => v.order w
termination_by structural items

end

/-- Whether an order satisfies a bound; no order satisfies none. -/
def Bound.admits (bound : Bound) (order : Option Ordering) : Bool :=
  match bound, order with
  | .lt, some .lt => true
  | .lte, some .lt => true
  | .lte, some .eq => true
  | .gt, some .gt => true
  | .gte, some .gt => true
  | .gte, some .eq => true
  | _, _ => false

end Winnow
