import LaneDot.Single.Basic

/-!
# Exact results before rounding

The product of two singles, and the sum of such products, is a whole number of
units of `2 ^ -298`.  `Exact` keeps that number with its sign, so a fused
multiply-add is an exact product, an exact sum and one rounding.  The sign is
kept apart from the number because an exact zero has one too.
-/

namespace LaneDot

/-- A result before rounding: a signed number of units of `2 ^ -298`, or a special value. -/
inductive Exact where
  | nan
  | inf (negative : Bool)
  | finite (negative : Bool) (units : Nat)
  deriving DecidableEq

namespace Exact

def ofSingle : Single → Exact
  | .nan => .nan
  | .inf negative => .inf negative
  | .finite negative magnitude => .finite negative (magnitude.units <<< 149)

/-- The product of two singles; an infinity times a zero has no value. -/
def product : Single → Single → Exact
  | .nan, _ => .nan
  | _, .nan => .nan
  | .inf s, .inf t => .inf (s ^^ t)
  | .inf s, .finite t magnitude =>
      if magnitude.val = 0 then .nan else .inf (s ^^ t)
  | .finite s magnitude, .inf t =>
      if magnitude.val = 0 then .nan else .inf (s ^^ t)
  | .finite s first, .finite t second => .finite (s ^^ t) (first.units * second.units)

/-- The sum of two signed numbers: opposite equals cancel to positive zero. -/
def addFinite (s : Bool) (first : Nat) (t : Bool) (second : Nat) : Exact :=
  if s = t then .finite s (first + second)
  else if second < first then .finite s (first - second)
  else if first < second then .finite t (second - first)
  else .finite false 0

def add : Exact → Exact → Exact
  | .nan, _ => .nan
  | _, .nan => .nan
  | .inf s, .inf t => if s = t then .inf s else .nan
  | .inf s, .finite _ _ => .inf s
  | .finite _ _, .inf t => .inf t
  | .finite s first, .finite t second => addFinite s first t second

def units? : Exact → Option Int
  | .finite negative units => some (signed negative units)
  | _ => none

theorem units?_addFinite (s : Bool) (first : Nat) (t : Bool) (second : Nat) :
    (addFinite s first t second).units? = some (signed s first + signed t second) := by
  unfold addFinite
  cases s <;> cases t <;> simp only [reduceCtorEq, if_true, if_false] <;>
    repeat' split
  all_goals
    simp only [units?, signed, Option.some.injEq]
    omega

end Exact

end LaneDot
