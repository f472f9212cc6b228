import Mathlib.Algebra.Group.Int.Defs
import Mathlib.Algebra.Group.Nat.Defs
import Mathlib.Data.Rat.Defs

/-! # Binary64 numbers as bit patterns

A double is its 64 bits. Finite ones have an exact rational value, computed
from sign, exponent and fraction; infinities and NaNs have none.
-/

set_option autoImplicit false

structure Binary64 where
  bits : UInt64
  deriving DecidableEq, Repr

namespace Binary64

def negative (d : Binary64) : Bool := decide (2 ^ 63 ≤ d.bits.toNat)

def exponent (d : Binary64) : Nat := d.bits.toNat / 2 ^ 52 % 2 ^ 11

def fraction (d : Binary64) : Nat := d.bits.toNat % 2 ^ 52

def finite (d : Binary64) : Bool := d.exponent != 2047

/-- The magnitude of a finite double is `significand * 2 ^ (scale - 1075)`. -/
def significand (d : Binary64) : Nat := if d.exponent = 0 then d.fraction else 2 ^ 52 + d.fraction

def scale (d : Binary64) : Nat := max d.exponent 1

def toRat (d : Binary64) : Option Rat :=
  if d.finite then
    let magnitude := mkRat (d.significand * 2 ^ (d.scale - 1075)) (2 ^ (1075 - d.scale))
    some (if d.negative then -magnitude else magnitude)
  else none

end Binary64
