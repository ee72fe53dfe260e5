/-! # Ranges of code points

    A character class that a standard gives by its code points is a list of ranges,
    and belonging to it is lying in one of them. -/

namespace FragmentGrammar

/-- A run of code points, both ends included. -/
structure CodeRange where
  first : Nat
  last : Nat
  deriving DecidableEq

/-- The code point of `c` lies between the two ends. -/
def CodeRange.contains (r : CodeRange) (c : Char) : Bool :=
  r.first ≤ c.toNat && c.toNat ≤ r.last

/-- Some range of the list contains `c`. -/
def inRanges (ranges : List CodeRange) (c : Char) : Bool :=
  ranges.any (·.contains c)

end FragmentGrammar
