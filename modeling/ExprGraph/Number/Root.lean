/-!
  Whole roots of whole numbers.

  `wholeRoot degree n` is the greatest whole number whose power of the given degree is at most `n`.  It is
  found bit by bit from the highest.
-/

namespace ExprGraph.Number

/-- The whole part of a root, bit by bit from the highest. -/
def wholeRoot (degree n : Nat) : Nat :=
  if n.log2 < degree then min n 1
  else (List.range (n.log2 / degree + 1)).foldr (fun i r =>
    let next := r + Nat.pow 2 i
    if Nat.pow next degree ≤ n then next else r) 0

/-- The root, when it is whole. -/
def exactRoot? (degree n : Nat) : Option Nat :=
  let r := wholeRoot degree n
  if Nat.pow r degree = n then some r else none

example : wholeRoot 2 99 = 9 := by decide +kernel
example : exactRoot? 3 27 = some 3 := by decide +kernel
example : exactRoot? 2 8 = none := by decide +kernel

end ExprGraph.Number
