import DualOpt.Decimal.Format
import DualOpt.Linear.Rows

/-!
Limits of storage. The items of a list lie in one block, and a length that is asked for rather than
given by an operand may need a block that no address reaches. Such a request is refused.
-/
namespace DualOpt.Storage

/-- The number of bytes in the longest block. -/
def longestBlock : Nat := 9223372036854775807

/-- The bytes by which a list is referred to: its place, its length and its room. -/
def listBytes : Nat := 24

/-- Room for `count` items of the given size. -/
def reserve (count bytes : Nat) : Except Fault Unit :=
  if count * bytes ≤ longestBlock then .ok () else .error .storage

theorem reserve_ok {count bytes : Nat} (h : count * bytes ≤ longestBlock) :
    reserve count bytes = .ok () :=
  if_pos h

variable {F : Type} [BinaryFormat F]

/-- A vector of `n` equal entries. -/
def filled (n : Nat) (x : F) : Except Fault (Vec F) := do
  reserve n (BinaryFormat.bytes F)
  return Vec.fill n x

/-- The product of the transpose of a matrix with `n` columns and `v`. -/
def transposeMulVec [Scalar F] (a : Rows F) (v : Vec F) (n : Nat) : Except Fault (Vec F) := do
  reserve n (BinaryFormat.bytes F)
  return a.transposeMulVec v n

end DualOpt.Storage
