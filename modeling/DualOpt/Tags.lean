/-!
Structural hints about a problem, as a set that lists its members in a fixed order.
-/
namespace DualOpt

inductive Tag where
  | symmetric
  | positiveSemidefinite
  | negativeSemidefinite
  | diagonal
  | lowerTriangular
  | upperTriangular
  | unit
  deriving DecidableEq, Repr

namespace Tag

/-- All tags in the order in which a set lists them. -/
def all : List Tag :=
  [symmetric, positiveSemidefinite, negativeSemidefinite, diagonal, lowerTriangular,
    upperTriangular, unit]

def name : Tag → String
  | symmetric => "Symmetric"
  | positiveSemidefinite => "PositiveSemidefinite"
  | negativeSemidefinite => "NegativeSemidefinite"
  | diagonal => "Diagonal"
  | lowerTriangular => "LowerTriangular"
  | upperTriangular => "UpperTriangular"
  | unit => "Unit"

def ofName? (s : String) : Option Tag := all.find? (·.name == s)

end Tag

/-- A set of tags, given by its membership test. -/
structure Tags where
  contains : Tag → Bool

namespace Tags

def empty : Tags := ⟨fun _ => false⟩

def insert (tags : Tags) (tag : Tag) : Tags := ⟨fun t => t == tag || tags.contains t⟩

def ofList (ts : List Tag) : Tags := ts.foldl insert empty

def toList (tags : Tags) : List Tag := Tag.all.filter tags.contains

def isEmpty (tags : Tags) : Bool := tags.toList.isEmpty

instance : BEq Tags := ⟨fun a b => a.toList == b.toList⟩

/-- The members between braces, as they appear in messages. -/
def describe (tags : Tags) : String :=
  "Tags(\x7b" ++ ", ".intercalate (tags.toList.map Tag.name) ++ "\x7d)"

end Tags
end DualOpt
