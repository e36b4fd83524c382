/-!
# Row-major coordinates

The places of a grid are numbered with the last axis running fastest.
`coordinates` gives the place with a number and `linearIndex` the number of a place.
-/

namespace TensorProgram

/-- The coordinates for a number, last axis first, when the sizes are given last
axis first. -/
def peel : (sizes : List Nat) → (index : Nat) → List Nat
  | [], _ => []
  | size :: sizes, index => index % size :: peel sizes (index / size)

/-- The place with a number. -/
def coordinates (sizes : List Nat) (index : Nat) : List Nat :=
  (peel sizes.reverse index).reverse

/-- The number of a place.  Each coordinate comes with the size of its axis. -/
def linearIndex (place : List (Nat × Nat)) : Nat :=
  place.foldl (fun index (coordinate, size) => index * size + coordinate) 0

end TensorProgram
