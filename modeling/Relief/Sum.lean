import Relief.Scalar

/-!
Sums that keep the error of rounding small: short lists are added in eight lanes, long ones in halves.
-/
namespace Relief

variable {α : Type} [Scalar α]

/-- How many running sums a block has. -/
def laneCount : Nat := 8

/-- The longest list that is added without halving it. -/
def blockLength : Nat := 128

/-- Adds row after row to the lanes, and returns the rest that fills no row. -/
def addRows (lanes vs : List α) : List α × List α :=
  if vs.length < laneCount then (lanes, vs)
  else addRows (List.zipWith (· + ·) lanes (vs.take laneCount)) (vs.drop laneCount)
termination_by vs.length
decreasing_by simp only [laneCount, List.length_drop] at *; omega

def addNeighbours : List α → List α
  | a :: b :: vs => (a + b) :: addNeighbours vs
  | vs => vs

def blockSum (vs : List α) : α :=
  if vs.length < laneCount then vs.foldl (· + ·) Scalar.zero
  else
    let (lanes, rest) := addRows (vs.take laneCount) (vs.drop laneCount)
    let total := (addNeighbours (addNeighbours (addNeighbours lanes))).headD Scalar.zero
    rest.foldl (· + ·) total

/-- Where a list is halved: after a whole number of rows. -/
def halfway (n : Nat) : Nat :=
  n / 2 - n / 2 % laneCount

def pairwiseSum (vs : List α) : α :=
  if vs.length ≤ blockLength then blockSum vs
  else pairwiseSum (vs.take (halfway vs.length)) + pairwiseSum (vs.drop (halfway vs.length))
termination_by vs.length
decreasing_by
  all_goals simp only [blockLength, halfway, laneCount, List.length_take, List.length_drop] at *
  all_goals omega

end Relief
