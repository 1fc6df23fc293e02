namespace LetPoly.Text

/-- Continues a row of distances behind `left`, from the row above it that starts one place
    earlier. -/
def extendRow (c : Char) (left : Nat) : List Char → List Nat → List Nat
  | d :: ds, corner :: above :: row =>
    let here := min (min (above + 1) (left + 1)) (corner + if c = d then 0 else 1)
    here :: extendRow c here ds (above :: row)
  | _, _ => []

def nextRow (ds : List Char) (row : List Nat) (c : Char) : List Nat :=
  match row with
  | [] => []
  | corner :: _ => (corner + 1) :: extendRow c (corner + 1) ds row

def editDistance (a b : String) : Nat :=
  let ds := b.toList
  let row := a.toList.foldl (nextRow ds) (List.range (ds.length + 1))
  row.getLast?.getD 0

end LetPoly.Text
