namespace CollisionRules.Text

variable {α : Type}

/-- Cuts a sequence after each element that `ends` accepts. Returns the pieces
    before those elements, and what follows the last of them. -/
def cut (ends : α → Bool) : List α → List (List α) × List α
  | [] => ([], [])
  | a :: rest =>
    match ends a, cut ends rest with
    | true, (pieces, remainder) => ([] :: pieces, remainder)
    | false, ([], remainder) => ([], a :: remainder)
    | false, (piece :: pieces, remainder) => ((a :: piece) :: pieces, remainder)

/-- The sequence without its last element, if that element is `a`. -/
def dropFinal [BEq α] (a : α) (sequence : List α) : List α :=
  if sequence.getLast? == some a then sequence.dropLast else sequence

/-- The physical lines of a text, without their ends. A line ends in a line feed,
    which a carriage return may precede; a last line without a line feed counts when
    it is not empty, and keeps its carriage return. -/
def lines (text : List Char) : List (List Char) :=
  let (whole, remainder) := cut (· == '\n') text
  whole.map (dropFinal '\r') ++ if remainder.isEmpty then [] else [remainder]

end CollisionRules.Text
