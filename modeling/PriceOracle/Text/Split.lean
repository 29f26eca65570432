/-!
# Splitting texts

`splitOn` cuts a text at every occurrence of a character, so that there is always at least one
piece; `join` puts pieces together with a character between them.
-/

namespace PriceOracle.Text

/-- The pieces of a text between the occurrences of a character. -/
def splitOn (mark : Char) : List Char → List (List Char)
  | [] => [[]]
  | c :: rest =>
    if c = mark then [] :: splitOn mark rest
    else match splitOn mark rest with
      | piece :: more => (c :: piece) :: more
      | [] => [[c]]

/-- Joins pieces with a character between them. -/
def join (mark : Char) : List (List Char) → List Char
  | [] => []
  | [piece] => piece
  | piece :: rest => piece ++ mark :: join mark rest

theorem splitOn_ne_nil (mark : Char) (cs : List Char) : splitOn mark cs ≠ [] := by
  cases cs with
  | nil => simp [splitOn]
  | cons c rest =>
    unfold splitOn
    split
    · simp
    · split <;> simp

end PriceOracle.Text
