/-!
Splitting a text into lines.
-/

namespace LangBench.Text

/-- Split a text into lines. A line ends with a line feed, of which a carriage return right before
it is part; the last line need not end so. -/
def lines : List Char → List (List Char)
  | [] => []
  | '\n' :: r => [] :: lines r
  | '\r' :: '\n' :: r => [] :: lines r
  | c :: r =>
    match lines r with
    | [] => [[c]]
    | line :: rest => (c :: line) :: rest

end LangBench.Text
