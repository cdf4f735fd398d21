namespace PointerGuard

/-- A line's characters, newest first, without a carriage return at its end. -/
def dropReturn : List Char → List Char
  | '\r' :: line => line
  | line => line

/-- The lines of the text that follows an unfinished line, whose characters come newest first. -/
def linesFrom (line : List Char) : List Char → List (List Char)
  | [] => if line.isEmpty then [] else [line.reverse]
  | c :: text =>
    if c = '\n' then (dropReturn line).reverse :: linesFrom [] text
    else linesFrom (c :: line) text

def textLines (text : String) : List String :=
  (linesFrom [] text.toList).map String.ofList

end PointerGuard
