namespace PointerGuard

/-- Fields in order between braces after the record's name. -/
def recordText (name : String) (fields : List (String × String)) (complete : Bool := true) :
    String :=
  let body := (fields.map fun f => f.1 ++ ": " ++ f.2) ++ if complete then [] else [".."]
  name ++ " \x7b " ++ ", ".intercalate body ++ " \x7d"

/-- An optional value, `None` or `Some(…)`. -/
def optionText : Option String → String
  | none => "None"
  | some text => "Some(" ++ text ++ ")"

def listText (items : List String) : String :=
  "[" ++ ", ".intercalate items ++ "]"

/-- A text between double quotes; names of modes hold nothing that needs escaping. -/
def quotedText (text : String) : String :=
  "\"" ++ text ++ "\""

end PointerGuard
