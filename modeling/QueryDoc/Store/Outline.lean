import QueryDoc.Store
import QueryDoc.Text.Quoted

/-!
What an object shows of itself: the names of its fields. Their values are left out, since they may
lead back to the object.
-/

namespace QueryDoc.Store

def quotedNames (s : Store) (o : ObjectId) : List String :=
  (Entry.names (s.fields o)).map Quoted.encode

def outline (s : Store) (o : ObjectId) : String :=
  "InputObject \x7b fields: [" ++ ", ".intercalate (s.quotedNames o) ++ "] \x7d"

/-- The outline with each name on a line of its own. -/
def tallOutline (s : Store) (o : ObjectId) : String :=
  let names := s.quotedNames o
  let rows := if names = [] then "" else
    "\n" ++ String.join (names.map fun name => "        " ++ name ++ ",\n") ++ "    "
  "InputObject \x7b\n    fields: [" ++ rows ++ "],\n\x7d"

end QueryDoc.Store
