import QueryDoc.Request
import QueryDoc.Request.Payload

/-!
Updates of the variables of a request, one after the other. An update whose value cannot be
serialized leaves no request behind.
-/

namespace QueryDoc

inductive Update where
  /-- These variables and no others. -/
  | all (bindings : Bindings)
  /-- One variable, and the others as they are. -/
  | one (name : String) (value : Payload)

namespace Request

def update (r : Request) : Update → Except Error Request
  | .all bindings => .ok (r.withBindings bindings)
  | .one name value => value.toJson.map (r.withBinding name)

def updateAll (r : Request) (us : List Update) : Except Error Request := us.foldlM update r

end Request

end QueryDoc
