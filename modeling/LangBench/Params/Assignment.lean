import LangBench.Params.Basic
import LangBench.Text.Blank

/-!
Assignments to parameters, written `name=value`.

The value is a JSON text, or else the text itself as a string. Blanks around the name and around
the value do not count.
-/

namespace LangBench.Params

/-- Read an assignment, of which the first equals sign ends the name. -/
def parseAssignment (text : String) : Except RunError (String × Json) :=
  let cs := text.toList
  match cs.dropWhile (· != '=') with
  | [] => .error (.invalidParameter text .noAssignment)
  | _ :: value =>
    let name := Text.trimChars (cs.takeWhile (· != '='))
    if name.isEmpty then .error (.invalidParameter text .emptyName)
    else
      let raw := String.ofList (Text.trimChars value)
      .ok (.ofList name, (Json.parse? raw).getD (.str raw))

end LangBench.Params
