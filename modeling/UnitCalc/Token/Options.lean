import UnitCalc.Json.Reader
import UnitCalc.Token.Piece

namespace UnitCalc.LexOptions

open JsonValue in
def ofJson? (v : JsonValue) : Option LexOptions := do
  let fields ← v.fields? ["quoted_strings", "escapes", "comments"]
  match ← fields.mapM (orElse false bool?) with
  | [quotedStrings, escapes, comments] => some ⟨quotedStrings, escapes, comments⟩
  | _ => none

def read? (text : String) : Option LexOptions :=
  JsonValue.read? text >>= ofJson?

end UnitCalc.LexOptions
