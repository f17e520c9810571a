import LayeredConfig.Plain.Basic

/-!
# JSON text of plain data

Tuples read as lists and keys as texts.  Keys of different types may have one
text; both are written.
-/

namespace LayeredConfig.Plain

inductive JsonFault where
  | unsupported (typeName : String)
  | badKey (typeName : String)
  | overlong
  deriving DecidableEq

def JsonFault.message : JsonFault → String
  | .unsupported name => "Object of type " ++ name ++ " is not JSON serializable"
  | .badKey name => "keys must be str, int, float, bool or None, not " ++ name
  | .overlong => Value.Overlong.message ⟨⟩

/-- Name of the type of a key, with the module that the type belongs to. -/
def keyTypeName : Plain → String
  | .sized x => "numpy." ++ x.typeName
  | .span _ => "datetime.timedelta"
  | .date .. => "datetime.date"
  | key => key.typeName

def jsonKey : Plain → Except JsonFault String
  | .string s => .ok s.content
  | .int n => if Numeral.isOverlong n then .error .overlong else .ok (Numeral.ofInt n)
  | .double x | .sized (.float .double x) => .ok (Layout.json.render x)
  | .boolean b => .ok (if b then "true" else "false")
  | .null => .ok "null"
  | key => .error (.badKey key.keyTypeName)

mutual

def toJson : Plain → Except JsonFault Json
  | .null => .ok .null
  | .boolean b => .ok (.boolean b)
  | .int n => if Numeral.isOverlong n then .error .overlong else .ok (.int n)
  | .double x | .sized (.float .double x) => .ok (.double x)
  | .string s => .ok (.string s.content)
  | .list items | .tuple items => do return .array (← itemsToJson items)
  | .dict entries => do return .object (← entriesToJson entries)
  | data => .error (.unsupported data.typeName)

def itemsToJson : List Plain → Except JsonFault (List Json)
  | [] => .ok []
  | item :: rest => do
    let j ← item.toJson
    return j :: (← itemsToJson rest)

def entriesToJson : List (Plain × Plain) → Except JsonFault (List (String × Json))
  | [] => .ok []
  | (key, item) :: rest => do
    let k ← jsonKey key
    let j ← item.toJson
    return (k, j) :: (← entriesToJson rest)

end

def jsonText (data : Plain) : Except JsonFault String := data.toJson.map Json.text

end LayeredConfig.Plain
