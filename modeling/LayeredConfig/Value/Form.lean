import LayeredConfig.Value.Text

/-!
# Constructor form

A value written as the constructor and its arguments, for diagnosis.
-/

namespace LayeredConfig

def Reference.form (r : Reference) : String :=
  "Substitution(path=" ++ Text.quoted r.path ++ ", optional=" ++
    (if r.optional then "True" else "False") ++ ")"

namespace Value

mutual

def form : Value → String
  | .null => "Null()"
  | .boolean b => "Boolean(value=" ++ (if b then "True" else "False") ++ ")"
  | .string s => "String(value=" ++ s.form ++ ")"
  | .int n => "Int(value=" ++ Numeral.ofInt n ++ ")"
  | .single x => "Float32(value=" ++ Layout.plain.render (x.convert .double) ++ ")"
  | .double x => "Float64(value=" ++ Layout.plain.render x ++ ")"
  | .duration n => "Duration(nanoseconds=" ++ Numeral.ofInt n ++ ")"
  | .object members => "Object(\x7b" ++ ", ".intercalate (memberForms members) ++ "\x7d)"
  | .array elements => "Array([" ++ ", ".intercalate (elementForms elements) ++ "])"
  | .substitution r => r.form
  | .concatenation fragments =>
    "Concatenation([" ++ ", ".intercalate (elementForms fragments) ++ "])"
  | .alternative v r => "ValueWithAlternative(value=" ++ v.form ++ ", alternative=" ++ r.form ++ ")"

def elementForms : List Value → List String
  | [] => []
  | v :: rest => v.form :: elementForms rest

def memberForms : List (Text × Value) → List String
  | [] => []
  | (k, v) :: rest => (k.form ++ ": " ++ v.form) :: memberForms rest

end

mutual

/-- No integer is too long to be written in the constructor form. -/
def formFits : Value → Bool
  | .int n => !Numeral.isOverlong n
  | .duration n => !Numeral.isOverlong n
  | .object members => memberFormsFit members
  | .array elements => elementFormsFit elements
  | .concatenation fragments => elementFormsFit fragments
  | .alternative v _ => v.formFits
  | _ => true

def elementFormsFit : List Value → Bool
  | [] => true
  | v :: rest => v.formFits && elementFormsFit rest

def memberFormsFit : List (Text × Value) → Bool
  | [] => true
  | (_, v) :: rest => v.formFits && memberFormsFit rest

end

/-- The constructor form, unless an integer in it is too long. -/
def renderForm (v : Value) : Except Overlong String :=
  if v.formFits then .ok v.form else .error ⟨⟩

end Value

end LayeredConfig
