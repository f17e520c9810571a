/-!
# Dotted paths

A path is written as keys with points between them.  Its text has one key
more than points, so the text and the list of keys determine each other when
no key holds a point.
-/

namespace LayeredConfig

/-- The keys to follow from the root, outermost first. -/
abbrev Path := List String

namespace Path

/-- The keys of a path expression; the empty text has one empty key. -/
def ofText (text : String) : Path :=
  (text.toList.splitOn '.').map String.ofList

def text (path : Path) : String := ".".intercalate path

def join (pre key : String) : String := pre ++ "." ++ key

/-- A key that a path expression can name. -/
def isPlainKey (key : String) : Bool := !key.isEmpty && !key.toList.contains '.'

end Path

end LayeredConfig
