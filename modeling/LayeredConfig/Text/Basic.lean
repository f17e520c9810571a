/-!
# Texts

A text may come as a scalar of fixed width.  The width shows where the text is
written as a constructor takes it, and nowhere else: it is the same text, and
the same key.
-/

namespace LayeredConfig

structure Text where
  content : String
  fixedWidth : Bool := false
  deriving DecidableEq

namespace Text

instance : Coe String Text := ⟨fun s ↦ ⟨s, false⟩⟩

/-- The text as it is shown: the padding of a fixed width, zero characters at
the end, is left out. -/
def shown (t : Text) : String :=
  if t.fixedWidth then
    String.ofList (t.content.toList.reverse.dropWhile (·.toNat = 0)).reverse
  else t.content

end Text

end LayeredConfig
