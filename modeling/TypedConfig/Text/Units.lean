/-! # Measures of a text -/

namespace TypedConfig.Text

/-- How many sixteen-bit units a character takes in UTF-16. -/
def unitSize (c : Char) : Nat := if c.toNat < 0x10000 then 1 else 2

/-- The length of a text in sixteen-bit units. -/
def units (s : String) : Nat := (s.toList.map unitSize).foldr (· + ·) 0

/-- The length in bytes of characters written in UTF-8. -/
def byteSize (cs : List Char) : Nat := (cs.map Char.utf8Size).foldr (· + ·) 0

end TypedConfig.Text
