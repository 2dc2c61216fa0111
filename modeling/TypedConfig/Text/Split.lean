/-! # Splitting texts

The parts of a text between the copies of a separator, found from left to right. An empty
separator stands between all characters.
-/

namespace TypedConfig.Text

/-- The parts of characters at a separator. `part` holds the current part so far, in reverse,
and `skipped` counts the characters of the separator that are still to be passed. -/
def splitAfter (separator part : List Char) : Nat → List Char → List (List Char)
  | _, [] => [part.reverse]
  | skipped + 1, _ :: cs => splitAfter separator part skipped cs
  | 0, c :: cs =>
    if separator.isPrefixOf (c :: cs) then
      part.reverse :: splitAfter separator [] (separator.length - 1) cs
    else splitAfter separator (c :: part) 0 cs

def split (text separator : String) : List String :=
  if separator.isEmpty then text.toList.map Char.toString
  else (splitAfter separator.toList [] 0 text.toList).map String.ofList

end TypedConfig.Text
