/-!
# Messages

Messages about files and documents are written as terminated text: they end before the first NUL character.
-/

namespace ProbePoints

/-- The part of a text before its first NUL character. -/
def beforeNul (text : String) : String := String.ofList (text.toList.takeWhile (· != '\x00'))

end ProbePoints
