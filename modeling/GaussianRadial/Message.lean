/-!
# Messages
-/

namespace GaussianRadial

/-- The text of an error message, which ends before its first NUL. -/
def messageText (text : String) : String := String.ofList (text.toList.takeWhile (· != '\x00'))

end GaussianRadial
