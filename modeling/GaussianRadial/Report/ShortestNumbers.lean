import GaussianRadial.Report.Json

/-!
# Shortest numbers

A JSON number with the fewest digits that read back as the same double. It is positional for the
exponents from -4 to 14 and has a fraction unless it has an exponent, so that it is told from a
whole number.
-/

namespace GaussianRadial.Report

open Number

/-- Digits alone get a fraction. -/
def withFraction (text : List Char) : List Char :=
  if text.all Char.isDigit then text ++ ['.', '0'] else text

instance shortestNumbers : JsonNumbers where
  text := signed false fun r => withFraction ((shortest r).layout 15)

end GaussianRadial.Report
