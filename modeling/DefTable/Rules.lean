/-!
# Rules for what may be written

What is printed is checked by the language that the generated file is written in. That language is no part of the
library: whatever depends on it takes its rules as a parameter.
-/

namespace DefTable

/-- What a language has to say to a text. A text that is no type or no expression is refused with a reason. -/
structure Rules where
  isIdentifier : String → Bool
  isPath : String → Bool
  typeFault? : String → Option String
  expressionFault? : String → Option String

end DefTable
