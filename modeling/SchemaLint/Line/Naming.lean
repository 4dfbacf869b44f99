import SchemaLint.Text.Scan

/-! Naming conventions. They are conventions on ASCII letters and digits; a line feed that ends
the text does not count. -/

namespace SchemaLint.Line
open SchemaLint.Text

/-- Segments between underscores, each nonempty and made of one class; the first character of
all is in another. -/
def isSegmented (first rest : Char → Bool) (name : List Char) : Bool :=
  name.head?.any first && (name.splitOn '_').all fun part => !part.isEmpty && part.all rest

/-- An upper-case letter, then letters and digits. -/
def isPascalCase (name : List Char) : Bool :=
  let name := dropFinalFeed name
  name.head?.any Char.isUpper && name.all Char.isAlphanum

/-- Lower-case words joined by single underscores. -/
def isSnakeCase (name : List Char) : Bool :=
  isSegmented Char.isLower (fun c => c.isLower || c.isDigit) (dropFinalFeed name)

/-- Upper-case words joined by single underscores. -/
def isUpperSnakeCase (name : List Char) : Bool :=
  isSegmented Char.isUpper (fun c => c.isUpper || c.isDigit) (dropFinalFeed name)

end SchemaLint.Line
