import TextTemplate.Bindings
import TextTemplate.Json.Reader

/-!
# Bindings as JSON

Bindings are written as an object from names to expansions, in the order of the names, and read from any
object of strings, where the last member of a name counts.
-/

namespace TextTemplate.Bindings

/-- Bindings as an object. -/
def toJson (b : Bindings) : Json := .object (b.entries.map fun (n, e) => (n, .string e))

/-- The bindings in the object of strings that a text consists of. -/
def ofJson? (s : Text) : Option Bindings := (Json.stringMembers? s).map ofList

end TextTemplate.Bindings
