import DocTable.Markup.Content
import DocTable.Markup.Printer
import DocTable.Schema.Document

/-!
Schema documents as texts. Main functions: `Document.parse` and `Schema.load` read a document or
one of its tables, and `Document.render` writes the schemas of some tables.
-/

namespace DocTable

/-- Reads a document and checks its outer form. -/
def Document.parse (s : String) : Outcome Value := do
  check (← Markup.read s)

/-- Writes the document of some schemas. -/
def Document.render (schemas : List Schema) : String :=
  (Markup.Node.ofValue (ofSchemas schemas)).render

/-- Reads the schema of the table with a given name. -/
def Schema.load (s : String) (name : Spelling) : Outcome Schema := do
  ofDocument (← Document.table (← Document.parse s) name)

end DocTable
