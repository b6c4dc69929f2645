import ImportScout.Text.Blank
import ImportScout.Text.Word
import ImportScout.Text.Pattern
/-! # The forms of imports

One pattern for each way of writing an import, over raw text and not over a parsed program. In
each of them the specifier is what is captured. Adding a language adds a pattern here.
-/

namespace ImportScout.Import

open Text Pattern

/-- Blanks, perhaps none. -/
def gap : Pattern := many isBlank

/-- At least one blank. -/
def space : Pattern := some1 isBlank

/-- A quotation mark, single or double. -/
def quote : Pattern := one fun c => c == '\'' || c == '"'

/-- A quoted specifier: what stands between two quotation marks that need not agree. -/
def quoted : Pattern :=
  all [quote, captured (some1 fun c => c != '\'' && c != '"'), quote]

/-- The characters of the names between `import` and `from`. -/
def isClause (c : Char) : Bool :=
  isWord c || isBlank c || c == '*' || c == '\x7b' || c == '\x7d' || c == ','

/-- A module import: `import x from "p"`, `import { a, b } from "p"` or `import "p"`. -/
def moduleImport : Pattern :=
  all [word "import", space,
    maybe (all [some1 isClause, space, word "from", space]), quoted]

/-- A call of a function with one quoted specifier: `require("p")`, `import("p")`. -/
def call (name : String) : Pattern :=
  all [word name, gap, one (· == '('), gap, quoted, gap, one (· == ')')]

/-- The inclusion of a header: `#include "p"` or `#include <p>` at the start of a line. -/
def inclusion : Pattern :=
  all [lineStart, gap, word "#include", gap, one fun c => c == '"' || c == '<',
    captured (some1 fun c => c != '"' && c != '<' && c != '>'), one fun c => c == '"' || c == '>']

/-- A use of a name with backslashes: `use A\B;` at the start of a line. -/
def useName : Pattern :=
  all [lineStart, gap, word "use", space, captured (some1 fun c => isWord c || c == '\\'),
    one (· == ';')]

/-- An import from a dotted module: `from a.b import` at the start of a line. -/
def fromModule : Pattern :=
  all [lineStart, gap, word "from", space, captured (some1 fun c => isWord c || c == '.'), space,
    word "import"]

/-- The import of a dotted module: `import a.b` at the start of a line. -/
def dottedModule : Pattern :=
  all [lineStart, gap, word "import", space, captured (some1 fun c => isWord c || c == '.')]

/-- The recognised forms, in the order in which a text is searched for them. -/
def forms : List Pattern :=
  [moduleImport, call "require", call "import", inclusion, useName, fromModule, dottedModule]

end ImportScout.Import
