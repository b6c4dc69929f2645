import ImportScout.Text.Split
/-! # Import specifiers

A specifier is the text by which a program names what it imports. Without any package manifest,
its spelling decides whether it is worth looking for in the project: a wrong yes costs one
lookup, a wrong no hides a file.
-/

namespace ImportScout.Specifier

open Text

/-- The spellings in front of a slash that build tools map to a folder of the project. -/
def aliases : List String :=
  ["@/", "~/", "$/", "#/"]

/-- What follows the alias that `spec` starts with, if it starts with one. -/
def dropAlias? (spec : String) : Option String :=
  (aliases.findSome? fun mark => dropStart? mark.toList spec.toList).map String.ofList

/-- Whether `spec` starts with an alias. -/
def hasAlias (spec : String) : Bool :=
  aliases.any fun mark => mark.toList.isPrefixOf spec.toList

/-- Whether `spec` looks like a file of the project: it starts with a dot or a slash, or it has
several segments. The lone dot names a package's own folder and no file. -/
def isProjectLocal (spec : String) : Bool :=
  spec != "." &&
    (spec.toList.head? == some '.' || spec.toList.head? == some '/' || hasAlias spec ||
      spec.toList.contains '/' || spec.toList.contains '\\')

end ImportScout.Specifier
