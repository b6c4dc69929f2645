import ImportScout.Glob.Parser
import ImportScout.Disk.Basic
import ImportScout.Text.Blank
/-! # Ignore rules

An ignore file holds a glob a line. A rule describes entries at any depth unless it has a slash in
front or inside; a slash at its end makes it about folders only, an exclamation mark in front makes
it keep what earlier rules ignore. The last rule that describes an entry decides.
-/

namespace ImportScout.Ignore

open Text

/-- A line of an ignore file. -/
structure Rule where
  glob : Glob
  /-- Whether the entries are kept and not ignored. -/
  keeps : Bool
  /-- Whether only folders are meant. -/
  foldersOnly : Bool

/-- The style of ignore files: stars stop at slashes, and a bracket that nothing closes stands for
itself. -/
def style : Glob.Style :=
  { separator := .stops, looseBrackets := true }

/-- A line without the blanks at its end, unless a backslash keeps the last of them. -/
def trimLine (line : List Char) : List Char :=
  match line.reverse with
  | ' ' :: '\\' :: _ => line
  | _ => trimRight line

/-- Whether a line starts with an exclamation mark and is to keep entries, whether it starts with
a slash, and the rest of it. A backslash takes its meaning from a mark at the start. -/
def marks : List Char → Bool × Bool × List Char
  | '\\' :: '!' :: rest => (false, false, '!' :: rest)
  | '\\' :: '#' :: rest => (false, false, '#' :: rest)
  | '!' :: '/' :: rest => (true, true, rest)
  | '!' :: rest => (true, false, rest)
  | '/' :: rest => (false, true, rest)
  | line => (false, false, line)

/-- Whether a line ends with a slash, and the line without it and without a backslash that escapes
it. -/
def folderMark (line : List Char) : Bool × List Char :=
  match line.reverse with
  | '/' :: '\\' :: before => (true, before.reverse)
  | '/' :: before => (true, before.reverse)
  | _ => (false, line)

/-- The glob of a line: one without a slash describes entries at any depth, and one that ends in
a double star describes what is in a folder but not the folder. -/
def globText (anchored : Bool) (line : List Char) : List Char :=
  let text :=
    if anchored || line.contains '/' || line = ['*', '*'] then line
    else '*' :: '*' :: '/' :: line
  match text.reverse with
  | '*' :: '*' :: '/' :: _ => text ++ ['/', '*']
  | _ => text

/-- The rule of a line. Empty lines, comments and lines that are no glob have none. -/
def Rule.ofLine? (line : List Char) : Option Rule :=
  if line.head? == some '#' then none
  else
    let line := trimLine line
    if line.isEmpty then none
    else
      let (keeps, anchored, line) := marks line
      let (foldersOnly, line) := folderMark line
      match Glob.parse style (String.ofList (globText anchored line)) with
      | .error _ => none
      | .ok glob => some ⟨glob, keeps, foldersOnly⟩

/-! ## Ignore files -/

/-- The lines of a file, without the carriage returns that may end them. -/
def byteLines (content : Bytes) : List Bytes :=
  match (content.splitOn 0x0A).reverse with
  | [] => []
  | last :: before =>
    let chomp (line : Bytes) :=
      match line.reverse with
      | 0x0D :: front => front.reverse
      | _ => line
    before.reverse.map chomp ++ (if last.isEmpty then [] else [last])

/-- The lines of a file up to the first that is no text. -/
def textLines (content : ByteArray) : List (List Char) :=
  ((byteLines content.toList).map fun line => decode? ⟨line.toArray⟩).takeWhile Option.isSome
    |>.filterMap fun line => line.map String.toList

/-- `lines` without the byte order marks at the start of the first. -/
def dropMark : List (List Char) → List (List Char)
  | [] => []
  | line :: lines => line.dropWhile (· = '\uFEFF') :: lines

/-- The rules of an ignore file. -/
def rulesOf (content : ByteArray) : List Rule :=
  (dropMark (textLines content)).filterMap Rule.ofLine?

/-- Whether a rule describes an entry. -/
def Rule.describes (r : Rule) (path : Raw) (isFolder : Bool) : Bool :=
  (isFolder || !r.foldersOnly) && r.glob.acceptsBytes path.bytes

/-- Whether the entry at `path` below the root is ignored: the last rule that describes it ignores
it. -/
def ignores (rules : List Rule) (path : Raw) (isFolder : Bool) : Bool :=
  match rules.reverse.find? fun r => r.describes path isFolder with
  | some r => !r.keeps
  | none => false

end ImportScout.Ignore
