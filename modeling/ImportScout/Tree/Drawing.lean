import ImportScout.Tree.Outline
/-! # Drawing outlines

An outline is drawn with one entry a line. Connectors lead from each folder down to what it shows;
they are box-drawing characters or plain ones.
-/

namespace ImportScout

/-- The characters of a drawing. -/
inductive DrawingStyle where
  | unicode
  | ascii
  deriving DecidableEq, Repr

namespace DrawingStyle

/-- The connector in front of an entry, the last one of its folder or not. -/
def connector : DrawingStyle → (last : Bool) → String
  | .unicode, false => "├── "
  | .unicode, true => "└── "
  | .ascii, false => "|-- "
  | .ascii, true => "`-- "

/-- What stands below that connector, in front of the entries of the folder. -/
def margin : DrawingStyle → (last : Bool) → String
  | _, true => "    "
  | .unicode, false => "│   "
  | .ascii, false => "|   "

end DrawingStyle

namespace Outline

/-- The drawing of the entries of a folder, each line starting with `indent`. -/
def draw (style : DrawingStyle) (indent : String) : List Outline → String
  | [] => ""
  | .file name :: rest | .closed name _ :: rest =>
    indent ++ style.connector rest.isEmpty ++ name.shown ++ "\n" ++ draw style indent rest
  | .collapsed name :: rest =>
    indent ++ style.connector rest.isEmpty ++ name.shown ++ "/...\n" ++ draw style indent rest
  | .folder name inner :: rest =>
    indent ++ style.connector rest.isEmpty ++ name.shown ++ "\n" ++
      draw style (indent ++ style.margin rest.isEmpty) inner ++ draw style indent rest

/-- A path that leads to no folder and cannot be drawn. -/
structure NoFolder where
  path : String
  deriving DecidableEq, Repr

/-- The wording of that fault. -/
def NoFolder.message (f : NoFolder) : String :=
  s!"Failed to read directory: {f.path}"

/-- The drawing of the folder that `path` leads to. It comes to nothing if one of the folders that
it enters cannot be opened. -/
def drawPath (d : Disk) (style : DrawingStyle) (path : Raw) : Except NoFolder String :=
  match ofPath? d path with
  | none => .error ⟨path.shown⟩
  | some outline =>
    match firstClosed? outline with
    | some inner => .error ⟨inner.shown⟩
    | none => .ok (draw style "" outline)

end Outline

end ImportScout
