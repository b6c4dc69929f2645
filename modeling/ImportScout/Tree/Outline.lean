import ImportScout.Tree.Ignore
import ImportScout.Disk.Locate
/-! # Outlines of a project

What the project tree shows of a folder: at every level first the folders and then the files, each
in the order of what their names are shown as. Ignored files are left out, ignored folders are shown
but not entered.

A folder is entered by the name that it is shown as. That is its own name if this is text; otherwise
something else may stand under the name that is shown, or nothing, and then the folder cannot be
opened.
-/

namespace ImportScout

/-- An entry of the project tree. -/
inductive Outline where
  /-- A file, or anything else that is no folder. -/
  | file (name : Raw)
  /-- A folder that is not entered. -/
  | collapsed (name : Raw)
  /-- A folder and what it shows. -/
  | folder (name : Raw) (inner : List Outline)
  /-- A folder that cannot be opened at this path. -/
  | closed (name path : Raw)
  deriving Repr

namespace Outline

/-- The name of an entry. -/
def name : Outline → Raw
  | .file name | .collapsed name | .folder name _ | .closed name _ => name

/-- Whether an entry is a folder, entered or not. -/
def isFolder : Outline → Bool
  | .file _ => false
  | _ => true

/-- In the order of what the names are shown as. -/
def byName (os : List Outline) : List Outline :=
  os.mergeSort fun o other => decide (o.name.shown ≤ other.name.shown)

/-- Folders first, then files. -/
def arrange (os : List Outline) : List Outline :=
  byName (os.filter isFolder) ++ byName (os.filter fun o => !o.isFolder)

/-- The rules that hold in every project: folders of dependencies, build products and version
control are heavy. -/
def heavyFolders : List String :=
  ["node_modules/", "dist/", ".git/", "build/", "out/", "coverage/"]

/-- The rules of a project: the heavy folders, then the lines of the ignore file at its root. -/
def rulesFor (ignoreFile : Option ByteArray) : List Ignore.Rule :=
  (heavyFolders.map String.toList).filterMap Ignore.Rule.ofLine? ++
    (match ignoreFile with
      | none => []
      | some content => Ignore.rulesOf content)

/-! ## Entering folders -/

/-- A tree that is drawn: the disk, the path of the root, and the rules of what is ignored. -/
structure Scene where
  disk : Disk
  root : Raw
  rules : List Ignore.Rule

namespace Scene

variable (s : Scene)

/-- Whether an entry is ignored. A drawing has come to it by the names `way` as they are shown. -/
def ignores (way : List String) (name : Raw) (isFolder : Bool) : Bool :=
  Ignore.ignores s.rules (Raw.ofSegments (way.map Raw.ofText ++ [name])) isFolder

/-- The path at which a folder is opened that a drawing has come to by the names `way`. -/
def pathOf (way : List String) : Raw :=
  s.root.onto (Path.ofSegments way)

/-- What stands behind a folder of the entries `es` when it is opened by the name it is shown as,
and how many links may still be followed. A link takes at least one, and the path that is opened
never passes through more than `linkLimit` of them. -/
def opened? (links : Nat) (way : List String) (es : List (Raw × Node)) (name : Raw)
    (inner : List (Raw × Node)) : Option (Nat × List (Raw × Node)) :=
  if name.IsText then some (links, inner)
  else
    match es.lookup (Raw.ofText name.shown), links with
    | some (.folder held), _ => some (links, held)
    | some (.link _), left + 1 =>
      match s.disk.node? (s.pathOf (way ++ [name.shown])) with
      | some (.folder held) => some (left, held)
      | _ => none
    | _, _ => none

theorem sizeOf_lt_of_mem {es inner : List (Raw × Node)} {name : Raw}
    (h : (name, Node.folder inner) ∈ es) : sizeOf inner < sizeOf es := by
  have hlt := List.sizeOf_lt_of_mem h
  simp only [Prod.mk.sizeOf_spec, Node.folder.sizeOf_spec] at hlt
  omega

theorem sizeOf_lt_of_lookup {es inner : List (Raw × Node)} {name : Raw}
    (h : es.lookup name = some (.folder inner)) : sizeOf inner < sizeOf es := by
  obtain ⟨before, after, rfl, -⟩ := List.lookup_eq_some_iff.mp h
  exact sizeOf_lt_of_mem (List.mem_append_right before List.mem_cons_self)

theorem opened?_lt {s : Scene} {links left : Nat} {way : List String} {name : Raw}
    {es inner held : List (Raw × Node)} (hmem : (name, Node.folder inner) ∈ es)
    (h : s.opened? links way es name inner = some (left, held)) :
    left < links ∨ (left = links ∧ sizeOf held < sizeOf es) := by
  unfold opened? at h
  by_cases htext : name.IsText
  · rw [if_pos htext] at h
    obtain ⟨rfl, rfl⟩ := Prod.mk.inj (Option.some.inj h)
    exact .inr ⟨rfl, sizeOf_lt_of_mem hmem⟩
  · rw [if_neg htext] at h
    split at h
    · rename_i hlookup
      obtain ⟨rfl, rfl⟩ := Prod.mk.inj (Option.some.inj h)
      exact .inr ⟨rfl, sizeOf_lt_of_lookup hlookup⟩
    · split at h
      · obtain ⟨rfl, rfl⟩ := Prod.mk.inj (Option.some.inj h)
        exact .inl (Nat.lt_succ_self _)
      · exact absurd h (by simp)
    · exact absurd h (by simp)

/-- What is shown of the entries of a folder. -/
def outline (links : Nat) (way : List String) (es : List (Raw × Node)) : List Outline :=
  arrange <| es.flatMap fun e =>
    match _ : e with
    | (name, .folder inner) =>
      if s.ignores way name true then [.collapsed name]
      else
        match _ : s.opened? links way es name inner with
        | none => [.closed name (s.pathOf (way ++ [name.shown]))]
        | some (left, held) => [.folder name (outline left (way ++ [name.shown]) held)]
    | (name, _) => if s.ignores way name false then [] else [.file name]
  termination_by (links, sizeOf es)
  decreasing_by
    have hlt := opened?_lt (‹e = _› ▸ ‹e ∈ es›) ‹s.opened? .. = _›
    simp only [Prod.lex_def]
    omega

end Scene

mutual

/-- The path of the first folder of an entry that cannot be opened. -/
def closed? : Outline → Option Raw
  | .file _ | .collapsed _ => none
  | .folder _ inner => firstClosed? inner
  | .closed _ path => some path

/-- The path of the first folder that cannot be opened, line by line. -/
def firstClosed? : List Outline → Option Raw
  | [] => none
  | o :: os => o.closed?.or (firstClosed? os)

end

/-- The content of the ignore file of the project at `path`, if it has one. -/
def ignoreFile? (d : Disk) (path : Raw) : Option ByteArray :=
  match d.node? (path.onto ".gitignore") with
  | some (.file content) => some content
  | _ => none

/-- The scene of the project at `path`. -/
def sceneAt (d : Disk) (path : Raw) : Scene :=
  ⟨d, path, rulesFor (ignoreFile? d path)⟩

/-- The outline of the folder that `path` leads to, if it leads to one. -/
def ofPath? (d : Disk) (path : Raw) : Option (List Outline) :=
  match d.node? path with
  | some (.folder es) => some ((sceneAt d path).outline Disk.linkLimit [] es)
  | _ => none

end Outline

end ImportScout
