import ImportScout.Path.Root
import ImportScout.Text.Utf8
/-! # Names on a disk

A disk takes any bytes for a name or a path, text or not; only the slash is special. `Raw` is such
a run of bytes. Every text is one, and what is no text can be shown as a text, with replacement
characters in it. Paths of raw names are cut and joined as paths that are texts are.
-/

namespace ImportScout

open Text

/-- A name or a path as a disk keeps it: bytes, which need not be text. -/
structure Raw where
  bytes : Bytes
  deriving DecidableEq, Repr

/-- The names from the top of a disk down to something on it. -/
abbrev Place := List Raw

namespace Raw

/-- Names are in the order of their bytes. -/
instance : LT Raw := ⟨fun a b => a.bytes < b.bytes⟩

instance : DecidableLT Raw := fun a b => inferInstanceAs (Decidable (a.bytes < b.bytes))

/-- A text as a disk keeps it. -/
def ofText (s : String) : Raw := ⟨bytesOf s⟩

instance : Coe String Raw := ⟨ofText⟩

instance : Coe (List String) Place := ⟨List.map ofText⟩

/-- The text that a name or a path is shown as: bytes that are no text become replacement
characters. -/
def shown (r : Raw) : String := String.ofList (decodeLossy r.bytes)

/-- Whether a name or a path is a text, and so is what it is shown as. -/
def IsText (r : Raw) : Prop := ofText r.shown = r

instance : DecidablePred IsText := fun r => inferInstanceAs (Decidable (ofText r.shown = r))

/-! ## Paths -/

/-- The byte of the slash. -/
def slash : UInt8 := 0x2F

/-- The pieces of a path between slashes. -/
def segments (path : Raw) : List Raw :=
  (path.bytes.splitOn slash).map mk

/-- The path with the given segments. -/
def ofSegments (segs : List Raw) : Raw :=
  ⟨[slash].intercalate (segs.map bytes)⟩

/-- The absolute path of a place. -/
def ofPlace (place : Place) : Raw :=
  ⟨slash :: (ofSegments place).bytes⟩

/-- Whether a path starts at the top of the disk. -/
def isAbsolute (path : Raw) : Bool :=
  path.bytes.head? == some slash

/-- Whether a segment names nothing: it is empty or `.`. -/
def isIdle (seg : Raw) : Bool :=
  seg == "" || seg == "."

/-- The segments of a path that name something. -/
def names (path : Raw) : List Raw :=
  path.segments.filter fun seg => !seg.isIdle

/-- The path that `path` names when read from the folder `base`: `path` itself if absolute. -/
def onto (base path : Raw) : Raw :=
  if path.isAbsolute then path
  else
    match base.bytes.reverse with
    | [] | 0x2F :: _ => ⟨base.bytes ++ path.bytes⟩
    | _ => ⟨base.bytes ++ slash :: path.bytes⟩

end Raw

end ImportScout
