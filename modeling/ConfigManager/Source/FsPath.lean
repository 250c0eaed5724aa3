import ConfigManager.Source.ConfigPath

/-!
# Paths (std::filesystem::path)

What the checkpoint component uses of POSIX paths: a path is its sequence of
elements, a trailing separator being an empty last element. Two paths are equal
when their elements are.
-/

set_option autoImplicit false

namespace ConfigManager.Source

structure FsPath where
  absolute : Bool
  elements : List Bytes
  deriving DecidableEq

def slash : UInt8 := 47

namespace FsPath

def isEmpty (path : FsPath) : Bool := !path.absolute && path.elements.isEmpty

def string (path : FsPath) : Bytes :=
  (if path.absolute then [slash] else []) ++ List.intercalate [slash] path.elements

/-- `parent_path()`, which is the path itself for the root. -/
def parentPath (path : FsPath) : FsPath := { path with elements := path.elements.dropLast }

def filename (path : FsPath) : Bytes := path.elements.getLast?.getD []

/-- `operator/` with a single name, which takes the place of a trailing separator. -/
def child (path : FsPath) (name : Bytes) : FsPath :=
  { path with
    elements := (if path.elements.getLast? = some [] then path.elements.dropLast
      else path.elements) ++ [name] }

/-- A filename split before its last dot, unless that is the leading one. -/
def splitExtension (name : Bytes) : Bytes × Bytes :=
  if name = bytes "." ∨ name = bytes ".." then (name, [])
  else match name.reverse.dropWhile (· != dot) with
    | _ :: c :: stem => ((c :: stem).reverse, dot :: (name.reverse.takeWhile (· != dot)).reverse)
    | _ => (name, [])

def stem (path : FsPath) : Bytes := (splitExtension path.filename).1

def extension (path : FsPath) : Bytes := (splitExtension path.filename).2

end FsPath

def parentOrCurrent (path : FsPath) : FsPath :=
  if path.parentPath.isEmpty then ⟨false, [bytes "."]⟩ else path.parentPath

end ConfigManager.Source
