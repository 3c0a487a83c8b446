import DeepOj.Go.Bytes

/-!
# Zip archives

What `archive/zip` reads from a file, for the two services that open it.
-/

namespace DeepOj.Go

/-- A `zip.File`. -/
structure ZipEntry where
  name : Bytes
  /-- The attributes of the header say that it is a directory. -/
  dirMode : Bool := false
  uncompressedSize64 : Nat
  /-- The error of `f.Open`. -/
  openErr : Option Bytes := none
  /-- What it decompresses to. -/
  data : Bytes
  /-- The error reading ends with. -/
  readErr : Option Bytes := none
  deriving DecidableEq

/-- `f.FileInfo().IsDir()`. -/
def ZipEntry.isDir (f : ZipEntry) : Bool :=
  f.dirMode || hasSuffix f.name (utf8 "/")

/-- The entries of an archive, or the error of opening it. -/
abbrev Archive := Except Bytes (List ZipEntry)

/-- An entry of the given name and content. -/
def ZipEntry.ofFile (name content : String) : ZipEntry :=
  { name := utf8 name, uncompressedSize64 := (utf8 content).length, data := utf8 content }

end DeepOj.Go
