import BraceLisp.Text.Utf8

/-!
# Files as programs see them

All that a program can find out about a path: that nothing can be read there, and why, or what the file
holds and when it was last changed.
-/

namespace BraceLisp

inductive FileView where
  | missing
  | notDirectory
  | badPath
  | tooLong
  | directory
  | file (content : Bytes) (modified : Int)
  deriving DecidableEq, Repr

abbrev Files := Bytes → FileView

namespace FileView

def contents (path : Bytes) : FileView → Except Bytes (Bytes × Int)
  | .missing =>
      .error (Bytes.of "can't open file: stat " ++ path ++ Bytes.of ": no such file or directory")
  | .notDirectory =>
      .error (Bytes.of "can't open file: stat " ++ path ++ Bytes.of ": not a directory")
  | .badPath =>
      .error (Bytes.of "can't open file: stat " ++ path ++ Bytes.of ": invalid argument")
  | .tooLong =>
      .error (Bytes.of "can't open file: stat " ++ path ++ Bytes.of ": file name too long")
  | .directory =>
      .error (Bytes.of "can't read file: read " ++ path ++ Bytes.of ": is a directory")
  | .file content modified => .ok (content, modified)

end FileView

end BraceLisp
