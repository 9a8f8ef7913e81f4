/-!
Files in memory, to answer a command line without a file system.
-/

namespace OnePass.CommandLine

structure Directory where
  files : List (String × ByteArray)

namespace Directory

/-- The steps of a path, without those that stay where they are. -/
def steps (path : String) : List String :=
  (path.splitOn "/").filter fun step => step ≠ "" && step ≠ "."

/-- The path can lead to a file: it starts in the directory and does not end in a step that only
a directory has. -/
def namesFile (path : String) : Bool :=
  !path.startsWith "/" && !path.endsWith "/" && !path.endsWith "/." && !(steps path).isEmpty

/-- The text of a file; none if there is no such file, or its bytes are not UTF-8. -/
def readText (dir : Directory) (path : String) : Option String :=
  if namesFile path then do
    let file ← dir.files.find? fun f => steps f.1 == steps path
    String.fromUTF8? file.2
  else none

end Directory

end OnePass.CommandLine
