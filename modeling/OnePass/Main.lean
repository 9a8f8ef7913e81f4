import OnePass.CommandLine.Report

/-!
The command line.
-/

namespace OnePass.CommandLine

/-- Reads a file as UTF-8 text. -/
def readFileText (path : String) : IO (Option String) := do
  try
    let bytes ← IO.FS.readBinFile path
    return String.fromUTF8? bytes
  catch _ => return none

end OnePass.CommandLine

def main (args : List String) : IO UInt32 := do
  let report ← OnePass.CommandLine.respond OnePass.CommandLine.readFileText args
  IO.print report.stdout
  IO.eprint report.stderr
  return report.exitCode.toUInt32
