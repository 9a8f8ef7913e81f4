import OnePass.CommandLine.Options
import OnePass.Compile

/-!
What the command line answers.
-/

namespace OnePass.CommandLine

/-- The exit code of a run and what it writes. -/
structure Report where
  exitCode : Nat
  stdout : String
  stderr : String
  deriving DecidableEq, Repr

def usageLine : String := "Usage: driver [OPTIONS] [SOURCE]\n"

def helpText : String :=
  "Compiles a program into stack machine instructions.\n\n" ++ usageLine ++ "\n" ++
  "Arguments:\n" ++
  "  [SOURCE]  Path to file with source code (defaults to the bundled example)\n\n" ++
  "Options:\n" ++
  "  -v, --verbose...  Increase log verbosity\n" ++
  "  -q, --quiet       Silence all log output\n" ++
  "  -h, --help        Print help\n" ++
  "  -V, --version     Print version\n"

def versionText : String := "driver 0.1.0\n"

/-- The program that is compiled when no file is given. -/
def sample : String :=
  "\n" ++
  "program exemplo1;\n" ++
  "var fat, num, cont: integer;\n" ++
  "begin\n" ++
  "    read(num);\n" ++
  "    fat := 1;\n" ++
  "    cont := 2;\n" ++
  "    while cont <= num do\n" ++
  "    begin\n" ++
  "        fat := fat * num;\n" ++
  "        cont := cont + 1\n" ++
  "    end;\n" ++
  "    write(fat)\n" ++
  "end.\n"

def Dismissal.report : Dismissal → Report
  | help => ⟨0, helpText, ""⟩
  | version => ⟨0, versionText, ""⟩
  | usage => ⟨2, "", usageLine⟩

namespace Options

/-- The verbosity of the log: each flag adds one to that of warnings. -/
def logVerbosity (o : Options) : Nat := o.verbosity + 1

/-- Events of the level are written. -/
def shows (o : Options) (level : Level) : Bool := !o.quiet && level.rank ≤ o.logVerbosity

def logLine (o : Options) (level : Level) (text : String) : String :=
  if o.shows level then s!"{level.name} {text}\n" else ""

/-- The first line of the log, which tells what is compiled. -/
def logSource (o : Options) : String :=
  o.logLine .debug ("compiling " ++ o.path.getD "bundled example")

def log (o : Options) (events : List Event) : String :=
  o.logSource ++ String.join (events.map fun e => o.logLine e.level e.text)

/-- The answer for a program text. -/
def compileReport (o : Options) (source : String) : Report :=
  let outcome := compileInto #[] source
  match outcome.result with
  | .ok _ => ⟨0, Instruction.listing outcome.code.toList, o.log outcome.events⟩
  | .error fault => ⟨1, s!"Error: {fault.diagnostic.message}\n", o.log outcome.events⟩

/-- The answer for a file that cannot be read as text, whatever the reason. -/
def unreadableReport (o : Options) : Report :=
  ⟨1, "", o.logSource ++ "Error: source file does not exist\n"⟩

end Options

/-- Answers arguments, given a way to read a file as text. -/
def respond {m : Type → Type} [Monad m] (readText : String → m (Option String))
    (args : List String) : m Report :=
  match Options.ofArguments args with
  | .error dismissal => return dismissal.report
  | .ok o =>
    match o.path with
    | none => return o.compileReport sample
    | some path => do
      match ← readText path with
      | some source => return o.compileReport source
      | none => return o.unreadableReport

end OnePass.CommandLine
