/-!
Reading the arguments of the command line.
-/

namespace OnePass.CommandLine

inductive Flag
  | verbose | quiet | help | version
  deriving DecidableEq, Repr

def Flag.ofLetter? : Char → Option Flag
  | 'v' => some verbose
  | 'q' => some quiet
  | 'h' => some help
  | 'V' => some version
  | _ => none

/-- Long names are written out in full. -/
def Flag.ofName? : String → Option Flag
  | "verbose" => some verbose
  | "quiet" => some quiet
  | "help" => some help
  | "version" => some version
  | _ => none

/-- Why nothing is compiled. -/
inductive Dismissal
  | help | version | usage
  deriving DecidableEq, Repr

structure Options where
  /-- The file to compile; without one, the sample program is compiled. -/
  path : Option String
  verbosity : Nat
  quiet : Bool
  deriving DecidableEq, Repr

namespace Options

def init : Options := ⟨none, 0, false⟩

/-- The verbosity is counted in a byte and stays at its largest value. -/
def setFlag (o : Options) : Flag → Except Dismissal Options
  | .verbose => .ok { o with verbosity := min 255 (o.verbosity + 1) }
  | .quiet => if o.quiet then .error .usage else .ok { o with quiet := true }
  | .help => .error .help
  | .version => .error .version

/-- Sets a flag that may not exist. -/
def setFlag? (o : Options) (f : Option Flag) : Except Dismissal Options :=
  match f with
  | some f => o.setFlag f
  | none => .error .usage

/-- There is at most one path, and it is not empty. -/
def setPath (o : Options) (path : String) : Except Dismissal Options :=
  if path.isEmpty || o.path.isSome then .error .usage else .ok { o with path := some path }

/-- Takes in one argument: a flag by its name, flags by their letters, or a path. A dash alone is
a path. -/
def addArgument (o : Options) (arg : String) : Except Dismissal Options :=
  match arg.toList with
  | '-' :: '-' :: name => o.setFlag? (Flag.ofName? (String.ofList name))
  | '-' :: letter :: letters =>
    (letter :: letters).foldlM (fun o c => o.setFlag? (Flag.ofLetter? c)) o
  | _ => o.setPath arg

/-- Takes in arguments from left to right, up to the first that settles the matter. After two
dashes there are only paths. -/
def addArguments (o : Options) : List String → Except Dismissal Options
  | [] => .ok o
  | arg :: args =>
    if arg = "--" then args.foldlM setPath o
    else do (← o.addArgument arg).addArguments args

def ofArguments (args : List String) : Except Dismissal Options := init.addArguments args

end Options

end OnePass.CommandLine
