import Mathlib.Data.List.Basic
import Mathlib.Data.List.Flatten
import OnePass.CommandLine.Report
import OnePass.Proofs.Result

/-!
Calls of the command line that compile something, and what their flags change.

A call has flags, by their names or by their letters, and at most one path, in any order. Flags
decide only how much of the log is written: the exit code and the standard output come from the
source text, and a louder call writes all that a quieter one writes.
-/

namespace OnePass.CommandLine

/-! ### Calls -/

/-- The flags with which something is compiled. -/
inductive Switch
  | verbose | quiet
  deriving DecidableEq

namespace Switch

def flag : Switch → Flag
  | verbose => .verbose
  | quiet => .quiet

def letter : Switch → Char
  | verbose => 'v'
  | quiet => 'q'

def name : Switch → String
  | verbose => "verbose"
  | quiet => "quiet"

end Switch

inductive Argument
  /-- A flag by its name -/
  | long (s : Switch)
  /-- Flags by their letters, in one argument -/
  | short (s : Switch) (more : List Switch)
  /-- A path that does not look like a flag -/
  | path (text : String) (ne_empty : text ≠ "")
      (not_flag : text.toList.head? = some '-' → text = "-")

namespace Argument

def text : Argument → String
  | long s => "--" ++ s.name
  | short s more => String.ofList ('-' :: s.letter :: more.map Switch.letter)
  | path text _ _ => text

def switches : Argument → List Switch
  | long s => [s]
  | short s more => s :: more
  | path .. => []

def paths : Argument → List String
  | path text _ _ => [text]
  | _ => []

end Argument

/-- A call that compiles something. -/
structure Invocation where
  arguments : List Argument
  /-- The paths after two dashes, if these are there. -/
  rest : Option (List String)
  quiet_once : (arguments.flatMap Argument.switches).count .quiet ≤ 1
  path_once : (arguments.flatMap Argument.paths ++ rest.getD []).length ≤ 1
  rest_ne_empty : ∀ p ∈ rest.getD [], p ≠ ""

namespace Invocation

def switches (I : Invocation) : List Switch := I.arguments.flatMap Argument.switches

def paths (I : Invocation) : List String := I.arguments.flatMap Argument.paths ++ I.rest.getD []

def verbosity (I : Invocation) : Nat := I.switches.count .verbose

def quiet (I : Invocation) : Bool := .quiet ∈ I.switches

def path (I : Invocation) : Option String := I.paths.head?

def args (I : Invocation) : List String :=
  I.arguments.map Argument.text ++ I.rest.elim [] ("--" :: ·)

/-- The text that is compiled, if it can be read. The files are given by what is read at each path,
as it is by `Directory.readText`. -/
def source (I : Invocation) (read : String → Option String) : Option String :=
  I.path.elim (some sample) read

def report (I : Invocation) (read : String → Option String) : Report :=
  Id.run (respond read I.args)

end Invocation

/-! ### Reading the arguments -/

/-- The options after some flags and paths. -/
def settings (ss : List Switch) (ps : List String) : Options :=
  ⟨ps.head?, min 255 (ss.count .verbose), .quiet ∈ ss⟩

variable {ss : List Switch} {ps : List String}

lemma setFlag_settings {s : Switch} (h : (ss ++ [s]).count .quiet ≤ 1) :
    (settings ss ps).setFlag s.flag = .ok (settings (ss ++ [s]) ps) := by
  cases s with
  | verbose =>
    -- The count stays at its largest value.
    have hv : ∀ n, min 255 (min 255 n + 1) = min 255 (n + 1) := by omega
    simp [Switch.flag, Options.setFlag, settings, hv]
  | quiet =>
    have hq : .quiet ∉ ss := by
      rw [List.count_append, List.count_singleton_self] at h
      exact List.count_eq_zero.1 (by omega)
    simp [Switch.flag, Options.setFlag, settings, hq]

lemma ofLetter?_letter (s : Switch) : Flag.ofLetter? s.letter = some s.flag := by
  cases s <;> rfl

lemma foldlM_letters (more : List Switch) (h : (ss ++ more).count .quiet ≤ 1) :
    (more.map Switch.letter).foldlM (fun o c => o.setFlag? (Flag.ofLetter? c)) (settings ss ps) =
      .ok (settings (ss ++ more) ps) := by
  induction more generalizing ss with
  | nil => simp [pure_eq_ok]
  | cons s more ih =>
    rw [List.append_cons] at h ⊢
    have hs : (ss ++ [s]).count .quiet ≤ 1 :=
      Nat.le_trans ((List.sublist_append_left _ _).count_le _) h
    rw [List.map_cons, List.foldlM_cons, ofLetter?_letter, Options.setFlag?, setFlag_settings hs,
      ok_bind, ih h]

lemma setPath_settings {p : String} (hp : p ≠ "") (h : (ps ++ [p]).length ≤ 1) :
    (settings ss ps).setPath p = .ok (settings ss (ps ++ [p])) := by
  obtain rfl : ps = [] := by
    rw [List.length_append, List.length_singleton] at h
    exact List.length_eq_zero_iff.1 (by omega)
  simp [Options.setPath, settings, hp]

/-- **One argument** adds its flags or its path. -/
lemma addArgument_settings (a : Argument) (hq : (ss ++ a.switches).count .quiet ≤ 1)
    (hp : (ps ++ a.paths).length ≤ 1) :
    (settings ss ps).addArgument a.text = .ok (settings (ss ++ a.switches) (ps ++ a.paths)) := by
  cases a with
  | long s =>
    have hs : (settings ss ps).addArgument ("--" ++ s.name) = (settings ss ps).setFlag s.flag := by
      cases s <;> rfl
    rw [Argument.text, hs, setFlag_settings hq]
    simp [Argument.switches, Argument.paths]
  | short s more =>
    have hs : (settings ss ps).addArgument (Argument.short s more).text =
        ((s :: more).map Switch.letter).foldlM (fun o c => o.setFlag? (Flag.ofLetter? c))
          (settings ss ps) := by
      rw [Options.addArgument, Argument.text, String.toList_ofList]
      cases s <;> rfl
    rw [hs, foldlM_letters (s :: more) hq]
    simp [Argument.switches, Argument.paths]
  | path text ne_empty not_flag =>
    -- A lone `-` is a path: it takes a second character to make a flag.
    have hd : text.toList.head? = some '-' → text.toList = ['-'] := fun h => by rw [not_flag h]; rfl
    have hs : (settings ss ps).addArgument text = (settings ss ps).setPath text := by
      rw [Options.addArgument]
      split
      case h_1 name h => simp [h] at hd
      case h_2 letter letters _ h => simp [h] at hd
      case h_3 => rfl
    rw [Argument.text, hs, setPath_settings ne_empty hp]
    simp [Argument.switches, Argument.paths]

lemma text_ne_dashes (a : Argument) : a.text ≠ "--" := by
  cases a with
  | long s => cases s <;> decide
  | short s more =>
    intro h
    have hl := congrArg String.toList h
    rw [Argument.text, String.toList_ofList] at hl
    cases s <;> simp [Switch.letter] at hl
  | path text ne_empty not_flag =>
    rintro rfl
    exact absurd (not_flag rfl) (by decide)

/-- **All arguments** add theirs, one after the other. -/
lemma addArguments_settings (as : List Argument) (more : List String)
    (hq : (ss ++ as.flatMap Argument.switches).count .quiet ≤ 1)
    (hp : (ps ++ as.flatMap Argument.paths).length ≤ 1) :
    (settings ss ps).addArguments (as.map Argument.text ++ more) =
      (settings (ss ++ as.flatMap Argument.switches)
        (ps ++ as.flatMap Argument.paths)).addArguments more := by
  induction as generalizing ss ps with
  | nil => simp
  | cons a as ih =>
    simp only [List.flatMap_cons, ← List.append_assoc] at hq hp ⊢
    have hq' : (ss ++ a.switches).count .quiet ≤ 1 :=
      Nat.le_trans ((List.sublist_append_left _ _).count_le _) hq
    have hp' : (ps ++ a.paths).length ≤ 1 :=
      Nat.le_trans (List.sublist_append_left _ _).length_le hp
    rw [List.map_cons, List.cons_append, Options.addArguments, if_neg (text_ne_dashes a),
      addArgument_settings a hq' hp', ok_bind, ih hq hp]

lemma foldlM_setPath (more : List String) (hm : ∀ p ∈ more, p ≠ "")
    (hp : (ps ++ more).length ≤ 1) :
    more.foldlM Options.setPath (settings ss ps) = .ok (settings ss (ps ++ more)) := by
  induction more generalizing ps with
  | nil => simp [pure_eq_ok]
  | cons p more ih =>
    obtain ⟨hp₁, hm⟩ := List.forall_mem_cons.1 hm
    rw [List.append_cons] at hp ⊢
    have hp' : (ps ++ [p]).length ≤ 1 := Nat.le_trans (List.sublist_append_left _ _).length_le hp
    rw [List.foldlM_cons, setPath_settings hp₁ hp', ok_bind, ih hm hp]

def Options.source (o : Options) (read : String → Option String) : Option String :=
  o.path.elim (some sample) read

lemma respond_eq {read : String → Option String} {args : List String} {o : Options}
    {source : String} (ho : Options.ofArguments args = .ok o) (hs : o.source read = some source) :
    Id.run (respond read args) = o.compileReport source := by
  rw [Options.source] at hs
  rw [respond, ho]
  simp only
  cases hp : o.path with
  | none =>
    rw [hp, Option.elim_none, Option.some.injEq] at hs
    rw [hs]
    rfl
  | some path =>
    rw [hp, Option.elim_some] at hs
    simp only [hs]
    rfl

namespace Invocation

variable (I : Invocation)

def options : Options := settings I.switches I.paths

/-- **A call is understood**, with as many flags as it has. -/
theorem ofArguments_args : Options.ofArguments I.args = .ok I.options := by
  have hp : (I.arguments.flatMap Argument.paths).length ≤ 1 :=
    Nat.le_trans (List.sublist_append_left _ _).length_le I.path_once
  have hi : Options.init = settings [] [] := rfl
  rw [Options.ofArguments, args, options, hi, addArguments_settings _ _ I.quiet_once hp]
  cases hr : I.rest with
  | none => simp [paths, switches, hr, Options.addArguments]
  | some more =>
    have hm : ∀ p ∈ more, p ≠ "" := by simpa [hr] using I.rest_ne_empty
    have ho : (I.arguments.flatMap Argument.paths ++ more).length ≤ 1 := by
      simpa only [hr, Option.getD_some] using I.path_once
    have hpaths : I.paths = I.arguments.flatMap Argument.paths ++ more := by rw [paths, hr]; rfl
    rw [hpaths, Option.elim_some, Options.addArguments, if_pos rfl]
    exact foldlM_setPath more hm ho

lemma report_eq {read : String → Option String} {source : String}
    (h : I.source read = some source) : I.report read = I.options.compileReport source :=
  respond_eq I.ofArguments_args h

end Invocation

/-! ### The answer -/

/-- The exit code and the standard output for a text. -/
def verdict (source : String) : Nat × String :=
  match compile source with
  | .ok code => (0, Instruction.listing code)
  | .error fault => (1, "Error: " ++ fault.diagnostic.message ++ "\n")

def logged (e : Event) : String := e.level.name ++ " " ++ e.text ++ "\n"

namespace Invocation

/-- The lines of the log that the flags let through: none, those of the coarse level, or all. -/
def lines (I : Invocation) (events : List Event) : List String :=
  if I.quiet ∨ I.verbosity < 2 then []
  else ("DEBUG compiling " ++ I.path.getD "bundled example" ++ "\n") ::
    (events.filter fun e => 3 ≤ I.verbosity ∨ e.level = .debug).map logged

end Invocation

lemma compileReport_eq (o : Options) (source : String) : o.compileReport source =
    ⟨(verdict source).1, (verdict source).2, o.log (compileInto #[] source).events⟩ := by
  unfold Options.compileReport verdict compile
  generalize compileInto #[] source = outcome
  obtain ⟨result, code, events⟩ := outcome
  cases result <;> rfl

lemma join_map_ite {α : Type} (p : α → Prop) [DecidablePred p] (f : α → String) (xs : List α) :
    String.join (xs.map fun x => if p x then f x else "") =
      String.join ((xs.filter p).map f) := by
  induction xs with
  | nil => rfl
  | cons x xs ih => by_cases hx : p x <;> simp [hx, ih]

lemma shows_options (I : Invocation) (level : Level) :
    I.options.shows level = true ↔
      ¬ (I.quiet ∨ I.verbosity < 2) ∧ (3 ≤ I.verbosity ∨ level = .debug) := by
  have hq : I.options.quiet = I.quiet := rfl
  have hv : I.options.verbosity = min 255 I.verbosity := rfl
  cases level <;> cases hI : I.quiet <;>
    simp [Options.shows, Options.logVerbosity, Level.rank, hq, hv, hI] <;> omega

lemma logSource_options (I : Invocation) : I.options.logSource =
    if I.quiet ∨ I.verbosity < 2 then ""
    else "DEBUG compiling " ++ I.path.getD "bundled example" ++ "\n" := by
  have ht : ∀ t : String, "DEBUG" ++ " " ++ ("compiling " ++ t) ++ "\n" =
      "DEBUG compiling " ++ t ++ "\n" := fun t => by rw [← String.append_assoc]; rfl
  have hs := shows_options I .debug
  rw [Options.logSource, Options.logLine]
  by_cases h : I.quiet ∨ I.verbosity < 2
  · rw [if_pos h, if_neg fun hd => (hs.1 hd).1 h]
  · rw [if_neg h, if_pos (hs.2 ⟨h, .inr rfl⟩)]
    exact ht _

/-- **What is logged** is what the flags let through. -/
lemma log_options (I : Invocation) (events : List Event) :
    I.options.log events = String.join (I.lines events) := by
  have he : (fun e : Event => I.options.logLine e.level e.text) =
      fun e => if I.options.shows e.level then logged e else "" := rfl
  rw [Options.log, he, join_map_ite, logSource_options, Invocation.lines]
  simp only [shows_options]
  by_cases h : I.quiet ∨ I.verbosity < 2
  · have hn : events.filter (fun e => ¬ (I.quiet ∨ I.verbosity < 2) ∧
        (3 ≤ I.verbosity ∨ e.level = .debug)) = [] :=
      List.filter_eq_nil_iff.2 fun e _ hs => (of_decide_eq_true hs).1 h
    rw [if_pos h, if_pos h, hn]
    rfl
  · simp only [h, not_false_eq_true, true_and, if_false, String.join_cons]

lemma Invocation.lines_sublist {I J : Invocation} (hp : J.path = I.path)
    (hv : I.verbosity ≤ J.verbosity) (hq : J.quiet = false) (events : List Event) :
    (I.lines events).Sublist (J.lines events) := by
  unfold lines
  by_cases h : I.quiet ∨ I.verbosity < 2
  · rw [if_pos h]
    exact List.nil_sublist _
  · have hJ : ¬ (J.quiet ∨ J.verbosity < 2) := by
      simp only [hq, Bool.false_eq_true, false_or]
      omega
    rw [if_neg h, if_neg hJ, hp]
    refine .cons_cons _ (.map _ (List.monotone_filter_right _ fun e he => ?_))
    simp only [decide_eq_true_eq] at he ⊢
    exact he.imp_left fun h₃ => Nat.le_trans h₃ hv

/-- **Flags do not touch the result**: a call that compiles a text answers with what the text is
compiled to, or with what is wrong with it. The flags only choose lines of the log, and more of
them choose more. -/
theorem respond_depends_on_source (read : String → Option String) (I : Invocation)
    (source : String) (h : I.source read = some source) :
    ((I.report read).exitCode, (I.report read).stdout) = verdict source ∧
    (I.report read).stderr = String.join (I.lines (compileInto #[] source).events) ∧
    (∀ (read' : String → Option String) (J : Invocation), J.source read' = some source →
      (J.report read').exitCode = (I.report read).exitCode ∧
      (J.report read').stdout = (I.report read).stdout) ∧
    ∀ J : Invocation, J.path = I.path → I.verbosity ≤ J.verbosity → J.quiet = false →
      (I.lines (compileInto #[] source).events).Sublist
        (J.lines (compileInto #[] source).events) ∧
      (I.report read).stderr.toList.Sublist (J.report read).stderr.toList := by
  have hr : ∀ (read' : String → Option String) (J : Invocation), J.source read' = some source →
      J.report read' = ⟨(verdict source).1, (verdict source).2,
        String.join (J.lines (compileInto #[] source).events)⟩ := by
    intro read' J hJ
    rw [J.report_eq hJ, compileReport_eq, log_options]
  refine ⟨?_, ?_, fun read' J hJ => ?_, fun J hp hv hq => ?_⟩
  · rw [hr read I h]
  · rw [hr read I h]
  · rw [hr read I h, hr read' J hJ]
    exact ⟨rfl, rfl⟩
  · have hs := Invocation.lines_sublist hp hv hq (compileInto #[] source).events
    have hJ : J.source read = some source := by rw [Invocation.source, hp, ← Invocation.source, h]
    refine ⟨hs, ?_⟩
    rw [hr read I h, hr read J hJ, String.toList_join, String.toList_join]
    exact hs.flatMap _

/-- One file, with a program that loops. -/
def oneFile (path : String) : Option String :=
  if path = "a" then some "program p;begin while 1 do end." else none

def twice : Invocation where
  arguments := [.short .verbose [], .path "a" (by decide) (by decide), .long .verbose]
  rest := none
  quiet_once := by decide
  path_once := by decide
  rest_ne_empty := by simp

/-- More letters in one argument than a byte counts, and the path after two dashes. -/
def manyTimes : Invocation where
  arguments := [.short .verbose (List.replicate 299 .verbose)]
  rest := some ["a"]
  quiet_once := by decide +kernel
  path_once := by decide
  rest_ne_empty := by simp

theorem respond_depends_on_source_counted :
    ((twice.report oneFile).exitCode, (twice.report oneFile).stdout) =
      (0, Instruction.listing [.start, .anchor ⟨1⟩, .constant 1, .jumpIfFalse ⟨2⟩, .jump ⟨1⟩,
        .anchor ⟨2⟩, .halt]) ∧
    (twice.report oneFile).stderr =
      String.join ["DEBUG compiling a\n", logged (.scanned 10), logged (.compiled 0 7)] ∧
    (manyTimes.report oneFile).stdout = (twice.report oneFile).stdout ∧
    manyTimes.verbosity = 300 ∧
    (twice.report oneFile).stderr.toList.Sublist (manyTimes.report oneFile).stderr.toList := by
  have hs : twice.source oneFile = some "program p;begin while 1 do end." := rfl
  have hs' : manyTimes.source oneFile = some "program p;begin while 1 do end." := rfl
  have hv : manyTimes.verbosity = 300 := by decide +kernel
  have hc : compile "program p;begin while 1 do end." = .ok [.start, .anchor ⟨1⟩, .constant 1,
      .jumpIfFalse ⟨2⟩, .jump ⟨1⟩, .anchor ⟨2⟩, .halt] := by decide +kernel
  have he : (compileInto #[] "program p;begin while 1 do end.").events =
      [.scanned 10, .labelled ⟨1⟩, .labelled ⟨2⟩, .compiled 0 7] := by decide +kernel
  obtain ⟨h₁, h₂, h₃, h₄⟩ := respond_depends_on_source oneFile twice _ hs
  refine ⟨h₁.trans ?_, h₂.trans ?_, (h₃ oneFile manyTimes hs').2, hv, ?_⟩
  · rw [verdict, hc]
  · rw [he]
    rfl
  · exact (h₄ manyTimes rfl (by rw [hv]; decide) (by decide +kernel)).2

end OnePass.CommandLine
