import Bracketry.Cli.Arguments

/-!
# Command lines

Every command can be asked for. The line of a command names it, gives its options by their long
names and its path behind `--`, so that any path but the empty one may stand there. Read again it
asks for that command and nothing else (`Request.ofArguments?_line`): the options of a line are
added one at a time, and each of them changes what it is about and leaves the rest as it was.
-/

namespace Bracketry.Cli

/-! ## Writing a line -/

def Verb.name : Verb → String
  | tokenize => "tokenize"
  | parse => "parse"
  | simplify => "simplify"
  | check => "check"
  | stats => "stats"

def Format.argument : Format → String
  | text => "--format=text"
  | json => "--format=json"

def Flag.argument : Flag → String
  | noComments => "--no-comments"
  | noBlanks => "--no-whitespace"
  | noDelimiters => "--no-delimiters"
  | pretty => "--pretty"

namespace Command

def verb : Command → Verb
  | tokenize .. => .tokenize
  | parse .. => .parse
  | simplify .. => .simplify
  | check .. => .check
  | stats .. => .stats

/-- The path that a command is about. -/
def path : Command → String
  | tokenize path _ | parse path _ _ | simplify path _ | check path _ | stats path _ _ => path

/-- The format of a command's result, where it has one. -/
def format? : Command → Option Format
  | tokenize _ format | parse _ format _ | stats _ format _ => some format
  | simplify .. | check .. => none

def flags : Command → List Flag
  | tokenize .. => []
  | parse _ _ flags | simplify _ flags | stats _ _ flags => flags
  | check _ pretty => if pretty then [.pretty] else []

/-- A command line for a command. -/
def line (c : Command) : List String :=
  c.verb.name :: (c.format?.toList.map Format.argument ++
    (c.flags.reverse.map Flag.argument ++ ["--", c.path]))

/-- Whether a command has a path and only flags of its own, each of them once. -/
structure Sound (c : Command) : Prop where
  path_ne : c.path ≠ ""
  allowed : ∀ flag ∈ c.flags, flag ∈ c.verb.flags
  nodup : c.flags.Nodup

end Command

/-! ## Reading it -/

section

variable {verb : Verb} {g : Given}

theorem Given.add?_format (format : Format) (h : verb.hasFormat = true) :
    Given.add? verb {} format.argument = some { format := some format } := by
  cases format <;>
    simp [Given.add?, Format.argument, Given.addLong?, h, Given.setFormat?, Format.ofName?]

theorem Given.add?_flag {flag : Flag} (options : g.awaitsFormat = false ∧ g.pathsOnly = false)
    (allowed : flag ∈ verb.flags) (new : flag ∉ g.flags) :
    Given.add? verb g flag.argument = some { g with flags := flag :: g.flags } := by
  obtain ⟨noValue, anything⟩ := options
  cases flag <;>
    simp [Given.add?, Flag.argument, Given.addLong?, Flag.ofName?, Given.addFlag?, noValue,
      anything, allowed, new]

/-- The flags of a line, the last of the list first. -/
theorem Given.foldlM_flags (options : g.awaitsFormat = false ∧ g.pathsOnly = false)
    (none : g.flags = []) {flags : List Flag} (allowed : ∀ flag ∈ flags, flag ∈ verb.flags)
    (nodup : flags.Nodup) :
    (flags.reverse.map Flag.argument).foldlM (Given.add? verb) g = some { g with flags } := by
  induction flags with
  | nil =>
    obtain ⟨path, format, kept, verbosity, noValue, anything⟩ := g
    cases none
    rfl
  | cons flag flags ih =>
    obtain ⟨new, nodup⟩ := List.nodup_cons.mp nodup
    have before := ih (fun other h => allowed other (List.mem_cons_of_mem _ h)) nodup
    rw [List.reverse_cons, List.map_append, List.foldlM_append, before]
    have last : Given.add? verb { g with flags } flag.argument =
        some { g with flags := flag :: flags } :=
      Given.add?_flag options (allowed flag List.mem_cons_self) new
    exact (List.foldlM_cons ..).trans (congrArg (· >>= _) last)

/-- Behind two dashes anything but the empty text is a path. -/
theorem Given.foldlM_path (options : g.awaitsFormat = false ∧ g.pathsOnly = false)
    (none : g.path = none) {path : String} (h : path ≠ "") :
    ["--", path].foldlM (Given.add? verb) g =
      some { g with path := some path, pathsOnly := true } := by
  have dashes : Given.add? verb g "--" = some { g with pathsOnly := true } := by
    simp [Given.add?, options.1, options.2]
  have last : Given.add? verb { g with pathsOnly := true } path =
      some { g with path := some path, pathsOnly := true } := by
    simp [Given.add?, Given.addPath?, options.1, none, h]
  rw [List.foldlM_cons, dashes]
  exact (List.foldlM_cons ..).trans (congrArg (· >>= _) last)

/-- All arguments behind the name of a command. -/
theorem Given.foldlM_line {c : Command} (sound : c.Sound) :
    (c.format?.toList.map Format.argument ++
        (c.flags.reverse.map Flag.argument ++ ["--", c.path])).foldlM (Given.add? c.verb) {} =
      some { path := some c.path, format := c.format?, flags := c.flags, pathsOnly := true } := by
  have format : (c.format?.toList.map Format.argument).foldlM (Given.add? c.verb) {} =
      some { format := c.format? } := by
    cases c with
    | simplify | check => rfl
    | _ => exact (List.foldlM_cons ..).trans (congrArg (· >>= _) (Given.add?_format _ rfl))
  have flags : (c.flags.reverse.map Flag.argument).foldlM (Given.add? c.verb)
      { format := c.format? } = some { format := c.format?, flags := c.flags } :=
    Given.foldlM_flags ⟨rfl, rfl⟩ rfl sound.allowed sound.nodup
  have path : ["--", c.path].foldlM (Given.add? c.verb)
      { format := c.format?, flags := c.flags } =
        some { path := some c.path, format := c.format?, flags := c.flags, pathsOnly := true } :=
    Given.foldlM_path ⟨rfl, rfl⟩ rfl sound.path_ne
  rw [List.foldlM_append, format]
  refine Eq.trans (List.foldlM_append ..) ?_
  rw [flags]
  exact path

theorem Request.ofArguments?_verb (outer : Nat) (verb : Verb) (arguments : List String) :
    Request.ofArguments? outer (verb.name :: arguments) =
      Request.ofCommand? outer verb arguments := by
  cases verb <;> simp [Request.ofArguments?, Verb.name, Verb.ofName?]

theorem Request.ofArguments?_verbose (outer : Nat) (arguments : List String) :
    Request.ofArguments? outer ("-v" :: arguments) =
      Request.ofArguments? (outer + 1) arguments := by
  simp [Request.ofArguments?, readLetters?]

theorem Request.ofArguments?_line (outer : Nat) {c : Command} (sound : c.Sound) :
    Request.ofArguments? outer c.line = some (.run outer c) := by
  rw [Command.line, Request.ofArguments?_verb, Request.ofCommand?, Given.foldlM_line sound]
  cases c with
  | check path pretty => cases pretty <;> rfl
  | _ => rfl

/-- The line of a command asks for it, and the options for verbosity before it are counted. -/
theorem Request.ofArguments?_replicate {c : Command} (sound : c.Sound) (outer verbosity : Nat) :
    Request.ofArguments? outer (List.replicate verbosity "-v" ++ c.line) =
      some (.run (outer + verbosity) c) := by
  induction verbosity generalizing outer with
  | zero => exact Request.ofArguments?_line outer sound
  | succ verbosity ih =>
    rw [List.replicate_succ, List.cons_append, Request.ofArguments?_verbose, ih,
      Nat.add_right_comm, Nat.add_assoc]

end

end Bracketry.Cli
