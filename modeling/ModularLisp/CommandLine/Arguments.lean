/-!
# ModularLisp.CommandLine.Arguments

**Arguments**: what a command line asks for. It has two levels. The first names a
subcommand, everything after whose name belongs to the second. Each level has its own
options; the choice of a log filter can be made on both.

An option is long (`--expr`) or short (`-e`), and one that has a value takes it either
attached (`--expr=1`, `-e=1`, `-e1`) or from the next argument, which must not look
like an option then. A lone dash does not look like one, and after `--` nothing does.
An option given twice on one level is an error, as is an unknown one. The version is
asked for on the first level only, and asking for it ends reading, so that arguments
after it are not looked at.

A line that makes no sense is `none`.
-/

namespace ModularLisp.CommandLine

/-! ### Requests -/

/-- What to run. -/
inductive Source
  | text (source : String)
  | file (path : String)
  deriving DecidableEq, Repr

/-- What a command line asks for. -/
inductive Request
  | run (source : Source)
  | interact (keepHistory : Bool)
  | version
  | help
  deriving DecidableEq, Repr

/-! ### Options -/

/-- The options of either level. -/
inductive Opt
  | logFilter
  | expr
  | noHistory
  | version
  | help
  deriving DecidableEq, Repr

namespace Opt

/-- The long name. -/
def long : Opt → String
  | logFilter => "log-filter"
  | expr => "expr"
  | noHistory => "no-history"
  | version => "version"
  | help => "help"

/-- The short name, if there is one. -/
def short? : Opt → Option Char
  | expr => some 'e'
  | version => some 'V'
  | help => some 'h'
  | _ => none

/-- Does the option have a value? -/
def hasValue : Opt → Bool
  | logFilter | expr => true
  | _ => false

end Opt

/-- The shapes of an argument. -/
inductive Shape
  /-- The argument after which nothing is an option. -/
  | separator
  /-- A long option, with its attached value if it has one. -/
  | long (name : String) (value : Option String)
  /-- Short options and what is attached to them. -/
  | short (chars : List Char)
  | plain
  deriving DecidableEq, Repr

/-- The shape of an argument. -/
def Shape.of (argument : String) : Shape :=
  match argument.toList with
  | ['-'] => .plain
  | ['-', '-'] => .separator
  | '-' :: '-' :: body =>
      let name := String.ofList (body.takeWhile (· ≠ '='))
      match body.dropWhile (· ≠ '=') with
      | [] => .long name none
      | _ :: value => .long name (some (String.ofList value))
  | '-' :: chars => .short chars
  | _ => .plain

/-! ### One level -/

/-- What has been read of a level. -/
structure Level where
  /-- The options that the level has. -/
  options : List Opt
  /-- The options given, with their values; without one for those that have none. -/
  given : List (Opt × String)

namespace Level

/-- Adds an option that has not been given yet. -/
def give? (level : Level) (o : Opt) (value : String) : Option Level :=
  if (level.given.lookup o).isSome then none
  else some { level with given := level.given ++ [(o, value)] }

/-- The value given for an option. -/
def value? (level : Level) (o : Opt) : Option String :=
  level.given.lookup o

/-- The option with a long name. -/
def long? (level : Level) (name : String) : Option Opt :=
  level.options.find? fun o => o.long == name

/-- The option with a short name. -/
def short? (level : Level) (c : Char) : Option Opt :=
  level.options.find? fun o => o.short? == some c

end Level

/-- What reading one option leads to. -/
inductive Step
  /-- The option asks for something that ends reading. -/
  | asks (request : Request)
  /-- The option has been read. -/
  | given (level : Level)
  /-- The value of the option is the next argument. -/
  | awaits (o : Opt)

/-- An option without a value. -/
def flag? (level : Level) (o : Opt) : Option Step :=
  match o with
  | .version => some (.asks .version)
  | .help => some (.asks .help)
  | o => (level.give? o "").map .given

/-- Reads a long option. -/
def long? (level : Level) (name : String) (value : Option String) : Option Step :=
  match level.long? name with
  | none => none
  | some o =>
      if o.hasValue then
        match value with
        | some v => (level.give? o v).map .given
        | none => some (.awaits o)
      else if value.isSome then none
      else flag? level o

/-- Reads short options that share a dash. The first that has a value takes all that
is left as it, without an equals sign in front. -/
def short? (level : Level) : List Char → Option Step
  | [] => some (.given level)
  | c :: rest =>
      match level.short? c with
      | none => none
      | some o =>
          if o.hasValue then
            match rest with
            -- Nothing is attached, so the next argument is the value.
            | [] => some (.awaits o)
            | '=' :: value => (level.give? o (String.ofList value)).map .given
            | value => (level.give? o (String.ofList value)).map .given
          else
            match flag? level o with
            | some (.given level) => short? level rest
            | other => other

/-- Reads the option that an argument of the given shape is. -/
def option? (level : Level) : Shape → Option Step
  | .long name value => long? level name value
  | .short chars => short? level chars
  | _ => none

/-! ### Both levels -/

/-- The subcommands. -/
inductive Subcommand
  | run
  | repl
  deriving DecidableEq, Repr

/-- What follows the options of the second level: at most one file. -/
def addFile? (file : Option String) (argument : String) : Option (Option String) :=
  if file.isSome ∨ argument = "" then none else some (some argument)

/-- The request that the second level amounts to. -/
def request? (sub : Subcommand) (level : Level) (file : Option String) : Option Request :=
  match sub with
  | .run =>
      match level.value? .expr, file with
      | some source, none => some (.run (.text source))
      | none, some path => some (.run (.file path))
      | _, _ => none
  | .repl =>
      match file with
      | none => some (.interact (level.value? .noHistory).isNone)
      | some _ => none

/-- Reads arguments of which none is an option. -/
def plainArguments? (sub : Subcommand) (level : Level) (file : Option String) :
    List String → Option Request
  | [] => request? sub level file
  | a :: rest =>
      if sub = .repl then none
      else (addFile? file a).bind fun file => plainArguments? sub level file rest

/-- Reads the second level. -/
def subArguments? (sub : Subcommand) (level : Level) (file : Option String) :
    List String → Option Request
  | [] => request? sub level file
  | a :: rest =>
      match Shape.of a with
      | .separator => plainArguments? sub level file rest
      | .plain =>
          if sub = .repl then none
          else (addFile? file a).bind fun file => subArguments? sub level file rest
      | shape =>
          match option? level shape with
          | none => none
          | some (.asks request) => some request
          | some (.given level) => subArguments? sub level file rest
          | some (.awaits o) =>
              match rest with
              | [] => none
              | v :: rest =>
                  if Shape.of v = .plain then
                    (level.give? o v).bind fun level => subArguments? sub level file rest
                  else none

/-- The options of a subcommand. -/
def Subcommand.options : Subcommand → List Opt
  | .run => [.logFilter, .expr, .help]
  | .repl => [.logFilter, .noHistory, .help]

/-- The request of a subcommand with the given arguments. -/
def Subcommand.request? (sub : Subcommand) (arguments : List String) : Option Request :=
  subArguments? sub ⟨sub.options, []⟩ none arguments

/-- Reads what follows the request for help: at most one subcommand to be explained. -/
def helpArguments? : List String → Option Request
  | [] => some .help
  | [a] => if a = "run" ∨ a = "repl" ∨ a = "help" then some .help else none
  | _ => none

/-- Reads the first level. -/
def topArguments? (level : Level) : List String → Option Request
  | [] => none
  | a :: rest =>
      match Shape.of a with
      -- A subcommand has to look like one, so none can follow the separator.
      | .separator => none
      | .plain =>
          if a = "run" then Subcommand.run.request? rest
          else if a = "repl" then Subcommand.repl.request? rest
          else if a = "help" then helpArguments? rest
          else none
      | shape =>
          match option? level shape with
          | none => none
          | some (.asks request) => some request
          | some (.given level) => topArguments? level rest
          | some (.awaits o) =>
              match rest with
              | [] => none
              | v :: rest =>
                  if Shape.of v = .plain then
                    (level.give? o v).bind fun level => topArguments? level rest
                  else none

/-- What a command line asks for, if it makes sense. -/
def Request.ofArguments? (arguments : List String) : Option Request :=
  topArguments? ⟨[.logFilter, .version, .help], []⟩ arguments

end ModularLisp.CommandLine
