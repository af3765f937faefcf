import ConditionalAssembly.CommandLine.Assignment

/-!
# Options of the command line

Options are written with two dashes and a word or with one dash and a letter,
letters without a value may share a dash, and a value follows directly, behind
an equal sign or as the next argument.  Two dashes alone end the options.  The
one argument that is no option is the expression.

An option that waits for its value is settled when the next option, the
expression or the end of the arguments is reached; an unknown option is
refused before that.
-/

namespace ConditionalAssembly.CommandLine

/-- Why arguments are refused, or what they ask for instead of a result. -/
inductive Rejection where
  | invalidValue
  | missingValue
  | unneededValue
  | unknownArgument
  | repeatedArgument
  | missingExpression
  | helpWanted
  | versionWanted
  deriving DecidableEq

/-- What the arguments ask for. -/
structure Options where
  domain : Option Domain := none
  assignments : List Assignment := []
  definitions : List Definition := []
  tree : Bool := false
  dependencies : Bool := false
  verbosity : Nat := 0
  quiet : Bool := false
  expression : Option String := none

/-! ## Names of options -/

/-- The parts of the options that are given by a value. -/
inductive Setting where
  | domain
  | assignment
  | definition
  | expression
  deriving DecidableEq

/-- The options without a value. -/
inductive Switch where
  | tree
  | dependencies
  | verbose
  | quiet
  | help
  | version
  deriving DecidableEq

/-- An option, with or without a value. -/
inductive OptionName where
  | setting (setting : Setting)
  | switch (switch : Switch)
  deriving DecidableEq

/-- The options by their words. -/
def longNames : List (String × OptionName) :=
  [("domain", .setting .domain), ("set", .setting .assignment), ("symbol", .setting .definition),
    ("tree", .switch .tree), ("dependencies", .switch .dependencies),
    ("verbose", .switch .verbose), ("quiet", .switch .quiet), ("help", .switch .help),
    ("version", .switch .version)]

/-- The options by their letters. -/
def shortNames : List (Char × OptionName) :=
  [('d', .setting .domain), ('s', .setting .assignment), ('t', .switch .tree),
    ('v', .switch .verbose), ('q', .switch .quiet), ('h', .switch .help), ('V', .switch .version)]

/-! ## Taking options -/

/-- Takes a value into the options. -/
def Options.assign (options : Options) (value : String) : Setting → Except Rejection Options
  | .domain =>
      if options.domain.isSome then .error .repeatedArgument
      else
        match Domain.ofName? value with
        | some domain => .ok { options with domain := some domain }
        | none => .error .invalidValue
  | .assignment =>
      match Assignment.parse value with
      | .ok assignment => .ok { options with assignments := options.assignments ++ [assignment] }
      | .error _ => .error .invalidValue
  | .definition =>
      match Definition.parse value with
      | .ok definition => .ok { options with definitions := options.definitions ++ [definition] }
      | .error _ => .error .invalidValue
  | .expression => .ok { options with expression := some value }

/-- Takes a switch into the options. -/
def Options.toggle (options : Options) : Switch → Except Rejection Options
  | .tree =>
      if options.tree then .error .repeatedArgument else .ok { options with tree := true }
  | .dependencies =>
      if options.dependencies then .error .repeatedArgument
      else .ok { options with dependencies := true }
  | .verbose => .ok { options with verbosity := options.verbosity + 1 }
  | .quiet =>
      if options.quiet then .error .repeatedArgument else .ok { options with quiet := true }
  | .help => .error .helpWanted
  | .version => .error .versionWanted

/-! ## Walking over the arguments -/

/-- How far the arguments have been taken. -/
structure Progress where
  options : Options := {}
  /-- A setting named but not taken yet, and its value once that is known. -/
  pending : Option (Setting × Option String) := none
  /-- The expression has been met. -/
  expressionSeen : Bool := false
  /-- The options have been ended. -/
  optionsEnded : Bool := false

namespace Progress

/-- Takes the setting that is pending. -/
def settle (progress : Progress) : Except Rejection Progress :=
  match progress.pending with
  | none => .ok progress
  | some (_, none) => .error .missingValue
  | some (setting, some value) => do
      return { progress with options := ← progress.options.assign value setting, pending := none }

/-- Takes a setting with its value. -/
def takeSetting (progress : Progress) (setting : Setting) (value : String) :
    Except Rejection Progress := do
  let settled ← progress.settle
  return { settled with options := ← settled.options.assign value setting }

/-- Takes a switch. -/
def takeSwitch (progress : Progress) (switch : Switch) : Except Rejection Progress := do
  let settled ← progress.settle
  return { settled with options := ← settled.options.toggle switch }

/-- Takes the name of a setting whose value is to follow. -/
def await (progress : Progress) (setting : Setting) : Except Rejection Progress := do
  return { ← progress.settle with pending := some (setting, none) }

/-- Takes the expression. -/
def takeExpression (progress : Progress) (argument : String) : Except Rejection Progress :=
  if progress.expressionSeen then .error .unknownArgument
  else do
    return { ← progress.settle with
      pending := some (.expression, some argument)
      expressionSeen := true }

/-- Takes an option written as a word, with what stands behind its dashes. -/
def takeLong (progress : Progress) (text : List Char) : Except Rejection Progress :=
  let (name, value) :=
    match Text.splitFirst? '=' text with
    | some (name, value) => (name, some value)
    | none => (text, none)
  match longNames.lookup (String.ofList name), value with
  | none, _ => .error .unknownArgument
  | some (.switch _), some _ => .error .unneededValue
  | some (.switch switch), none => progress.takeSwitch switch
  | some (.setting setting), some value => progress.takeSetting setting (String.ofList value)
  | some (.setting setting), none => progress.await setting

/-- Takes options written as letters behind one dash. -/
def takeShort (progress : Progress) : List Char → Except Rejection Progress
  | [] => .ok progress
  | letter :: rest =>
      match shortNames.lookup letter, rest with
      | none, _ => .error .unknownArgument
      | some (.switch switch), _ => do takeShort (← progress.takeSwitch switch) rest
      | some (.setting setting), [] => progress.await setting
      | some (.setting setting), '=' :: value => progress.takeSetting setting (String.ofList value)
      | some (.setting setting), value => progress.takeSetting setting (String.ofList value)

/-- Takes one argument. -/
def take (progress : Progress) (argument : String) : Except Rejection Progress :=
  match progress.optionsEnded, argument.toList, progress.pending with
  | false, ['-', '-'], _ => .ok { progress with optionsEnded := true }
  | false, '-' :: '-' :: text, _ => progress.takeLong text
  | false, '-' :: letter :: rest, _ => progress.takeShort (letter :: rest)
  | false, _, some (setting, none) =>
      .ok { progress with pending := some (setting, some argument) }
  | _, _, _ => progress.takeExpression argument

end Progress

/-- What some arguments ask for, with the expression they must give. -/
def Options.parse (arguments : List String) : Except Rejection (Options × String) := do
  let progress ← arguments.foldlM Progress.take {}
  let settled ← progress.settle
  match settled.options.expression with
  | some expression => return (settled.options, expression)
  | none => .error .missingExpression

end ConditionalAssembly.CommandLine
