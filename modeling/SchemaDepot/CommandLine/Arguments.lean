/-! # Arguments of a program

Arguments are options, each with a value or without, and other arguments by their order; or the name
of a subcommand with what is left for it.

* `Usage`: what a program, or one of its subcommands, takes.
* `Usage.read`: what was given, or why that is not what it takes. -/

namespace SchemaDepot

/-- What a value is. A path is not empty. -/
inductive ValueKind where
  | text
  | path
deriving DecidableEq

/-- The value is one of its kind. -/
def ValueKind.admits (kind : ValueKind) (value : String) : Bool := kind = .text || !value.isEmpty

/-- What an option does: it asks for help, is given or not, or has a value. -/
inductive OptionKind where
  | help
  | flag
  | value (kind : ValueKind) (label : String)
deriving DecidableEq

/-- An option: its names, what it does, and what help says on it. -/
structure OptionSpec where
  name : String
  letter : Option Char := none
  kind : OptionKind
  isRepeatable : Bool := false
  about : String
deriving DecidableEq

/-- An argument that is no option. The last one may stand for many. -/
structure ArgumentSpec where
  label : String
  kind : ValueKind
  isMany : Bool := false
deriving DecidableEq

/-- What a program or a subcommand takes. -/
structure Usage where
  options : List OptionSpec
  arguments : List ArgumentSpec := []
  subcommands : List String := []
deriving DecidableEq

/-- What was given: the options by their names, with their values, and the other arguments. -/
structure Given where
  options : List (String × String) := []
  arguments : List String := []
deriving DecidableEq

/-- What is read from arguments: what was given, a question for help, a subcommand with what was
given before it, if that is sound, and the arguments left for it; or a fault. -/
inductive Reading where
  | complete (given : Given)
  | help
  | subcommand (name : String) (given : Option Given) (rest : List String)
  | misuse
deriving DecidableEq

namespace Given

/-- The values of an option. -/
def values (g : Given) (name : String) : List String :=
  (g.options.filter (·.1 == name)).map Prod.snd

/-- The option was given. -/
def has (g : Given) (name : String) : Bool := g.options.any (·.1 == name)

/-- The last value of an option. -/
def value? (g : Given) (name : String) : Option String := (g.values name).getLast?

end Given

namespace Usage

variable (u : Usage)

/-- The option with a letter. -/
def byLetter? (c : Char) : Option OptionSpec := u.options.find? (·.letter == some c)

/-- The option with a name. -/
def byName? (name : String) : Option OptionSpec := u.options.find? (·.name == name)

/-- What was given with one more option, unless that must not be repeated. -/
def addOption? (o : OptionSpec) (value : String) (g : Given) : Option Given :=
  if !o.isRepeatable && g.has o.name then none
  else some { g with options := g.options ++ [(o.name, value)] }

/-- What was given with a value for an option, unless the value is none. -/
def addValue? (o : OptionSpec) (kind : ValueKind) (value : String) (g : Given) : Option Given :=
  if kind.admits value then addOption? o value g else none

/-- The argument at a place. -/
def argumentAt? (i : Nat) : Option ArgumentSpec :=
  match u.arguments[i]? with
  | some a => some a
  | none => u.arguments.getLast?.filter (·.isMany)

/-- What was given with one more argument, unless there is no place for it. -/
def addArgument? (value : String) (g : Given) : Option Given := do
  let a ← u.argumentAt? g.arguments.length
  if a.kind.admits value then some { g with arguments := g.arguments ++ [value] } else none

/-- What an argument with a dash says. -/
inductive Step where
  | next (given : Given)
  | awaits (o : OptionSpec) (kind : ValueKind) (given : Given)
  | help
  | misuse

/-- The next step, if there is one. -/
def Step.ofOption : Option Given → Step
  | some g => next g
  | none => misuse

/-- What an option says, with the value that stands behind an equals sign, if there is one. -/
def stepOption (o : OptionSpec) (value : Option String) (g : Given) : Step :=
  match o.kind, value with
  | .help, none => .help
  | .flag, none => .ofOption (addOption? o "" g)
  | .value kind _, some value => .ofOption (addValue? o kind value g)
  | .value kind _, none => .awaits o kind g
  | _, some _ => .misuse

/-- What two dashes and a text say. -/
def stepLong (cs : List Char) (g : Given) : Step :=
  let value := match cs.dropWhile (· != '=') with
    | [] => none
    | _ :: value => some (String.ofList value)
  match u.byName? (String.ofList (cs.takeWhile (· != '='))) with
  | some o => stepOption o value g
  | none => .misuse

/-- What a dash and letters say: letters of options without values, and then of one with a value,
which may follow at once or behind an equals sign. -/
def stepLetters (g : Given) : List Char → Step
  | [] => .next g
  | c :: cs =>
    match u.byLetter? c with
    | none => .misuse
    | some o =>
      match o.kind, cs with
      | .value kind _, [] => .awaits o kind g
      | .value kind _, '=' :: value => .ofOption (addValue? o kind (String.ofList value) g)
      | .value kind _, value => .ofOption (addValue? o kind (String.ofList value) g)
      | .help, _ => .help
      | .flag, cs =>
        match addOption? o "" g with
        | some g => stepLetters g cs
        | none => .misuse

/-- The argument looks like an option. A dash alone does not. -/
def isOption (arg : String) : Bool := arg.length ≠ 1 && arg.toList.head? == some '-'

/-- What is read when the arguments are over. -/
def conclude (g : Given) : Reading :=
  if u.subcommands.isEmpty && u.arguments.length ≤ g.arguments.length then .complete g else .misuse

/-- What is read from arguments that are no options, whatever they look like. -/
def readPlain (g : Given) : List String → Reading
  | [] => u.conclude g
  | arg :: args =>
    match u.addArgument? arg g with
    | some g => readPlain g args
    | none => .misuse

/-- An option whose value stands in an argument of its own: the value may be still to come. It is
checked only when the next option or argument is read, or nothing is left. -/
inductive Pending where
  | none
  | awaits (o : OptionSpec) (kind : ValueKind)
  | holds (o : OptionSpec) (kind : ValueKind) (value : String)

/-- What was given with a pending option, if it is sound. -/
def Pending.settle? (g : Given) : Pending → Option Given
  | none => some g
  | awaits .. => Option.none
  | holds o kind value => addValue? o kind value g

/-- What an argument that looks like an option says. -/
def stepDashed (arg : String) (g : Given) : Step :=
  match arg.toList with
  | '-' :: '-' :: cs => u.stepLong cs g
  | cs => u.stepLetters g cs.tail

/-- What is read from arguments, after those that `g` and a pending option hold. A subcommand is
read before the pending option is checked. -/
def readFrom (pending : Pending) (g : Given) : List String → Reading
  | [] =>
    match pending.settle? g with
    | some g => u.conclude g
    | none => .misuse
  | arg :: args =>
    match pending, isOption arg with
    | .awaits o kind, false => readFrom (.holds o kind arg) g args
    | pending, isDashed =>
      if u.subcommands.contains arg then .subcommand arg (pending.settle? g) args
      else
        match pending.settle? g with
        | none => .misuse
        | some g =>
          if arg = "--" then u.readPlain g args
          else if isDashed then
            match u.stepDashed arg g with
            | .next g => readFrom .none g args
            | .awaits o kind g => readFrom (.awaits o kind) g args
            | .help => .help
            | .misuse => .misuse
          else
            match u.addArgument? arg g with
            | some g => readFrom .none g args
            | none => .misuse

/-- What is read from arguments. -/
def read (args : List String) : Reading := u.readFrom .none {} args

end Usage

end SchemaDepot
