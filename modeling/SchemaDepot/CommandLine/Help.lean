import SchemaDepot.CommandLine.Arguments

/-! # Help

* `HelpPage`: what help says on a program or a subcommand.
* `HelpPage.lines`: its lines, in columns. -/

namespace SchemaDepot

/-- What help says: what it is about, how it is called, and lists of terms with what they mean. -/
structure HelpPage where
  about : String
  call : String
  sections : List (String × List (String × String))

namespace HelpPage

/-- A text with blanks behind it, up to a width. -/
def pad (width : Nat) (s : String) : String :=
  s ++ String.ofList (List.replicate (width - s.length) ' ')

/-- The lines of a list, in two columns. -/
def columns (entries : List (String × String)) : List String :=
  let width := (entries.map (·.1.length)).foldl max 0
  entries.map fun (term, meaning) => "  " ++ pad width term ++ "  " ++ meaning

/-- The lines of a section that is not empty. -/
def sectionLines (title : String) (entries : List (String × String)) : List String :=
  if entries.isEmpty then [] else "" :: (title ++ ":") :: columns entries

/-- The lines of a page. -/
def lines (p : HelpPage) : List String :=
  [p.about, "", "Usage: " ++ p.call] ++
    p.sections.flatMap fun (title, entries) => sectionLines title entries

end HelpPage

/-- How an option is named. -/
def OptionSpec.term (o : OptionSpec) : String :=
  let letter := match o.letter with
    | some c => String.ofList ['-', c, ',', ' ']
    | none => "    "
  let value := match o.kind with
    | .value _ label => " <" ++ label ++ ">"
    | _ => ""
  letter ++ "--" ++ o.name ++ value

/-- How an argument is named. -/
def ArgumentSpec.term (a : ArgumentSpec) : String :=
  "<" ++ a.label ++ ">" ++ if a.isMany then "..." else ""

namespace Usage

/-- How something is called that takes this. -/
def call (name : String) (u : Usage) : String :=
  let options := if u.options.any (·.kind ≠ .help) then ["[OPTIONS]"] else []
  let subcommand := if u.subcommands.isEmpty then [] else ["<COMMAND>"]
  " ".intercalate (name :: options ++ u.arguments.map ArgumentSpec.term ++ subcommand)

/-- The help on something that takes this. -/
def help (name about : String) (commands : List (String × String)) (u : Usage) : HelpPage where
  about
  call := u.call name
  sections := [("Commands", commands),
    ("Arguments", u.arguments.map fun a => (a.term, "")),
    ("Options", u.options.map fun o => (o.term, o.about))]

end Usage

end SchemaDepot
