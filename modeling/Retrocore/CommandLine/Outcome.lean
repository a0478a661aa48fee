import Retrocore.CommandLine.Arguments
import Retrocore.CommandLine.Files
import Retrocore.Narration.Journal
import Retrocore.Text.Utf8

/-!
# What a program does

A program either runs or says why it does not: it shows its help, refuses its
command line, or cannot read its file.
-/

namespace Retrocore.CommandLine

/-- What a program leaves. -/
structure Outcome where
  exitCode : Nat
  printed : List Byte := []
  /-- The lines of the error stream. -/
  errors : List String := []
  deriving DecidableEq, Repr

/-- A program as its help describes it. -/
structure Program (σ : Type) where
  title : String
  name : String
  /-- What the file is there for. -/
  purpose : String
  parameters : List (Parameter σ)

namespace Program

variable {σ : Type}

/-- The options with what they are for. The names of one letter stand before the
long ones. -/
def options (p : Program σ) : List (String × String) :=
  p.parameters.map (fun o => (s!"    {o.usage}", o.about)) ++ [("-h, --help", "Print help")]

/-- The options, one below the other. What they are for stands beside them if it
leaves at least 60 of 100 columns to that, and below each of them otherwise. -/
def optionLines (p : Program σ) : List String :=
  let width := (p.options.map (·.1.length)).foldl max 0
  let beside := width + 4 ≤ 40
  p.options.flatMap fun (option, about) =>
    if beside then
      let gap := String.ofList (List.replicate (width - option.length) ' ')
      [s!"  {option}{gap}  {about}"]
    else [s!"  {option}", s!"          {about}"]

/-- How the program is called. -/
def usage (p : Program σ) : String :=
  let required := p.parameters.filterMap fun o => if o.required then some s!"{o.usage} " else none
  s!"{p.name} [OPTIONS] {String.join required}<BIN>"

def helpLines (p : Program σ) : List String :=
  [p.title, "", s!"Usage: {p.usage}", "", "Arguments:", s!"  <BIN>  {p.purpose}", "", "Options:"]
    ++ p.optionLines

end Program

/-- A line of the error stream, which a line feed ends and in which carriage
returns are lost. -/
def errorLine (text : List Char) : String :=
  String.ofList ((text.takeWhile (· ≠ '\n')).filter (· ≠ '\r'))

/-- A rejected command line ends the program at once, and so does a wish for
help. -/
def Halt.outcome {σ : Type} (p : Program σ) : Halt → Outcome
  | help => { exitCode := 0, printed := p.helpLines.flatMap fun line => Text.utf8 s!"{line}\n" }
  | rejected r => { exitCode := 2, errors := [errorLine s!"error: {r.message}".toList] }

/-- A file that cannot be read ends the program. Its path is shown without
control sequences; where it goes on behind a line feed it is set in. -/
def Outcome.unreadable (topic : Narration.Topic) (path : String) (fault : ReadFault) : Outcome where
  exitCode := 1
  errors :=
    let text := s!"Unable to read {path}: {fault.message}"
    let remark : Narration.Remark := ⟨.error, topic, text.replace "\n" "\n    "⟩
    ((Text.plain remark.line).splitOn "\n").map fun line => errorLine line.toList

end Retrocore.CommandLine
