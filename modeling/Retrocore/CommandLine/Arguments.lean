import Retrocore.Disassembly
import Retrocore.Text.ControlSequences
import Retrocore.Text.Numeral
import Retrocore.Text.Quoted

/-!
# Command lines

The arguments of a program are options, which have names behind two dashes, and
the path of one file. They are read from left to right, until one of them asks
for help or cannot be right. A value may stand behind the option's name and an
equals sign, or be the next argument; in the second case it is looked at only
when another option or the path follows, so that an argument which means nothing
is found first.
-/

namespace Retrocore.CommandLine

/-! ## What can be wrong -/

/-- Why a command line is refused. Options are named with the value they take,
if any. -/
inductive Rejection where
  /-- The argument means nothing. -/
  | unexpected (argument : String)
  /-- The option takes no value. -/
  | needlessValue (value option : String)
  | missingValue (option : String)
  | invalidValue (value option : String) (reason : Option String)
  /-- The option was given before and counts only once. -/
  | repeated (option : String)
  /-- The path or an option that is always needed is missing. -/
  | incomplete
  /-- An address does not exist on the machine. -/
  | outside (option : String) (address : Word)
  deriving DecidableEq, Repr

/-- A rejection in words. Arguments are shown without control sequences. -/
def Rejection.message : Rejection → String
  | unexpected argument => s!"unexpected argument '{Text.plain argument}' found"
  | needlessValue value option =>
    s!"unexpected value '{Text.plain value}' for '{option}' found; no more were expected"
  | missingValue option => s!"a value is required for '{option}' but none was supplied"
  | invalidValue value option none => s!"invalid value '{Text.plain value}' for '{option}'"
  | invalidValue value option (some reason) =>
    s!"invalid value '{Text.plain value}' for '{option}': {reason}"
  | repeated option => s!"the argument '{option}' cannot be used multiple times"
  | incomplete => "the following required arguments were not provided:"
  | outside option address =>
    s!"{option} {address.toNat} is past the LMC's {Lmc.mailboxes} mailboxes"

/-- Why a command line leads to no run. -/
inductive Halt where
  /-- Help was asked for. -/
  | help
  | rejected (r : Rejection)
  deriving DecidableEq, Repr

/-- Stops the reading of a command line. -/
def reject {α : Type} (r : Rejection) : Except Halt α := .error (.rejected r)

/-! ## Options -/

/-- Why a value is refused, apart from which option it was for. -/
inductive ValueFault where
  /-- The value is empty, which is as good as none. -/
  | missing
  | invalid (reason : Option String)

/-- What an option does to the settings. -/
inductive Effect (σ : Type) where
  /-- It takes no value. -/
  | switch (turnOn : σ → σ)
  | value (name : String) (take : σ → String → Except ValueFault σ)

structure Parameter (σ : Type) where
  name : String
  effect : Effect σ
  /-- What the option is for. -/
  about : String
  /-- Whether there is no run without it. -/
  required : Bool := false
  /-- Whether it may be given more than once. -/
  repeatable : Bool := false

namespace Parameter

variable {σ : Type}

/-- The option as it is named in messages. -/
def usage (p : Parameter σ) : String :=
  match p.effect with
  | .switch _ => s!"--{p.name}"
  | .value name _ => s!"--{p.name} <{name}>"

/-- Reads an address: hexadecimal behind `0x`, and decimal otherwise. -/
def readAddress (text : String) : Except Text.NumeralError Nat :=
  match Text.hexMarked? text.toList with
  | some digits => Text.readNumeral 16 65535 digits
  | none => Text.readNumeral 10 65535 text.toList

/-- Reads an address, and says what is wrong with it. -/
def checkAddress (text : String) : Except ValueFault Nat :=
  (readAddress text).mapError fun e => .invalid (some s!"{Text.quote text}: {e.message}")

def address (name valueName about : String) (set : σ → Word → σ) : Parameter σ where
  name
  about
  effect := .value valueName fun s text => (checkAddress text).map fun n => set s (UInt16.ofNat n)

def byte (name valueName about : String) (set : σ → Byte → σ) : Parameter σ where
  name
  about
  effect := .value valueName fun s text =>
    match checkAddress text with
    | .error fault => .error fault
    | .ok n =>
      if n < 256 then .ok (set s (UInt8.ofNat n))
      else .error (.invalid (some s!"{Text.quote text} doesn't fit in a byte"))

/-- An option that takes a decimal number of 64 bits. -/
def count (name valueName about : String) (set : σ → Nat → σ) : Parameter σ where
  name
  about
  effect := .value valueName fun s text =>
    match Text.readNumeral 10 18446744073709551615 text.toList with
    | .ok n => .ok (set s n)
    | .error e => .error (.invalid (some e.message))

/-- The option by which a machine is chosen. -/
def isa (set : σ → Isa → σ) : Parameter σ where
  name := "isa"
  about :=
    let words := ", ".intercalate (Isa.all.map Isa.word)
    s!"Instruction set of the binary [possible values: {words}]"
  required := true
  effect := .value "ISA" fun s text =>
    match Isa.ofWord? text with
    | some isa => .ok (set s isa)
    | none => .error (if text.isEmpty then .missing else .invalid none)

end Parameter

/-! ## Reading a command line -/

/-- What has been read of a command line. -/
structure Scan (σ : Type) where
  settings : σ
  path : Option String := none
  /-- The names of the options that have taken effect. -/
  given : List String := []
  /-- An option whose value has not been looked at, and the value unless it is
  still to come. -/
  pending : Option (Parameter σ × Option String) := none
  /-- Whether two dashes have been read; nothing behind them is an option. -/
  verbatim : Bool := false

namespace Scan

variable {σ : Type}

/-- Lets an option take effect. -/
def apply (s : Scan σ) (p : Parameter σ) (value? : Option String) : Except Halt (Scan σ) :=
  let checked : Except Halt σ :=
    if !p.repeatable && s.given.contains p.name then reject (.repeated p.usage)
    else
      match p.effect, value? with
      | .switch turnOn, _ => .ok (turnOn s.settings)
      | .value _ _, none => reject (.missingValue p.usage)
      | .value _ take, some v =>
        match take s.settings v with
        | .ok settings => .ok settings
        | .error .missing => reject (.missingValue p.usage)
        | .error (.invalid reason) => reject (.invalidValue v p.usage reason)
  checked.map fun settings => { s with settings, given := p.name :: s.given }

/-- Looks at the value that has been waiting. -/
def settle (s : Scan σ) : Except Halt (Scan σ) :=
  match s.pending with
  | none => .ok s
  | some (p, none) => reject (.missingValue p.usage)
  | some (p, some v) => { s with pending := none }.apply p (some v)

/-- A name and what stands behind the first equals sign, if there is one. -/
def splitAtEquals (body : List Char) : String × Option String :=
  let value? : Option String :=
    match body.dropWhile (· != '=') with
    | _ :: value => some (String.ofList value)
    | [] => none
  (String.ofList (body.takeWhile (· != '=')), value?)

/-- Answers a wish for help, unless what was read before it is wrong. -/
def help (s : Scan σ) : Except Halt (Scan σ) := s.settle.bind fun _ => .error .help

/-- Reads an option. -/
def option (ps : List (Parameter σ)) (s : Scan σ) (body : List Char) : Except Halt (Scan σ) :=
  let (name, value?) := splitAtEquals body
  match ps.find? (·.name == name) with
  | none =>
    if name = "help" then value?.elim s.help fun v => reject (.needlessValue v "--help")
    else reject (.unexpected s!"--{name}")
  | some p =>
    match p.effect, value? with
    | .switch _, some v => reject (.needlessValue v p.usage)
    | .switch _, none => s.settle.bind (·.apply p none)
    | .value _ _, some v => s.settle.bind (·.apply p (some v))
    | .value _ _, none => s.settle.map fun s => { s with pending := some (p, none) }

/-- Reads the path. There is only one. -/
def readPath (s : Scan σ) (argument : String) : Except Halt (Scan σ) :=
  if s.path.isSome then reject (.unexpected argument)
  else s.settle.map fun s => { s with path := some argument }

/-- Reads an argument. A single dash is an ordinary value, but one with
something behind it is an option of one letter, of which there is only that for
help. -/
def read (ps : List (Parameter σ)) (s : Scan σ) (argument : String) : Except Halt (Scan σ) :=
  if s.verbatim then s.readPath argument
  else
    match argument.toList with
    | ['-', '-'] => .ok { s with verbatim := true }
    | '-' :: '-' :: body => s.option ps body
    | '-' :: 'h' :: _ => s.help
    | '-' :: c :: _ => reject (.unexpected (String.ofList ['-', c]))
    | _ =>
      match s.pending with
      | some (p, none) => .ok { s with pending := some (p, some argument) }
      | _ => s.readPath argument

end Scan

/-- Reads a command line: the path, if one is given, and the settings. -/
def readArguments {σ : Type} (ps : List (Parameter σ)) (defaults : σ) (arguments : List String) :
    Except Halt (Option String × σ) := do
  let s ← arguments.foldlM (Scan.read ps) { settings := defaults }
  let s ← s.settle
  return (s.path, s.settings)

end Retrocore.CommandLine
