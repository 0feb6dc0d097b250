import Exemplar.Size

/-!
# Command lines

A command line names a command, its options and its pattern. Options have a long name and may have a
letter, and the value of an option follows it or is attached to it. `Invocation.ofArguments` reads a
command line from left to right, one argument at a time, and the first thing that is wrong or that
asks for a notice decides.
-/

namespace Exemplar.CommandLine

/-- What is wrong with a command line. An option may be given twice, lack its value or be missing
although it must be given, and the value of an option may be no number in its range. -/
inductive UsageError where
  | missingCommand
  | unknownCommand (name : String)
  | unknownOption (argument : String)
  | repeatedOption (name : String)
  | missingValue (name : String)
  | unexpectedValue (name : String)
  | invalidNumber (name value : String)
  | missingOption (name : String)
  | missingPattern
  | unexpectedArgument (argument : String)
  deriving DecidableEq, Repr, Inhabited

/-- The text for the error. -/
def UsageError.message : UsageError → String
  | missingCommand => "a command is required"
  | unknownCommand name => s!"unknown command '{name}'"
  | unknownOption argument => s!"unknown option '{argument}'"
  | repeatedOption name => s!"the option '--{name}' is given more than once"
  | missingValue name => s!"the option '--{name}' needs a value"
  | unexpectedValue name => s!"the option '--{name}' takes no value"
  | invalidNumber name value => s!"invalid value '{value}' for the option '--{name}'"
  | missingOption name => s!"the option '--{name}' is required"
  | missingPattern => "a pattern is required"
  | unexpectedArgument argument => s!"unexpected argument '{argument}'"

/-- What is shown in place of the output of a command: the commands and their options, or the
version. -/
inductive Notice where
  | help
  | version
  deriving DecidableEq, Repr, Inhabited

/-- Why the arguments behind some point no longer matter: the command line is wrong, or a notice is
asked for. -/
inductive Ending where
  | failed (error : UsageError)
  | asked (notice : Notice)
  deriving DecidableEq, Repr, Inhabited

/-- The number that decimal digits stand for. -/
def readNat? (digits : List Char) : Option Nat :=
  if digits.isEmpty ∨ ¬ digits.all Char.isDigit then none
  else some (digits.foldl (fun value c ↦ value * 10 + (c.toNat - '0'.toNat)) 0)

/-- A number below `2 ^ 64`, perhaps behind a plus sign. -/
def readSize? (text : String) : Option Nat :=
  let digits := match text.toList with
    | '+' :: digits => digits
    | digits => digits
  (readNat? digits).filter (· < Size.modulus)

/-- A signed number of 64 bits. -/
def readSigned? (text : String) : Option Int :=
  match text.toList with
  | '-' :: digits => ((readNat? digits).filter (· ≤ 0x8000000000000000)).map fun size ↦ -size
  | '+' :: digits => ((readNat? digits).filter (· < 0x8000000000000000)).map fun size ↦ size
  | digits => ((readNat? digits).filter (· < 0x8000000000000000)).map fun size ↦ size

/-- What the text of a value stands for: itself, a number below `2 ^ 64`, or a signed number of 64
bits. -/
inductive ValueKind where
  | text
  | size
  | signed
  deriving DecidableEq, Repr, Inhabited

/-- The value of an option that is given. A switch has no value but is `on`. -/
inductive Value where
  | on
  | text (text : String)
  | size (size : Nat)
  | signed (value : Int)
  deriving DecidableEq, Repr, Inhabited

/-- Read a value. -/
def ValueKind.read? (text : String) : ValueKind → Option Value
  | .text => some (.text text)
  | .size => (readSize? text).map .size
  | .signed => (readSigned? text).map .signed

/-- Whether an argument can be the value of the option in front of it. What begins with a hyphen is
an option of its own, unless it is the hyphen alone or a signed number is due. -/
def ValueKind.Takes (kind : ValueKind) (argument : String) : Prop :=
  kind = .signed ∨ argument = "-" ∨ argument.toList.head? ≠ some '-'

instance (kind : ValueKind) (argument : String) : Decidable (kind.Takes argument) :=
  inferInstanceAs (Decidable (_ ∨ _ ∨ _))

/-- What an option does: a switch is given or not, another option has a value, and a third one asks
for a notice. -/
inductive OptionKind where
  | switch
  | value (kind : ValueKind)
  | notice (notice : Notice)
  deriving DecidableEq, Repr, Inhabited

/-- An option that a command knows, with its name behind two hyphens and the letter that it may
have behind one hyphen. -/
structure OptionSpec where
  long : String
  short : Option Char
  kind : OptionKind
  deriving DecidableEq, Repr, Inhabited

/-- The options that were read so far, with their values. -/
abbrev Values := List (String × Value)

namespace Values

/-- Whether a switch is given. -/
def isOn (values : Values) (name : String) : Bool :=
  (values.lookup name).isSome

/-- The text of an option, if it is given. -/
def text? (values : Values) (name : String) : Option String :=
  match values.lookup name with
  | some (.text text) => some text
  | _ => none

/-- The size that an option gives, if it is given. -/
def size? (values : Values) (name : String) : Option Nat :=
  match values.lookup name with
  | some (.size size) => some size
  | _ => none

/-- The signed number that an option gives, if it is given. -/
def signed? (values : Values) (name : String) : Option Int :=
  match values.lookup name with
  | some (.signed value) => some value
  | _ => none

/-- Take note of an option and its value. An option is given once at most. -/
def record (values : Values) (name : String) (value : Value) : Except Ending Values :=
  if values.isOn name then throw (.failed (.repeatedOption name))
  else return (name, value) :: values

/-- Take note of an option and the text of its value. -/
def recordText (values : Values) (name : String) (kind : ValueKind) (text : String) :
    Except Ending Values :=
  match kind.read? text with
  | some value => values.record name value
  | none => throw (.failed (.invalidNumber name text))

end Values

/-- An option whose value is an argument of its own, with what the value stands for. The argument
is there once it is read. -/
structure Pending where
  name : String
  kind : ValueKind
  argument? : Option String
  deriving DecidableEq, Repr, Inhabited

/-- The options in front of an argument: those that were taken note of, and the one behind them
that still has to be. A value that is an argument of its own is looked at when the next option is
read, or at the end. -/
structure OptionReading where
  values : Values
  pending : Option Pending
  deriving DecidableEq, Repr, Inhabited

namespace OptionReading

/-- Take note of the last option. -/
def settle (reading : OptionReading) : Except Ending Values :=
  match reading.pending with
  | none => return reading.values
  | some ⟨name, kind, some text⟩ => reading.values.recordText name kind text
  | some ⟨name, _, none⟩ => throw (.failed (.missingValue name))

/-- Read an argument as the value of the last option, if that option waits for it. -/
def offer? (reading : OptionReading) (argument : String) : Option OptionReading :=
  match reading.pending with
  | some ⟨name, kind, none⟩ =>
      if kind.Takes argument then some
        ⟨reading.values, some ⟨name, kind, some argument⟩⟩ else none
  | _ => none

end OptionReading

/-- Read an option by its long name. -/
def readLong (specs : List OptionSpec) (values : Values) (name : List Char) :
    Except Ending OptionReading :=
  let key := String.ofList (name.takeWhile (· ≠ '='))
  match specs.find? (·.long = key), name.dropWhile (· ≠ '=') with
  | none, _ => throw (.failed (.unknownOption ("--" ++ key)))
  | some ⟨_, _, .value kind⟩, [] => return ⟨values, some ⟨key, kind, none⟩⟩
  | some ⟨_, _, .value kind⟩, _ :: text =>
      return ⟨← values.recordText key kind (String.ofList text), none⟩
  | some _, _ :: _ => throw (.failed (.unexpectedValue key))
  | some ⟨_, _, .switch⟩, [] => return ⟨← values.record key .on, none⟩
  | some ⟨_, _, .notice notice⟩, [] => throw (.asked notice)

/-- Read options by their letters. The first one with a value takes the rest of the argument, or the
next argument. -/
def readShort (specs : List OptionSpec) (values : Values) :
    List Char → Except Ending OptionReading
  | [] => return ⟨values, none⟩
  | letter :: letters =>
      match specs.find? (·.short = some letter) with
      | none => throw (.failed (.unknownOption (String.ofList ['-', letter])))
      | some ⟨name, _, .value kind⟩ =>
          match letters with
          | [] => return ⟨values, some ⟨name, kind, none⟩⟩
          | '=' :: text | text =>
              return ⟨← values.recordText name kind (String.ofList text), none⟩
      | some ⟨name, _, .switch⟩ => do readShort specs (← values.record name .on) letters
      | some ⟨_, _, .notice notice⟩ => throw (.asked notice)

/-- What stands in front of the next plain argument. With `plain`, there is one, and options may
follow it. With `allPlain`, all other arguments are plain. -/
inductive Scan where
  | plain (reading : OptionReading) (argument : String) (rest : List String)
  | allPlain (reading : OptionReading) (rest : List String)
  deriving DecidableEq, Repr, Inhabited

/-- Read options up to the next plain argument. After two hyphens all arguments are plain. -/
def scan (specs : List OptionSpec) (reading : OptionReading) : List String → Except Ending Scan
  | [] => return .allPlain reading []
  | argument :: rest =>
      match reading.offer? argument with
      | some reading => scan specs reading rest
      | none =>
          match argument.toList with
          | ['-', '-'] => return .allPlain reading rest
          | '-' :: '-' :: name => do
              scan specs (← readLong specs (← reading.settle) name) rest
          | '-' :: letter :: letters => do
              scan specs (← readShort specs (← reading.settle) (letter :: letters)) rest
          | _ => return .plain reading argument rest

/-- The options that every command knows. -/
def globalOptions : List OptionSpec :=
  [⟨"flags", some 'f', .value .text⟩, ⟨"verbose", some 'v', .switch⟩,
   ⟨"help", some 'h', .notice .help⟩]

/-- The options in front of a command. -/
def mainOptions : List OptionSpec :=
  ⟨"version", some 'V', .notice .version⟩ :: globalOptions

/-- A command without its options: generate strings, list smaller strings, show the bounds on the
length, or show the tree. -/
inductive CommandName where
  | generate
  | shrink
  | bounds
  | ast
  deriving DecidableEq, Repr, Inhabited

namespace CommandName

/-- The command of a given name. -/
def ofString? : String → Option CommandName
  | "generate" => some generate
  | "shrink" => some shrink
  | "bounds" => some bounds
  | "ast" => some ast
  | _ => none

/-- The options that a command knows. -/
def options : CommandName → List OptionSpec
  | generate =>
      ⟨"seed", some 's', .value .signed⟩ :: ⟨"length", some 'l', .value .size⟩ ::
        ⟨"count", some 'n', .value .size⟩ :: ⟨"threads", some 't', .value .size⟩ ::
        ⟨"json", none, .switch⟩ :: globalOptions
  | shrink =>
      ⟨"seed", some 's', .value .signed⟩ :: ⟨"length", some 'l', .value .size⟩ ::
        ⟨"limit", none, .value .size⟩ :: ⟨"json", none, .switch⟩ :: globalOptions
  | bounds => ⟨"json", none, .switch⟩ :: globalOptions
  | ast => globalOptions

end CommandName

/-- A command with its options. -/
inductive Command where
  | generate (seed : Option Int) (length count : Nat) (threads : Option Nat) (json : Bool)
  | shrink (seed : Int) (length limit : Nat) (json : Bool)
  | bounds (json : Bool)
  | ast
  deriving DecidableEq, Repr, Inhabited

/-- The command with a given name and options. -/
def Command.ofValues (values : Values) : CommandName → Except Ending Command
  | .generate =>
      return generate (values.signed? "seed") ((values.size? "length").getD 32)
        ((values.size? "count").getD 1) (values.size? "threads") (values.isOn "json")
  | .shrink =>
      match values.signed? "seed" with
      | some seed =>
          return shrink seed ((values.size? "length").getD 32) ((values.size? "limit").getD 20)
            (values.isOn "json")
      | none => throw (.failed (.missingOption "seed"))
  | .bounds => return bounds (values.isOn "json")
  | .ast => return ast

/-- Read the arguments behind the name of a command: its options and its pattern. -/
def readCommand (name : CommandName) (arguments : List String) :
    Except Ending (Values × Command × String) := do
  let (reading, patterns) ←
    match ← scan name.options ⟨[], none⟩ arguments with
    | .allPlain reading patterns => pure (reading, patterns)
    | .plain reading pattern rest =>
        match ← scan name.options reading rest with
        | .allPlain reading more => pure (reading, pattern :: more)
        | .plain _ argument _ => throw (.failed (.unexpectedArgument argument))
  let values ← reading.settle
  match patterns with
  | [] => throw (.failed .missingPattern)
  | [pattern] => return (values, ← Command.ofValues values name, pattern)
  | _ :: argument :: _ => throw (.failed (.unexpectedArgument argument))

/-- Read the arguments behind `help`: the name of a command, or nothing. -/
def readHelp : List String → Ending
  | [] => .asked .help
  | name :: rest =>
      if name = "help" ∨ (CommandName.ofString? name).isSome then
        match rest with
        | [] => .asked .help
        | argument :: _ => .failed (.unknownCommand argument)
      else .failed (.unknownCommand name)

/-- What a command line asks for: a notice, or a command on a pattern under flags. -/
inductive Invocation where
  | notice (notice : Notice)
  | command (command : Command) (pattern flags : String)
  deriving DecidableEq, Repr, Inhabited

namespace Invocation

/-- Read a command line up to the point where the rest no longer matters. An option that stands
right in front of the command, with a value of its own argument, is taken note of after the
arguments of the command. -/
def read (arguments : List String) : Except Ending Invocation := do
  match ← scan mainOptions ⟨[], none⟩ arguments with
  | .allPlain _ [] => throw (.failed .missingCommand)
  | .allPlain _ (argument :: _) => throw (.failed (.unexpectedArgument argument))
  | .plain reading name rest =>
      match CommandName.ofString? name with
      | some name => do
          let (inner, action, pattern) ← readCommand name rest
          let outer ← reading.settle
          return .command action pattern
            ((inner.text? "flags").getD ((outer.text? "flags").getD ""))
      | none => throw (if name = "help" then readHelp rest else .failed (.unknownCommand name))

/-- Read a command line. -/
def ofArguments (arguments : List String) : Except UsageError Invocation :=
  match read arguments with
  | .ok invocation => .ok invocation
  | .error (.asked topic) => .ok (.notice topic)
  | .error (.failed error) => .error error

end Invocation

end Exemplar.CommandLine
