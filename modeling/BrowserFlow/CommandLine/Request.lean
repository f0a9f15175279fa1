import BrowserFlow.CommandLine.Assignment
import BrowserFlow.CommandLine.Usage

/-!
The words of the command line read. Switches may stand anywhere; a switch that
the program does not know, with everything behind it that is no switch of the
program, is left to the command. Two hyphens end the switches. What cannot be
carried out ends the program: help and the version as well as refusals. Main
statement: words of which none is a switch are all operands.
-/

set_option autoImplicit false
set_option relaxedAutoImplicit false

namespace BrowserFlow

/-! ### Switches and operands -/

/-- Words sorted into switches, operands and the rest. -/
structure Sorted where
  /-- The known switches with their operands, in order. -/
  given : List (Switch × Option Text)
  /-- The switch at the end whose operand is missing. -/
  lacking : Option Switch
  /-- The operands. -/
  operands : List Text
  /-- The first unknown switch and what follows it. -/
  unknown : List Text

namespace Sorted

/-- The sorting of no words. -/
def empty : Sorted := ⟨[], none, [], []⟩

/-- A known switch in front. -/
def give (switch : Switch) (operand : Option Text) (s : Sorted) : Sorted :=
  { s with given := (switch, operand) :: s.given }

/-- A word in front that is no known switch; behind an unknown switch it belongs to it. -/
def pass (away : Bool) (word : Text) (s : Sorted) : Sorted :=
  if away then { s with unknown := word :: s.unknown }
  else { s with operands := word :: s.operands }

/-- Whether a word looks like a switch. -/
def isSwitch (word : Text) : Bool := word.startsWith "-" && 1 < word.length

/-- The word behind which there are no switches. -/
def separator : Text := "--"

/-- The known switch that a word begins with, and the rest of the word: a short switch with
something joined to it, or a long one with an operand behind an equals sign. -/
def joined? (switches : List Switch) (word : Text) : Option (Switch × Text) :=
  if word.startsWith separator then do
    let (long, operand) ← Text.breakOn? ['='] word.units
    let switch ← switches.find? fun switch ↦ switch.isNamed ⟨long⟩
    if switch.operand.isSome then some (switch, ⟨operand⟩) else none
  else if 2 < word.length then do
    let switch ← switches.find? fun switch ↦ switch.isNamed ⟨word.units.take 2⟩
    some (switch, ⟨word.units.drop 2⟩)
  else none

/-- Words sorted, at most so many steps far; whether an unknown switch has been seen. -/
def sort (switches : List Switch) : Nat → Bool → List Text → Sorted
  | 0, _, _ => empty
  | _ + 1, _, [] => empty
  | fuel + 1, away, word :: rest =>
    if word = separator then
      if away then { empty with unknown := word :: rest } else { empty with operands := rest }
    else if !isSwitch word then pass away word (sort switches fuel away rest)
    else
      match switches.find? (·.isNamed word), joined? switches word with
      | some switch, _ =>
        match switch.operand, rest with
        | none, _ => give switch none (sort switches fuel away rest)
        | some _, operand :: more => give switch (some operand) (sort switches fuel away more)
        | some _, [] => { empty with lacking := some switch }
      | none, some (switch, remainder) =>
        if switch.operand.isSome then give switch (some remainder) (sort switches fuel away rest)
        else give switch none (sort switches fuel away (("-" ++ remainder) :: rest))
      | none, none => pass true word (sort switches fuel true rest)

/-- Words sorted. -/
def ofWords (switches : List Switch) (words : List Text) : Sorted :=
  sort switches ((words.map fun word ↦ word.length + 1).foldl (· + ·) 1) false words

end Sorted

/-! ### Ends and requests -/

/-- Why the program ends without a request. -/
inductive UsageEnd where
  /-- The version was asked for. -/
  | version
  /-- Help is given as a command, or for want of one. -/
  | help
  /-- Help was asked for by a switch. -/
  | helpDisplayed
  /-- There is no such command. -/
  | unknownCommand
  /-- There is no such switch. -/
  | unknownOption
  /-- An operand of a command is missing. -/
  | missingArgument
  /-- The operand of a switch is missing. -/
  | optionMissingArgument
  /-- The operand of a switch is refused. -/
  | invalidArgument
  deriving DecidableEq

namespace UsageEnd

/-- The word for an end. -/
def name : UsageEnd → Text
  | .version => "version"
  | .help => "help"
  | .helpDisplayed => "helpDisplayed"
  | .unknownCommand => "unknownCommand"
  | .unknownOption => "unknownOption"
  | .missingArgument => "missingArgument"
  | .optionMissingArgument => "optionMissingArgument"
  | .invalidArgument => "invalidArgument"

end UsageEnd

/-- The end of the program without a request. -/
structure Parting where
  /-- Why it ends. -/
  cause : UsageEnd
  /-- What it shows. -/
  shown : Text
  /-- The words for the end. -/
  message : Text
  /-- The exit code; what ends well is shown as output, and anything else as a complaint. -/
  exitCode : Nat

namespace Parting

/-- A refusal. -/
def refusal (cause : UsageEnd) (message : Text) : Parting := ⟨cause, message, message, 1⟩

/-- Help, given by a command or for want of one. -/
def help (shown : Text) (exitCode : Nat) : Parting := ⟨.help, shown, "(outputHelp)", exitCode⟩

/-- Help that was asked for by a switch. -/
def helpDisplayed (shown : Text) : Parting := ⟨.helpDisplayed, shown, "(outputHelp)", 0⟩

/-- The version. -/
def version : Parting := ⟨.version, Program.version, Program.version, 0⟩

/-- A switch that is not known to a command or, without one, to the program. Only for a long switch
another one may have been meant. -/
def unknownSwitch (switches : List Switch) (word : Text) : Parting :=
  let known := (switches ++ [Switch.help, Switch.version]).map Switch.long
  refusal .unknownOption ("error: unknown option '" ++ word ++ "'"
    ++ if word.startsWith Suggestion.switchMark then Suggestion.ofWord word known else Text.empty)

/-- A command that is not known. -/
def unknownCommand (word : Text) : Parting :=
  let known := Command.all.map Command.name ++ [Program.helpName]
  refusal .unknownCommand
    ("error: unknown command '" ++ word ++ "'" ++ Suggestion.ofWord word known)

/-- A missing operand of a command. -/
def missingOperand : Parting :=
  refusal .missingArgument ("error: missing required argument '" ++ Command.operandName ++ "'")

/-- A missing operand of a switch. -/
def missingSwitchOperand (switch : Switch) : Parting :=
  refusal .optionMissingArgument ("error: option '" ++ switch.term ++ "' argument missing")

/-- A refused operand of a switch. -/
def refusedOperand (switch : Switch) (operand reason : Text) : Parting :=
  refusal .invalidArgument
    ("error: option '" ++ switch.term ++ "' argument '" ++ operand ++ "' is invalid. " ++ reason)

end Parting

/-- What the switches of a run say. -/
structure RunSwitches where
  /-- The variables that are set. -/
  bindings : Entries Value
  /-- The variables that the result shows, if not all. -/
  exported : Option (List Text)
  /-- The directory of storage. -/
  storageDir : Option Text
  /-- The directory of runs. -/
  runDir : Option Text
  /-- Whether the browser has a window. -/
  headed : Bool

namespace RunSwitches

/-- No switches. -/
def none : RunSwitches := ⟨[], .none, .none, .none, false⟩

/-- What a switch says, added. -/
def add (flags : RunSwitches) (given : Switch × Option Text) : Except Parting RunSwitches :=
  let operand := given.2.getD Text.empty
  if given.1 = .assign then
    match Assignment.add flags.bindings operand with
    | .ok bindings => .ok { flags with bindings := bindings }
    | .error flaw => .error (.refusedOperand given.1 operand flaw.message)
  else if given.1 = .exported then .ok { flags with exported := some (Assignment.nameList operand) }
  else if given.1 = .storageDir then .ok { flags with storageDir := some operand }
  else if given.1 = .runDir then .ok { flags with runDir := some operand }
  else .ok { flags with headed := true }

end RunSwitches

/-- What the program is asked to do. -/
inductive Request where
  /-- To check a document. -/
  | validate (file : Text)
  /-- To run a document. -/
  | run (file : Text) (flags : RunSwitches)

namespace Request

/-- Whether words ask for help. -/
def asksForHelp (words : List Text) : Bool := words.any Switch.help.isNamed

/-- The help that the help command gives about a word. -/
def helpAbout (word : Option Text) : Parting :=
  match word with
  | none => .help Help.ofProgram 0
  | some word =>
    if word.isEmpty then .help Help.ofProgram 0
    else
      match Command.ofName? word with
      | some command => .help (Help.ofCommand command) 0
      | none => .help Help.ofProgram 1

/-- The request to a command, from its operands and the words that the program left to it. -/
def ofCommand (command : Command) (operands left : List Text) : Except Parting Request := do
  let sorted := Sorted.ofWords command.switches left
  let flags ← sorted.given.foldlM RunSwitches.add RunSwitches.none
  match sorted.lacking with
  | some switch => throw (.missingSwitchOperand switch)
  | none =>
    if asksForHelp sorted.unknown then throw (.helpDisplayed (Help.ofCommand command))
    match sorted.unknown, operands ++ sorted.operands with
    | word :: _, _ => throw (.unknownSwitch command.switches word)
    | [], [] => throw .missingOperand
    | [], file :: _ =>
      match command with
      | .validate => return .validate file
      | .run => return .run file flags

/-- The request of the words of a command line. -/
def ofWords (words : List Text) : Except Parting Request :=
  let sorted := Sorted.ofWords [.version] words
  if !sorted.given.isEmpty then .error .version
  else
    match sorted.operands with
    | [] =>
      match sorted.unknown with
      | [] => .error (.help Help.ofProgram 1)
      | word :: _ =>
        if asksForHelp sorted.unknown then .error (.helpDisplayed Help.ofProgram)
        else .error (.unknownSwitch [.version] word)
    | name :: operands =>
      match Command.ofName? name with
      | some command => ofCommand command operands sorted.unknown
      | none =>
        if name = Program.helpName then .error (helpAbout operands.head?)
        else if asksForHelp sorted.unknown then .error (.helpDisplayed Help.ofProgram)
        else .error (.unknownCommand name)

end Request

/-! ### Operands -/

/-- Words of which none looks like a switch are operands. -/
theorem Sorted.sort_of_operands (switches : List Switch) (words : List Text) (fuel : Nat)
    (hfuel : words.length < fuel) (h : ∀ word ∈ words, isSwitch word = false) :
    sort switches fuel false words = ⟨[], none, words, []⟩ := by
  induction words generalizing fuel with
  | nil =>
    cases fuel with
    | zero => omega
    | succ fuel => rfl
  | cons word rest ih =>
    cases fuel with
    | zero => simp at hfuel
    | succ fuel =>
      have hword := h word List.mem_cons_self
      have hne : word ≠ separator := by
        rintro rfl
        exact absurd hword (by decide)
      have hrest := ih fuel (by simpa using hfuel) fun w hw ↦ h w (List.mem_cons_of_mem _ hw)
      simp [sort, hne, hword, hrest, pass]

end BrowserFlow
