import Mapkeys.Text.Integer
import Mapkeys.Text.Quoted

/-!
# Command-line options

What the arguments of a command say, given the options and the operand that the command has. An
option may be shortened as long as one name fits, its value may be attached to it (`--limit=3`,
`-fjson`) or follow it, and options of one letter that take no value may be written together
(`-tv`). After two dashes alone every argument is an operand.
-/

namespace Mapkeys.Options

open Text

/-! ## Grammars -/

/-- How many values an option takes. -/
inductive Takes where
  | nothing
  | one
  | several
  deriving Repr, DecidableEq

/-- What the value of an option must be. -/
inductive Rule where
  | anything
  | integer
  | oneOf (choices : List Text)
  deriving Repr, DecidableEq

/-- What an option does: it asks for help, or it gives a setting its values. -/
inductive Effect (κ : Type) where
  | help
  | set (key : κ)
  deriving Repr, DecidableEq

/-- An option: its names, its effect, and what it takes. -/
structure Spec (κ : Type) where
  names : List Text
  effect : Effect κ
  takes : Takes
  rule : Rule
  required : Bool
  deriving Repr, DecidableEq

/-- The options of a command, and the setting and the name of its operand if it has one. -/
structure Grammar (κ : Type) where
  options : List (Spec κ)
  operand : Option (κ × Text)
  deriving Repr, DecidableEq

/-- How an option is called in messages. -/
def Spec.title {κ : Type} (spec : Spec κ) : Text := join ['/'] spec.names

/-- The option that asks for help. -/
def Spec.help {κ : Type} : Spec κ :=
  ⟨["-h".toList, "--help".toList], .help, .nothing, .anything, false⟩

/-! ## Errors -/

/-- How arguments can be misused. -/
inductive Misuse where
  | ambiguous (argument : Text) (names : List Text)
  | expectedOne (option : Text)
  | expectedSome (option : Text)
  | ignoredValue (option value : Text)
  | invalidInteger (option value : Text)
  | invalidChoice (option value : Text) (choices : List Text)
  | missing (names : List Text)
  | unrecognized (arguments : List Text)
  | below (option : Text) (least : Int)
  deriving Repr, DecidableEq

/-- What is said about the value of an option. -/
def about (option : Text) (remark : Text) : Text :=
  "argument ".toList ++ option ++ ": ".toList ++ remark

/-- What is said about a misuse. -/
def Misuse.message : Misuse → Text
  | .ambiguous argument names =>
    "ambiguous option: ".toList ++ argument ++ " could match ".toList ++ join [',', ' '] names
  | .expectedOne option => about option "expected one argument".toList
  | .expectedSome option => about option "expected at least one argument".toList
  | .ignoredValue option value =>
    about option ("ignored explicit argument ".toList ++ quoted value)
  | .invalidInteger option value => about option ("invalid int value: ".toList ++ quoted value)
  | .invalidChoice option value choices =>
    about option ("invalid choice: ".toList ++ quoted value ++ " (choose from ".toList
      ++ join [',', ' '] (choices.map quoted) ++ [')'])
  | .missing names =>
    "the following arguments are required: ".toList ++ join [',', ' '] names
  | .unrecognized arguments => "unrecognized arguments: ".toList ++ join [' '] arguments
  | .below option least => option ++ " must be at least ".toList ++ ofInt least

/-- Why the arguments give no settings: help is asked for, or they are misused. -/
inductive Stop where
  | help
  | misuse (misuse : Misuse)
  deriving Repr, DecidableEq

/-! ## Reading one argument -/

/-- An argument taken for an option: the option, the name it goes by, and an attached value. -/
structure Use (κ : Type) where
  spec : Spec κ
  name : Text
  attached : Option Text
  deriving Repr, DecidableEq

/-- What an argument is. -/
inductive Item (κ : Type) where
  | value (argument : Text)
  | separator
  | option (use : Use κ)
  | unknown (argument : Text)
  deriving Repr, DecidableEq

section
variable {κ : Type}

/-- The names of all options, each with its option. -/
def Grammar.names (grammar : Grammar κ) : List (Text × Spec κ) :=
  grammar.options.flatMap fun spec => spec.names.map (·, spec)

/-- The option of a name. -/
def Grammar.find? (grammar : Grammar κ) (name : Text) : Option (Spec κ) :=
  grammar.names.lookup name

/-- An argument before and after its first equals sign. -/
def splitValue (argument : Text) : Text × Option Text :=
  match argument.dropWhile (· ≠ '=') with
  | [] => (argument, none)
  | _ :: value => (argument.takeWhile (· ≠ '='), some value)

/-- The options that an argument may be short for, or of which it is the one letter with a value
    attached. -/
def Grammar.candidates (grammar : Grammar κ) (argument : Text) : List (Use κ) :=
  if beginsWith argument ['-', '-'] then
    let (short, attached) := splitValue argument
    (grammar.names.filter fun (name, _) => beginsWith name short).map
      fun (name, spec) => ⟨spec, name, attached⟩
  else
    grammar.names.filterMap fun (name, spec) =>
      if name = argument.take 2 then some ⟨spec, name, some (argument.drop 2)⟩
      else if beginsWith name argument then some ⟨spec, name, none⟩
      else none

/-- Whether every character is a digit, and there is one. -/
def allDigits (t : Text) : Bool := t ≠ [] && t.all fun c => (digitValue? c).isSome

/-- Whether an argument is a negative number: digits, or digits and a point and digits of which
    those before the point may be left out. A line feed at its end does not matter. -/
def isNegativeNumber (argument : Text) : Bool :=
  match argument with
  | '-' :: rest =>
    let number := if rest.getLast? = some '\n' then rest.dropLast else rest
    let whole := number.takeWhile (· ≠ '.')
    match number.drop whole.length with
    | [] => allDigits whole
    | _ :: decimals => (whole = [] || allDigits whole) && allDigits decimals
  | _ => false

/-- What an argument is that no option fits. A negative number, or an argument with a space, is a
    value although it begins with a dash. -/
def unmatched (argument : Text) : Item κ :=
  if isNegativeNumber argument || argument.contains ' ' then .value argument
  else .unknown argument

/-- What an argument is. -/
def Grammar.read (grammar : Grammar κ) (argument : Text) : Except Misuse (Item κ) :=
  if argument.head? ≠ some '-' then .ok (.value argument)
  else match grammar.find? argument with
    | some spec => .ok (.option ⟨spec, argument, none⟩)
    | none =>
      if argument.length = 1 then .ok (.value argument)
      else
        let (name, value) := splitValue argument
        match value, grammar.find? name with
        | some attached, some spec => .ok (.option ⟨spec, name, some attached⟩)
        | _, _ =>
          match grammar.candidates argument with
          | [] => .ok (unmatched argument)
          | [use] => .ok (.option use)
          | uses => .error (.ambiguous argument (uses.map Use.name))

/-- What the arguments are. -/
def Grammar.readAll (grammar : Grammar κ) : List Text → Except Misuse (List (Item κ))
  | [] => .ok []
  | argument :: rest =>
    if argument = ['-', '-'] then .ok (.separator :: rest.map .value)
    else do
      let item ← grammar.read argument
      let others ← grammar.readAll rest
      return item :: others

/-! ## Values of options -/

/-- Options with their values, and how many of the following arguments these are. -/
abbrev Taken (κ : Type) := List (Spec κ × List Text) × Nat

/-- An option that takes its values from the arguments that follow. -/
def takeFollowing (spec : Spec κ) (following : List Text) : Except Misuse (Taken κ) :=
  match spec.takes, following with
  | .nothing, _ => .ok ([(spec, [])], 0)
  | .one, value :: _ => .ok ([(spec, [value])], 1)
  | .one, [] => .error (.expectedOne spec.title)
  | .several, [] => .error (.expectedSome spec.title)
  | .several, values => .ok ([(spec, values)], values.length)

/-- An option of one letter with the letters attached to it: they are its value if it takes one,
    and otherwise options of one letter themselves. -/
def takeLetters (grammar : Grammar κ) (following : List Text) (spec : Spec κ) :
    (letters : Text) → Except Misuse (Taken κ)
  | [] => takeFollowing spec following
  | letter :: rest =>
    match spec.takes with
    | .nothing =>
      match grammar.find? ['-', letter] with
      | some next => do
        let (others, count) ← takeLetters grammar following next rest
        return ((spec, []) :: others, count)
      | none => .error (.ignoredValue spec.title (letter :: rest))
    | _ => .ok ([(spec, [letter :: rest])], 0)

/-- The options that one argument stands for, with their values. -/
def takeUse (grammar : Grammar κ) (use : Use κ) (following : List Text) :
    Except Misuse (Taken κ) :=
  match use.attached with
  | none => takeFollowing use.spec following
  | some attached =>
    if attached ≠ [] ∧ !beginsWith use.name ['-', '-'] then
      takeLetters grammar following use.spec attached
    else if use.spec.takes = .nothing then .error (.ignoredValue use.spec.title attached)
    else .ok ([(use.spec, [attached])], 0)

/-- Checks a value of an option. -/
def Spec.check (spec : Spec κ) (value : Text) : Except Misuse Unit :=
  match spec.rule with
  | .anything => .ok ()
  | .integer =>
    if (readInt? value).isSome then .ok () else .error (.invalidInteger spec.title value)
  | .oneOf choices =>
    if choices.contains value then .ok () else .error (.invalidChoice spec.title value choices)

/-! ## Settings -/

/-- What has been read: the settings in order, and the arguments that nothing takes. -/
structure Parsed (κ : Type) where
  settings : List (κ × List Text)
  extras : List Text
  deriving Repr, DecidableEq

/-- Adds values of a setting. -/
def Parsed.set (parsed : Parsed κ) (key : κ) (values : List Text) : Parsed κ :=
  { parsed with settings := parsed.settings ++ [(key, values)] }

/-- Adds an argument that nothing takes. -/
def Parsed.leave (parsed : Parsed κ) (argument : Text) : Parsed κ :=
  { parsed with extras := parsed.extras ++ [argument] }

/-- Lets options take effect one after the other. -/
def apply (parsed : Parsed κ) : List (Spec κ × List Text) → Except Stop (Parsed κ)
  | [] => .ok parsed
  | (spec, values) :: rest =>
    match values.forM spec.check with
    | .error misuse => .error (.misuse misuse)
    | .ok () =>
      match spec.effect with
      | .help => .error .help
      | .set key => apply (parsed.set key values) rest

/-- The values at the beginning of the items. -/
def leadingValues : List (Item κ) → List Text
  | .value argument :: rest => argument :: leadingValues rest
  | _ => []

/-- How many separators stand at the beginning of the items. -/
def leadingSeparators : List (Item κ) → Nat
  | .separator :: _ => 1
  | _ => 0

/-- Goes through the items but the first `skip`, which have been taken. The first value that no
    option takes is the operand, which `wanted` names as long as it is missing; a separator before
    or after it goes with it. -/
def consume (grammar : Grammar κ) :
    (wanted : Option κ) → (parsed : Parsed κ) → (skip : Nat) → List (Item κ) →
      Except Stop (Option κ × Parsed κ)
  | wanted, parsed, _, [] => .ok (wanted, parsed)
  | wanted, parsed, skip + 1, _ :: rest => consume grammar wanted parsed skip rest
  | wanted, parsed, 0, .unknown argument :: rest =>
    consume grammar wanted (parsed.leave argument) 0 rest
  | wanted, parsed, 0, .option use :: rest =>
    match takeUse grammar use (leadingValues rest) with
    | .error misuse => .error (.misuse misuse)
    | .ok (uses, count) =>
      match apply parsed uses with
      | .error stop => .error stop
      | .ok after => consume grammar wanted after count rest
  | some key, parsed, 0, .value argument :: rest =>
    consume grammar none (parsed.set key [argument]) (leadingSeparators rest) rest
  | none, parsed, 0, .value argument :: rest =>
    consume grammar none (parsed.leave argument) 0 rest
  | wanted, parsed, 0, .separator :: rest =>
    match wanted, leadingValues rest with
    | some key, argument :: _ => consume grammar none (parsed.set key [argument]) 1 rest
    | _, _ => consume grammar wanted (parsed.leave ['-', '-']) 0 rest

/-- Whether a setting has been given. -/
def Parsed.has [DecidableEq κ] (parsed : Parsed κ) (key : κ) : Bool :=
  parsed.settings.any (·.1 = key)

/-- Whether an option that must be given is not. -/
def Spec.isMissing [DecidableEq κ] (spec : Spec κ) (parsed : Parsed κ) : Bool :=
  match spec.effect with
  | .help => false
  | .set key => spec.required && !parsed.has key

/-- The names of what must be given and is not. -/
def Grammar.missing [DecidableEq κ] (grammar : Grammar κ) (wanted : Option κ) (parsed : Parsed κ) :
    List Text :=
  (match wanted, grammar.operand with
    | some _, some (_, name) => [name]
    | _, _ => [])
    ++ (grammar.options.filter (·.isMissing parsed)).map Spec.title

/-- The settings that arguments give, in order. -/
def Grammar.parse [DecidableEq κ] (grammar : Grammar κ) (arguments : List Text) :
    Except Stop (List (κ × List Text)) :=
  match grammar.readAll arguments with
  | .error misuse => .error (.misuse misuse)
  | .ok items =>
    match consume grammar (grammar.operand.map Prod.fst) ⟨[], []⟩ 0 items with
    | .error stop => .error stop
    | .ok (wanted, parsed) =>
      if grammar.missing wanted parsed ≠ [] then
        .error (.misuse (.missing (grammar.missing wanted parsed)))
      else if parsed.extras ≠ [] then .error (.misuse (.unrecognized parsed.extras))
      else .ok parsed.settings

/-- The values of a setting the last time it was given. -/
def values? [DecidableEq κ] (settings : List (κ × List Text)) (key : κ) : Option (List Text) :=
  settings.reverse.lookup key

/-- The value of a setting the last time it was given. -/
def value? [DecidableEq κ] (settings : List (κ × List Text)) (key : κ) : Option Text :=
  (values? settings key).bind List.head?

end
end Mapkeys.Options
