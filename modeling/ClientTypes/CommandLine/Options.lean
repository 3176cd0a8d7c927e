import ClientTypes.Text.Piece

/-!
Options among arguments.

An argument that begins with a hyphen and goes on is an option. Options of one letter may stand together
behind one hyphen, and the value of an option follows in the same argument or is the next one, whatever
that looks like. After `--` there are no more options. What an option sets is decided by the option that
comes last.
-/

namespace ClientTypes.CommandLine

inductive UsageFault where
  | noCommand
  | unknownCommand (name : String)
  | unknownOption (name : String)
  | valueMissing (option : String)
  | valueUnwanted (option : String)
  | argumentMissing (name : String)
  | optionMissing (name : String)
  | tooManyArguments (extra : List String)
  | pathMissing (name path : String)
deriving DecidableEq, Repr

def UsageFault.message : UsageFault → String
  | .noCommand => "Missing command."
  | .unknownCommand name => "No such command '" ++ name ++ "'."
  | .unknownOption name => "No such option: " ++ name
  | .valueMissing option => "Option '" ++ option ++ "' requires an argument."
  | .valueUnwanted option => "Option '" ++ option ++ "' does not take a value."
  | .argumentMissing name => "Missing argument '" ++ name ++ "'."
  | .optionMissing name => "Missing option '" ++ name ++ "'."
  | .tooManyArguments [extra] => "Got unexpected extra argument (" ++ extra ++ ")"
  | .tooManyArguments extra => "Got unexpected extra arguments (" ++ " ".intercalate extra ++ ")"
  | .pathMissing name path =>
    "Invalid value for '" ++ name ++ "': Path '" ++ path ++ "' does not exist."

/-- An option of a command, with the key of what it sets. -/
structure OptionForm (κ : Type) where
  names : List String
  key : κ
  takesValue : Bool := false

/-- What options set, in order. Options without a value set nothing but their key. -/
abbrev Given (κ : Type) := List (κ × Option String)

variable {κ : Type}

def formOf? (forms : List (OptionForm κ)) (name : String) : Option (OptionForm κ) :=
  forms.find? (·.names.contains name)

/-- The argument is an option. A hyphen alone is none. -/
def isOption (argument : String) : Bool :=
  match argument.toList with
  | '-' :: _ :: _ => true
  | _ => false

/-- The argument is spelled as an option of more than one letter. -/
def isLongOption (argument : String) : Bool := Text.startsWith "--" argument

/-- What one argument sets, and the option that still waits for its value, if there is one. -/
structure Reading (κ : Type) where
  given : Given κ := []
  waiting : Option (OptionForm κ × String) := none

/-- Read options of one letter from one argument. -/
def readLetters (forms : List (OptionForm κ)) : List Char → Except UsageFault (Reading κ)
  | [] => .ok {}
  | letter :: rest =>
    let name := String.ofList ['-', letter]
    match formOf? forms name with
    | none => .error (.unknownOption name)
    | some form =>
      if form.takesValue then
        if rest.isEmpty then .ok { waiting := some (form, name) }
        else .ok { given := [(form.key, some (String.ofList rest))] }
      else (readLetters forms rest).map fun more =>
        { more with given := (form.key, none) :: more.given }

/-- Read a long option from one argument. The value, if it is in the argument, stands behind the first
equals sign. -/
def readLong (forms : List (OptionForm κ)) (argument : String) : Except UsageFault (Reading κ) :=
  let cs := argument.toList
  let name := String.ofList (cs.takeWhile (· != '='))
  let value := match cs.dropWhile (· != '=') with
    | _ :: value => some (String.ofList value)
    | [] => none
  match formOf? forms name, value with
  | none, _ => .error (.unknownOption name)
  | some form, some value =>
    if form.takesValue then .ok { given := [(form.key, some value)] }
    else .error (.valueUnwanted name)
  | some form, none =>
    if form.takesValue then .ok { waiting := some (form, name) }
    else .ok { given := [(form.key, none)] }

/-- Read one argument that is an option. -/
def readOption (forms : List (OptionForm κ)) (argument : String) : Except UsageFault (Reading κ) :=
  if isLongOption argument then readLong forms argument
  else readLetters forms (argument.toList.drop 1)

def readWaiting (forms : List (OptionForm κ)) (anywhere : Bool) :
    (waiting : Option (OptionForm κ × String)) → List String →
    Except UsageFault (Given κ × List String)
  | some (_, name), [] => .error (.valueMissing name)
  | none, [] => .ok ([], [])
  | some (form, _), value :: rest => do
    let (given, others) ← readWaiting forms anywhere none rest
    return ((form.key, some value) :: given, others)
  | none, argument :: rest =>
    if argument = "--" then .ok ([], rest)
    else if isOption argument then do
      let reading ← readOption forms argument
      let (given, others) ← readWaiting forms anywhere reading.waiting rest
      return (reading.given ++ given, others)
    else if anywhere then do
      let (given, others) ← readWaiting forms anywhere none rest
      return (given, argument :: others)
    else .ok ([], argument :: rest)

/-- Read arguments: what the options set, and the arguments that are no options. Unless options may
stand anywhere, they end at the first argument that is none. -/
def readArguments (forms : List (OptionForm κ)) (anywhere : Bool) (arguments : List String) :
    Except UsageFault (Given κ × List String) :=
  readWaiting forms anywhere none arguments

def Given.has [DecidableEq κ] (given : Given κ) (key : κ) : Bool := given.any (·.1 = key)

/-- The last value of a key. -/
def Given.value? [DecidableEq κ] (given : Given κ) (key : κ) : Option String :=
  given.foldl (fun last e => if e.1 = key then e.2 else last) none

end ClientTypes.CommandLine
