import ClientTypes.Value

/-!
Reading typed records from values, with all faults at once.

A record is read field by field. A fault in one field does not hide the faults of the others: the
result is either the whole record, or the list of everything that is wrong, each with the path that
leads to it, in the order of the fields.
-/

namespace ClientTypes

/-- One step of the path from a value to a part of it. -/
inductive Step where
  /-- A named field of a record. -/
  | field (name : String)
  /-- The value under a key of a mapping. -/
  | key (k : Scalar)
  /-- An item of a list. -/
  | item (place : Nat)
  /-- The key itself, after the step to its entry. -/
  | keyItself
deriving DecidableEq, Repr

inductive Cause where
  | missing
  | notText
  | notFlag
  | unreadableFlag
  | notList
  | notMapping
  | notRecord
  | notListed
deriving DecidableEq, Repr

/-- A fault and the path to it, outermost step first. -/
structure Issue where
  path : List Step
  cause : Cause
deriving DecidableEq, Repr

/-- The result of a check: a value, or everything that is wrong. -/
inductive Checked (α : Type) where
  | valid (value : α)
  | invalid (issues : List Issue)
deriving Repr

namespace Checked

variable {α β : Type}

def map (f : α → β) : Checked α → Checked β
  | .valid a => .valid (f a)
  | .invalid issues => .invalid issues

/-- Apply a checked function to a checked value, collecting the faults of both in order. -/
def apply : Checked (α → β) → Checked α → Checked β
  | .valid f, .valid a => .valid (f a)
  | .valid _, .invalid issues => .invalid issues
  | .invalid issues, .valid _ => .invalid issues
  | .invalid issues, .invalid more => .invalid (issues ++ more)

instance : Functor Checked := ⟨map, fun a => map (fun _ => a)⟩
instance : Pure Checked := ⟨valid⟩
instance : Seq Checked := ⟨fun f a => apply f (a ())⟩

/-- A single fault at the value itself. -/
def refuse (cause : Cause) : Checked α := .invalid [⟨[], cause⟩]

/-- Put a step in front of the path of every fault. -/
def inside (step : Step) : Checked α → Checked α
  | .valid a => .valid a
  | .invalid issues => .invalid (issues.map fun issue => ⟨step :: issue.path, issue.cause⟩)

/-- The result as an exception, with the list of faults wrapped by `fault`. -/
def orThrow {ε : Type} (fault : List Issue → ε) : Checked α → Except ε α
  | .valid a => .ok a
  | .invalid issues => .error (fault issues)

def text : Value → Checked String
  | .text s => .valid s
  | _ => refuse .notText

def falseWords : List String := ["0", "off", "f", "false", "n", "no"]

def trueWords : List String := ["1", "on", "t", "true", "y", "yes"]

/-- The least integer of 64 bits with a sign. -/
def leastMachineInt : Int := -9223372036854775808

def isMachineInt (n : Int) : Bool := leastMachineInt ≤ n && n ≤ 9223372036854775807

/-- An integer as a truth value. Only zero and one are; integers beyond 64 bits are not even tried. -/
def flagOfInt (n : Int) : Checked Bool :=
  if n = 0 then .valid false
  else if n = 1 then .valid true
  else if isMachineInt n then refuse .unreadableFlag
  else refuse .notFlag

/-- A truth value: one as such, the numbers zero and one, or one of the usual words in any case. A
floating point number has to lie strictly between the bounds of 64 bits. -/
def flag : Value → Checked Bool
  | .bool b => .valid b
  | .int n => flagOfInt n
  | .float x => match x.toInt? with
    | some n => if n = leastMachineInt then refuse .notFlag else flagOfInt n
    | none => refuse .notFlag
  | .text s =>
    let word := String.ofList (s.toList.map Char.toLower)
    if falseWords.contains word then .valid false
    else if trueWords.contains word then .valid true
    else refuse .unreadableFlag
  | _ => refuse .notFlag

def any (v : Value) : Checked Value := .valid v

/-- Null, or a value that passes a check. -/
def optional (check : Value → Checked α) : Value → Checked (Option α)
  | .null => .valid none
  | v => (check v).map some

/-- Check the items of a list, the first of which stands at `place`. -/
def itemsFrom (check : Value → Checked α) (place : Nat) : List Value → Checked (List α)
  | [] => .valid []
  | v :: rest =>
    apply (((check v).inside (.item place)).map List.cons) (itemsFrom check (place + 1) rest)

def listOf (check : Value → Checked α) (v : Value) : Checked (List α) :=
  match v.opened with
  | .list items => itemsFrom check 0 items
  | _ => refuse .notList

/-- The key of an entry as a text. -/
def textKey : Scalar → Checked String
  | .text s => .valid s
  | k => (refuse .notText : Checked String).inside .keyItself |>.inside (.key k)

/-- Check the entries of a mapping: each key, then its value. -/
def entries (check : Value → Checked α) : List (Scalar × Value) → Checked (Table String α)
  | [] => .valid []
  | (k, v) :: rest =>
    apply (apply ((textKey k).map fun key value more => (key, value) :: more)
      ((check v).inside (.key k))) (entries check rest)

/-- A mapping with texts as keys whose values pass a check. -/
def tableOf (check : Value → Checked α) (v : Value) : Checked (Table String α) :=
  match v.opened with
  | .map es => entries check es
  | _ => refuse .notMapping

/-- One of a list of words, each with its meaning. -/
def oneOf (choices : List (String × α)) : Value → Checked α
  | .text s => match choices.lookup s with
    | some a => .valid a
    | none => refuse .notListed
  | _ => refuse .notListed

end Checked

def field? (entries : List (Scalar × Value)) (name : String) : Option Value :=
  match entries with
  | [] => none
  | (k, v) :: rest => if k = .text name then some v else field? rest name

namespace Checked

variable {α : Type}

def needed (entries : List (Scalar × Value)) (name : String) (check : Value → Checked α) :
    Checked α :=
  match field? entries name with
  | some v => (check v).inside (.field name)
  | none => (refuse .missing).inside (.field name)

/-- A field that may be left out for a default. -/
def fieldOr (entries : List (Scalar × Value)) (name : String) (default : α)
    (check : Value → Checked α) : Checked α :=
  match field? entries name with
  | some v => (check v).inside (.field name)
  | none => .valid default

/-- A field under either of two names, the first of which wins, that may be left out. -/
def eitherOr (entries : List (Scalar × Value)) (name second : String) (default : α)
    (check : Value → Checked α) : Checked α :=
  match field? entries name with
  | some v => (check v).inside (.field name)
  | none => fieldOr entries second default check

/-- A record, read from the entries of a mapping. -/
def recordOf (read : List (Scalar × Value) → Checked α) (v : Value) : Checked α :=
  match v.opened with
  | .map es => read es
  | _ => refuse .notRecord

end Checked

end ClientTypes
