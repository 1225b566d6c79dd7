import ConceptAtlas.Command.Arguments
import ConceptAtlas.Fault
import ConceptAtlas.Text.Terminal

/-!
# Sessions

What a command works in: a disk that it may change, two outputs that it adds to, and the endings
that can cut it short. Whatever was done before an ending stays done.
-/

namespace ConceptAtlas.Command

/-- How a command ends. -/
inductive Ending
  | done
  | failed
  | misused (cause : Misuse)
  | broken (cause : Breakdown)

/-- The exit code of an ending. -/
def Ending.code : Ending → Nat
  | .done => 0
  | .failed | .broken _ => 1
  | .misused _ => 2

/-- A disk, and what was written so far: the output in bytes, and remarks beside it. -/
structure Session where
  disk : Disk
  output : List UInt8
  remarks : String

/-- A step of a command. -/
abbrev Action := EStateM Ending Session

namespace Action

/-- Writes bytes to the output. -/
def put (bytes : List UInt8) : Action Unit :=
  modify fun s ↦ { s with output := s.output ++ bytes }

/-- A text as it is written: without terminal sequences. -/
def shown (text : String) : String := String.ofList (Text.withoutSequences text.toList)

/-- Writes a text to the output. -/
def write (text : String) : Action Unit := put (Text.encodeUtf8 (shown text))

/-- Writes lines to the output. -/
def say (lines : List String) : Action Unit := write (String.join (lines.map fun l ↦ l ++ "\n"))

/-- Writes a line beside the output. -/
def remark (line : String) : Action Unit :=
  modify fun s ↦ { s with remarks := s.remarks ++ shown line ++ "\n" }

/-- Ends a command that cannot do what it was asked for. -/
def fail {α : Type} (message : String) : Action α := do
  say [s!"❌ {message}"]
  throw .failed

/-- Ends a command whose arguments cannot be understood. -/
def misuse {α : Type} (cause : Misuse) : Action α := throw (.misused cause)

/-- The value of an outcome. A fault ends the command with its wording after a lead, a breakdown
ends it without. -/
def orFail {α : Type} (lead : String) : Outcome α → Action α
  | .ok a => pure a
  | .error (.fault f) => fail (lead ++ f.message)
  | .error (.breakdown b) => throw (.broken b)

/-- The value of an answer without breakdowns. -/
def orFault {α : Type} (lead : String) (x : Except Fault α) : Action α :=
  orFail lead (x.mapError Failure.fault)

/-- The disk. -/
def disk : Action Disk := do return (← get).disk

/-- Puts a disk in the place of the one before. -/
def setDisk (d : Disk) : Action Unit := modify fun s ↦ { s with disk := d }

end Action

/-- What came of a command. -/
structure Reply where
  disk : Disk
  output : List UInt8
  remarks : String
  ending : Ending

/-- Runs a command on a disk. -/
def Action.reply (a : Action Unit) (d : Disk) : Reply :=
  match a.run ⟨d, [], ""⟩ with
  | .ok _ s => ⟨s.disk, s.output, s.remarks, .done⟩
  | .error e s => ⟨s.disk, s.output, s.remarks, e⟩

end ConceptAtlas.Command
