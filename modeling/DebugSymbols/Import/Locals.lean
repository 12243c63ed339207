import DebugSymbols.Import.FrameBase
import DebugSymbols.Import.Session

/-!
Parameters and local variables of a function: each of their locations is a place on the stack,
or a register for a part of the function.
-/

namespace DebugSymbols

/-- A function under whose start variables are kept. -/
structure Frame where
  function : AddressRange
  base : FrameBase

/-- What became of a local variable. -/
inductive Placement where
  | placed
  | skipped
  /-- It is not local to the frame, but a variable of the whole program. -/
  | static
deriving DecidableEq, Repr

namespace Importer

/-- The type of a variable with its size, as far as it has been resolved. -/
def knownType (d : Die) : Attempt (Option (TypeLink × UInt64)) := do
  match ← Attempt.read (d.reference? .type) with
  | none => return none
  | some offset =>
    let s ← get
    match s.cache.type? offset with
    | none => return none
    | some (ordinal, _) =>
      match s.sizedLinkTo ordinal with
      | .ok sized => return some sized
      | .error (.sizeUnknown ordinal) =>
        Step.warn (.leftUntyped d.offset (.sizeUnknown ordinal))
        return none
      | .error e => throw e

/-- Registers keep a variable for a range only. -/
def holdInRegister (i : Importer) (frame : Frame) (name : String)
    (range : Option AddressRange) (number : UInt16) : Attempt Bool := do
  match range, i.config.machine.registerName number with
  | some range, some register =>
    match (← get).host.addRegisterVariable? frame.function.start ⟨range, register, name⟩ with
    | some h =>
      Step.setHost h
      return true
    | none => return false
  | _, _ => return false

/-- A variable whose name is on the stack already is not placed again. -/
def putOnStack (frame : Frame) (d : Die) (name : String) (offset : Int64) : Attempt Bool := do
  let start := frame.function.start
  if ((← get).host.stackVariable? start name).isSome then return true
  let sized ← knownType d
  let v : StackVariable := ⟨name, offset, (sized.map (·.2)).getD 0, sized.map (·.1)⟩
  match (← get).host.addStackVariable? start v with
  | some h =>
    Step.setHost h
    return true
  | none => return false

/-- Places a variable at a location, and tells whether that could be done. -/
def placeAt (i : Importer) (frame : Frame) (d : Die) (name : String)
    (range : Option AddressRange) : LocationAtom → Attempt Bool
  | .register number => i.holdInRegister frame name range number
  | .registerOffset number offset => do
    if number = i.config.machine.framePointer then putOnStack frame d name offset
    else return false
  | .frameOffset operand => do
    match frame.base.stackOffset? range operand with
    | some offset => putOnStack frame d name offset
    | none => return false
  | _ => return false

/-- Places a variable at one location after the other, up to a fixed address. -/
def placeAll (i : Importer) (frame : Frame) (d : Die) (name : String) :
    Bool → List Location → Attempt Placement
  | placed, [] => return if placed then .placed else .skipped
  | placed, l :: rest => do
    match l.single? with
    | none => i.placeAll frame d name placed rest
    | some (.address _) => return .static
    | some atom =>
      let done ← i.placeAt frame d name l.range atom
      i.placeAll frame d name (placed || done) rest

/-- Only a variable with a name and a location can be placed. -/
def placeVariable (i : Importer) (frame : Frame) (d : Die) : Attempt Placement := do
  let some name ← Attempt.read d.name? | return .skipped
  let some locations ← Attempt.read (d.locations? .location) | return .skipped
  i.placeAll frame d name false locations

/-- Places a variable and remembers what became of it. -/
def visitLocal (i : Importer) (frame : Frame) (d : Die) : Step Unit := do
  if (← get).cache.has d.offset then return
  match ← (i.placeVariable frame d).run with
  | .ok .placed =>
    Step.count fun s => { s with variablesPlaced := s.variablesPlaced + 1 }
    Step.updateCache (·.markPlaced d.offset)
  | .ok .skipped => skip
  | .ok .static => return
  | .error e =>
    Step.fail d.offset e
    skip
where
  skip : Step Unit := do
    Step.count fun s => { s with variablesSkipped := s.variablesSkipped + 1 }
    Step.updateCache (·.markUseless d.offset)

end Importer

end DebugSymbols
