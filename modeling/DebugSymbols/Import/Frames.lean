import DebugSymbols.Import.Layout
import DebugSymbols.Import.Locals

/-!
Functions, variables of the whole program, and labels.
-/

namespace DebugSymbols.Importer

/-- Places the variables of a function that the database knows.  The function itself is no
variable. -/
def placeLocals (i : Importer) (d : Die) : Attempt Bool := do
  let some lowPc ← Attempt.read (d.address? .lowPc) | return false
  let some function := (← get).host.functionAt? lowPc | return false
  let locations ← Attempt.read (d.locations? .frameBase)
  let base := FrameBase.ofLocations (locations.getD []) function i.config.machine
  let locals := d.children.filter fun c => c.tag = .formalParameter || c.tag = .variable_
  let visit : Step Unit := locals.forM (i.visitLocal ⟨function, base⟩)
  visit
  return false

/-- The address of a variable that lives at a single fixed place. -/
def fixedAddress? : List Location → Option UInt64
  | [⟨_, [.address address]⟩] => some address
  | _ => none

/-- Names the address of a variable, if that is allowed. -/
def nameGlobal (address : UInt64) (name : String) : Attempt Bool := do
  let some h := (← get).host.setName? address name false | return false
  Step.setHost h
  Step.count fun s => { s with globalsPlaced := s.globalsPlaced + 1 }
  return true

/-- Names and types the address of a variable.  A definition without a name has those of its
declaration. -/
def placeGlobal (i : Importer) (d : Die) : Attempt Bool := do
  if ← Attempt.read d.isDeclaration then return false
  let some locations ← Attempt.read (d.locations? .location) | return false
  let some address := fixedAddress? locations | return false
  let declaration ← Attempt.read (i.info.follow? d .specification)
  let source := if d.hasAttribute .name then d else declaration.getD d
  let some name ← Attempt.read source.name? | return false
  if let some (type, size) ← knownType source then
    Step.setHost ((← get).host.applyType address type size)
  nameGlobal address name

/-- The name and the address of a label, one of which can be that of its origin. -/
def labelParts (i : Importer) (d : Die) : Die.Access (Option String × Option UInt64) := do
  let name ← d.name?
  let address ← d.address? .lowPc
  if name.isNone == address.isNone then return (name, address)
  match ← i.info.follow? d .abstractOrigin with
  | none => return (name, address)
  | some origin =>
    match name with
    | none => return (← origin.name?, address)
    | some _ => return (name, ← origin.address? .lowPc)

def nameLabel (i : Importer) (d : Die) : Attempt Bool := do
  let (some name, some address) ← Attempt.read (i.labelParts d) | return false
  let some h := (← get).host.setName? address name true | return false
  Step.setHost h
  Step.count fun s => { s with labelsNamed := s.labelsNamed + 1 }
  return true

/-- What is done with an entry, which tells whether it is a variable or a label now. -/
def frameHandler? (i : Importer) (d : Die) : Option (Attempt Bool) :=
  match d.tag with
  | .subprogram => some (i.placeLocals d)
  | .variable_ => some (i.placeGlobal d)
  | .label => some (i.nameLabel d)
  | _ => none

/-- Visits an entry, and tells whether it is of a kind that something is done with. -/
def visitPlaced (i : Importer) (d : Die) : Step Bool := do
  match i.frameHandler? d with
  | none =>
    Step.updateCache (·.markUseless d.offset)
    return false
  | some handler =>
    let result ← handler.run
    Step.count fun s => { s with diesDispatched := s.diesDispatched + 1 }
    match result with
    | .ok true => Step.updateCache (·.markPlaced d.offset)
    | .ok false => Step.updateCache (·.markUseless d.offset)
    | .error e =>
      Step.fail d.offset e
      Step.updateCache (·.markUseless d.offset)
    return true

end DebugSymbols.Importer
