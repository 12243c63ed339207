import DebugSymbols.Import.Frames
import DebugSymbols.Import.Repair

/-!
Whole imports: types first, then the second pass over structures, then functions and variables.
A session can be left and resumed, as the offset cache tells what has been done.
-/

namespace DebugSymbols

inductive Phase where
  | types
  | frames
deriving DecidableEq, Repr

namespace Importer

/-! ## Walking over all entries -/

/-- Visits an entry, and tells whether it is of a kind that the phase is about. -/
def visit (i : Importer) (phase : Phase) (d : Die) : Step Bool :=
  match phase with
  | .types => do
    if d.tag.isType then
      let _ ← i.resolveDie i.config.maxResolveDepth d
      return true
    else return false
  | .frames => i.visitPlaced d

/-- Visits an entry unless it was visited before. -/
def visitOnce (i : Importer) (phase : Phase) (d : Die) : Step Unit := do
  if !(← get).cache.has d.offset then
    let _ ← i.visit phase d

/-- Units are counted in the first phase. -/
def countUnit (phase : Phase) (f : Stats → Stats) : Step Unit := do
  if phase = .types then Step.count f

/-- Visits the entries of a unit, unless it is malformed. -/
def visitUnit (i : Importer) (phase : Phase) (slot : DebugInfo.Slot) : Step Unit := do
  match slot.content with
  | .error e =>
    Step.warn (.brokenUnit e)
    countUnit phase fun s => { s with unitsBroken := s.unitsBroken + 1 }
  | .ok u =>
    countUnit phase fun s => { s with unitsOk := s.unitsOk + 1 }
    u.dies.forM (i.visitOnce phase)

def visitUnits (i : Importer) (phase : Phase) : Step Unit :=
  i.info.units.toList.forM (i.visitUnit phase)

/-! ## Steps of a session -/

def runTypes (i : Importer) : Step Unit := i.visitUnits .types

def runFrames (i : Importer) : Step Unit := i.visitUnits .frames

/-- The whole import, of one unit at least. -/
def run (i : Importer) : Attempt Unit := do
  if i.info.units.isEmpty then throw .noDebugInfo
  i.runTypes
  i.runSecondPass
  i.runFrames

/-- Visits the entry at an offset unless that was visited before. -/
def process (i : Importer) (offset : UInt64) (phase : Phase) : Attempt Bool := do
  if (← get).cache.has offset then return false
  let d ← Attempt.read (i.info.dieAt offset)
  i.visit phase d

/-! ## Sessions -/

def newSession (h : Host) : Session := .start h .empty

/-- A session that goes on from the cache in the database, if there is one. -/
def resumeSession (i : Importer) (h : Host) : Except ImportError Session :=
  match h.loadBlob? i.config.cacheKey with
  | none => .ok (newSession h)
  | some blob =>
    match OffsetCache.ofBytes blob with
    | .ok cache => .ok (.start h cache)
    | .error e => .error (.cache e)

/-- What the host is like once a session has ended. -/
def finish (i : Importer) (s : Session) : Host :=
  if i.config.persistCache then s.host.storeBlob i.config.cacheKey s.cache.toBytes else s.host

end Importer

/-- Imports the debugging information of some sections into a host.  A failure leaves the host
as it was. -/
def importSections (sections : Sections) (config : Config) (h : Host) :
    Except ImportError (Host × Session) := do
  let info ← (DebugInfo.decode sections).mapError .debugInfo
  let i : Importer := ⟨info, config⟩
  let s ← i.resumeSession h
  match i.run.run s with
  | (.ok _, s) => return (i.finish s, s)
  | (.error e, _) => throw e

end DebugSymbols
