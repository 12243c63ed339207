import DebugSymbols.Database.Host
import DebugSymbols.Dwarf.DebugInfo
import DebugSymbols.Import.Config
import DebugSymbols.Import.Error
import DebugSymbols.Import.Stats

/-!
The state of an import and the steps that change it.  What is imported, and how, stays the same
all along; a step that fails keeps what it has done so far.
-/

namespace DebugSymbols

/-- What is imported, and how. -/
structure Importer where
  info : DebugInfo
  config : Config

structure Session where
  host : Host
  cache : OffsetCache
  stats : Stats
  /-- The types that are being resolved, the innermost one first. -/
  resolving : List UInt64
  warnings : Array Warning

/-- A step of an import. -/
abbrev Step := StateM Session

/-- A step that can fail. -/
abbrev Attempt := ExceptT ImportError Step

namespace Session

def start (host : Host) (cache : OffsetCache) : Session where
  host
  cache
  stats := {}
  resolving := []
  warnings := #[]

/-! ## Looking at the host -/

def nameOf (s : Session) (ordinal : Ordinal) : Except ImportError String :=
  match s.host.numberedType? ordinal with
  | some type => .ok type.name
  | none => .error (.unknownOrdinal ordinal)

/-- How a member or a variable refers to a type. -/
def linkTo (s : Session) (ordinal : Ordinal) : Except ImportError TypeLink :=
  match s.host.numberedType? ordinal with
  | some ⟨_, .enum id⟩ => .ok (.enum id)
  | some ⟨_, .struct id⟩ | some ⟨_, .union id⟩ => .ok (.struct id)
  | some _ => .ok (.named ordinal)
  | none => .error (.unknownOrdinal ordinal)

def sizedLinkTo (s : Session) (ordinal : Ordinal) : Except ImportError (TypeLink × UInt64) := do
  let link ← s.linkTo ordinal
  match s.host.typeSize? ordinal with
  | some size => return (link, size)
  | none => throw (.sizeUnknown ordinal)

def enumOrdinal (s : Session) (id : EnumId) : Except ImportError Ordinal :=
  match s.host.enumDef? id with
  | some d => .ok d.ordinal
  | none => .error (.unknownEnum id)

def structOrdinal (s : Session) (id : StructId) : Except ImportError Ordinal :=
  match s.host.structDef? id with
  | some d => .ok d.ordinal
  | none => .error (.unknownStruct id)

end Session

/-! ## Steps -/

namespace Step

def warn (w : Warning) : Step Unit := modify fun s => { s with warnings := s.warnings.push w }

def count (f : Stats → Stats) : Step Unit := modify fun s => { s with stats := f s.stats }

def updateCache (f : OffsetCache → OffsetCache) : Step Unit :=
  modify fun s => { s with cache := f s.cache }

def setHost (h : Host) : Step Unit := modify fun s => { s with host := h }

/-- Reports the failure of an entry. -/
def fail (offset : UInt64) (e : ImportError) : Step Unit := do
  warn (.failed offset e)
  count fun s => { s with diesFailed := s.diesFailed + 1 }

end Step

namespace Attempt

/-- What an entry says. -/
def read : Except DebugInfo.Error α → Attempt α
  | .ok a => pure a
  | .error e => throw (.debugInfo e)

/-- What the session knows. -/
def ask (f : Session → Except ImportError α) : Attempt α := do
  match f (← get) with
  | .ok a => pure a
  | .error e => throw e

end Attempt

end DebugSymbols
