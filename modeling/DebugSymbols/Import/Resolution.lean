import DebugSymbols.Import.Types

/-!
Resolving types, each before those that refer to it.  Types can refer to themselves; one that
is met again while it is being resolved is left to whoever comes later.
-/

namespace DebugSymbols.Importer

/-- Remembers what became of an entry. -/
def settle (offset : UInt64) : Except ImportError Outcome → Step Outcome
  | .ok (.type ordinal pending) => do
    if (← get).cache.isOpen offset then
      Step.count fun s =>
        { s with
          typesRegistered := s.typesRegistered + 1
          structsPending := s.structsPending + pending.toNat }
    Step.updateCache (·.markType offset ordinal pending)
    return .type ordinal pending
  | .ok .useless => do
    Step.updateCache (·.markUseless offset)
    return .useless
  | .ok .deferred => return .deferred
  | .error e => do
    Step.fail offset e
    Step.updateCache (·.markUseless offset)
    return .useless

/-- Resolves the type at an offset, given how an entry is visited. -/
def resolveWith (i : Importer) (visit : Die → Step Outcome) : Resolver := fun offset => do
  let s ← get
  match s.cache.get? offset with
  | some (.type ordinal _) => return .resolved ordinal
  | some _ => return .missing
  | none =>
    if offset ∈ s.resolving then return .inProgress
    match i.info.dieAt offset with
    | .ok d => return (← visit d).toRef
    | .error e =>
      Step.fail offset (.debugInfo e)
      Step.updateCache (·.markUseless offset)
      return .missing

/-- Visits the entry of a type while types may be nested as many levels as given. -/
def resolveDie (i : Importer) : Nat → Die → Step Outcome
  | levels, d => do
    let s ← get
    match s.cache.get? d.offset with
    | some (.type ordinal pending) => return .type ordinal pending
    | some _ => return .useless
    | none =>
      if d.offset ∈ s.resolving then return .deferred
      Step.count fun s => { s with diesDispatched := s.diesDispatched + 1 }
      modify fun s => { s with resolving := d.offset :: s.resolving }
      let result ←
        match levels with
        | 0 => pure (.error (.resolveDepthExceeded i.config.maxResolveDepth))
        | levels + 1 => (i.describe (i.resolveWith (resolveDie i levels)) d).run
      modify fun s => { s with resolving := s.resolving.tail }
      settle d.offset result

/-- Resolves a type while no other is being resolved. -/
def resolve (i : Importer) : Resolver := i.resolveWith (i.resolveDie i.config.maxResolveDepth)

end DebugSymbols.Importer
