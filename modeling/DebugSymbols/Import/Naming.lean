import DebugSymbols.Import.Session

/-!
Finding a name for a type.  What is already known under the name is taken if it fits; otherwise
the name gets an underscore, and so on until something fits or the name is free.
-/

namespace DebugSymbols

/-- How things of some kind are found by their names, told apart and added. -/
structure Registry (α : Type) where
  find? : Host → String → Option α
  fits : Session → α → Except ImportError Bool
  add? : Host → String → Option (α × Host)

namespace Registry

/-- Takes or adds something under the name, or under one with up to `n` underscores more.
Tells whether it was there before. -/
def tryNames (r : Registry α) : Nat → String → Attempt (Option (α × Bool))
  | 0, _ => return none
  | n + 1, name => do
    match r.find? (← get).host name with
    | some a =>
      if ← Attempt.ask (r.fits · a) then return some (a, true)
    | none =>
      if let some (a, h) := r.add? (← get).host name then
        Step.setHost h
        return some (a, false)
    r.tryNames n (name ++ "_")

def reuseOrAdd (r : Registry α) (config : Config) (name : String) : Attempt (α × Bool) := do
  match ← r.tryNames (config.maxNameSuffixes + 1) name with
  | some found => return found
  | none => throw (.nameExhausted name)

end Registry

/-- Types that are nothing but a name and a shape. -/
def shapeRegistry (shape : TypeShape) : Registry Ordinal where
  find? := Host.namedType?
  fits s ordinal := .ok ((s.host.numberedType? ordinal).any (·.shape = shape))
  add? h name := h.addNamedType? name shape

namespace Importer

/-- The type of the given shape. -/
def registerType (i : Importer) (name : String) (shape : TypeShape) : Attempt Ordinal :=
  (·.1) <$> (shapeRegistry shape).reuseOrAdd i.config name

end Importer

end DebugSymbols
