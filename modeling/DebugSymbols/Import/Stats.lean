/-!
What a session counts.
-/

namespace DebugSymbols

structure Stats where
  unitsOk : Nat := 0
  unitsBroken : Nat := 0
  /-- Entries for which a handler was chosen. -/
  diesDispatched : Nat := 0
  diesFailed : Nat := 0
  typesRegistered : Nat := 0
  structsPending : Nat := 0
  structsRepaired : Nat := 0
  variablesPlaced : Nat := 0
  variablesSkipped : Nat := 0
  labelsNamed : Nat := 0
  globalsPlaced : Nat := 0
deriving DecidableEq, Repr

end DebugSymbols
