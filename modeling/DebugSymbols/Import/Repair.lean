import DebugSymbols.Import.Resolution

/-!
The second pass: structures that lack members, because the types of those were still being
resolved, get them now.
-/

namespace DebugSymbols.Importer

/-- Adds the members that a structure lacks, and tells whether it is complete. -/
def completeStruct (i : Importer) (offset : UInt64) (id : StructId) :
    List MemberLayout → Attempt Bool
  | [] => return true
  | m :: rest => do
    let members := ((← get).host.structDef? id).elim [] (·.members)
    let first ←
      if members.any (·.name = m.name) then pure true
      else addMember i.resolve offset id m
    let others ← i.completeStruct offset id rest
    return first && others

/-- The structure or union of a type. -/
def structOf (offset : UInt64) (s : Session) : Except ImportError StructId :=
  match (s.cache.type? offset).bind fun (ordinal, _) => s.host.numberedType? ordinal with
  | some ⟨_, .struct id⟩ | some ⟨_, .union id⟩ => .ok id
  | _ => .error (.notAStructure offset)

def completeAt (i : Importer) (offset : UInt64) : Attempt Bool := do
  let d ← Attempt.read (i.info.dieAt offset)
  let id ← Attempt.ask (structOf offset)
  i.completeStruct offset id (← Attempt.read d.layout)

def repair (i : Importer) (offset : UInt64) : Step Unit := do
  match ← (i.completeAt offset).run with
  | .ok true =>
    Step.updateCache (·.clearPending offset)
    Step.count fun s => { s with structsRepaired := s.structsRepaired + 1 }
  | .ok false => Step.warn (.stillPending offset)
  | .error e => Step.warn (.repairFailed offset e)

/-- Repairs every structure that is pending now. -/
def runSecondPass (i : Importer) : Step Unit := do
  (← get).cache.pending.forM i.repair

end DebugSymbols.Importer
