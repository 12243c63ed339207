import DebugSymbols.Import.Run
import DebugSymbols.Proofs.Database.Calls
import Mathlib.Algebra.Group.Defs
import Mathlib.Tactic.Common

/-!
What a session has behind it.  A step is `Oblivious` if it does the same whatever the session
counted and warned about before, and whatever blobs its database keeps: it does not look at its
`Past`.  There is a rule for every way in which steps are put together.
-/

namespace DebugSymbols

/-! ## What came before -/

namespace Stats

def add (a b : Stats) : Stats where
  unitsOk := a.unitsOk + b.unitsOk
  unitsBroken := a.unitsBroken + b.unitsBroken
  diesDispatched := a.diesDispatched + b.diesDispatched
  diesFailed := a.diesFailed + b.diesFailed
  typesRegistered := a.typesRegistered + b.typesRegistered
  structsPending := a.structsPending + b.structsPending
  structsRepaired := a.structsRepaired + b.structsRepaired
  variablesPlaced := a.variablesPlaced + b.variablesPlaced
  variablesSkipped := a.variablesSkipped + b.variablesSkipped
  labelsNamed := a.labelsNamed + b.labelsNamed
  globalsPlaced := a.globalsPlaced + b.globalsPlaced

instance : Add Stats := ⟨add⟩

instance : Zero Stats := ⟨{}⟩

/-- Counters add up one by one. -/
instance : AddMonoid Stats where
  add_assoc a b c := by
    change add (add a b) c = add a (add b c)
    simp only [add, Nat.add_assoc]
  zero_add a := by
    change add {} a = a
    simp only [add, Nat.zero_add]
  add_zero a := rfl
  nsmul := nsmulRec

end Stats

abbrev Blobs := SortedMap String (List UInt8)

def Database.withBlobs (db : Database) (blobs : Blobs) : Database := { db with blobs }

def Host.withBlobs (h : Host) (blobs : Blobs) : Host :=
  { h with database := h.database.withBlobs blobs }

/-- What a session counted and warned about, and the blobs that the database keeps. -/
structure Past where
  stats : Stats
  warnings : Array Warning
  blobs : Blobs

namespace Past

/-- The session with more behind it. -/
def extend (p : Past) (s : Session) : Session where
  host := s.host.withBlobs p.blobs
  cache := s.cache
  stats := p.stats + s.stats
  resolving := s.resolving
  warnings := p.warnings ++ s.warnings

/-- The past of a session that goes on where another one ended, which had a past itself. -/
def after (p : Past) (s : Session) : Past :=
  ⟨p.stats + s.stats, p.warnings ++ s.warnings, p.blobs⟩

theorem extend_self (s : Session) : extend ⟨0, #[], s.host.database.blobs⟩ s = s := by
  unfold extend
  rw [zero_add, Array.empty_append]
  rfl

end Past

namespace Host

/-- A host is known by its blobs and the rest. -/
theorem eq_of_withBlobs {h h' : Host} {b : Blobs} (heq : h.withBlobs b = h'.withBlobs b)
    (hblobs : h.database.blobs = h'.database.blobs) : h = h' := by
  have h₁ := congrArg (fun host : Host => host.withBlobs h.database.blobs) heq
  change h = h'.withBlobs h.database.blobs at h₁
  rw [h₁, hblobs]
  rfl

/-- To store what is stored already changes nothing. -/
theorem storeBlob_eq_self {h : Host} {key : String} {content : List UInt8}
    (hload : h.loadBlob? key = some content) : h.storeBlob key content = h := by
  have hblobs : h.database.blobs.insert key content = h.database.blobs := by
    refine SortedMap.ext fun k => ?_
    rw [SortedMap.get?_insert]
    split
    · rename_i hk
      rw [hk]
      exact hload.symm
    · rfl
  change h.withBlobs (h.database.blobs.insert key content) = h
  rw [hblobs]
  rfl

end Host

/-! ## The types of a database -/

namespace Database

variable (db : Database) (b : Blobs)

theorem addNamedType?_withBlobs (name : String) (shape : TypeShape) :
    (db.withBlobs b).addNamedType? name shape =
      (db.addNamedType? name shape).map fun (o, db) => (o, db.withBlobs b) := by
  unfold addNamedType?
  rw [apply_ite (Option.map _)]
  rfl

theorem reserve?_withBlobs (name : Option String) (kind : Kind) (shape : TypeShape) :
    (db.withBlobs b).reserve? name kind shape =
      (db.reserve? name kind shape).map fun (name, o, db) => (name, o, db.withBlobs b) := by
  have hnamed (name : String) : (db.withBlobs b).namedType? name = db.namedType? name := rfl
  have hnumbered (o : Ordinal) : (db.withBlobs b).numberedType? o = db.numberedType? o := rfl
  cases name with
  | none => rfl
  | some name =>
    simp only [reserve?, hnamed, hnumbered, addNamedType?_withBlobs]
    cases db.namedType? name with
    | none =>
      simp only [Option.map_map]
      rfl
    | some o =>
      dsimp only
      split <;> rfl

theorem addEnum?_withBlobs (name : Option String) (width : UInt8) :
    (db.withBlobs b).addEnum? name width =
      (db.addEnum? name width).map fun (id, db) => (id, db.withBlobs b) := by
  have hsize : (db.withBlobs b).enums.size = db.enums.size := rfl
  simp only [addEnum?, hsize, reserve?_withBlobs]
  cases db.reserve? name .enum (.enum ⟨db.enums.size⟩) <;> rfl

theorem addStruct?_withBlobs (name : Option String) (isUnion : Bool) :
    (db.withBlobs b).addStruct? name isUnion =
      (db.addStruct? name isUnion).map fun (id, db) => (id, db.withBlobs b) := by
  have hsize : (db.withBlobs b).structs.size = db.structs.size := rfl
  simp only [addStruct?, hsize, reserve?_withBlobs]
  cases isUnion
  · cases db.reserve? name .struct (.struct ⟨db.structs.size⟩) <;> rfl
  · cases db.reserve? name .union (.union ⟨db.structs.size⟩) <;> rfl

theorem addEnumConstant?_withBlobs (id : EnumId) (name : String) (value : UInt64) :
    (db.withBlobs b).addEnumConstant? id name value =
      (db.addEnumConstant? id name value).map (·.withBlobs b) := by
  have hget : (db.withBlobs b).enumDef? id = db.enumDef? id := rfl
  simp only [addEnumConstant?, hget]
  cases db.enumDef? id with
  | none => rfl
  | some d =>
    simp only [Option.bind_eq_bind, Option.bind_some]
    rw [apply_ite (Option.map _)]
    rfl

theorem addStructMember?_withBlobs (id : StructId) (m : Member) :
    (db.withBlobs b).addStructMember? id m = (db.addStructMember? id m).map (·.withBlobs b) := by
  have hget : (db.withBlobs b).structDef? id = db.structDef? id := rfl
  simp only [addStructMember?, hget]
  cases db.structDef? id with
  | none => rfl
  | some d =>
    simp only [Option.bind_eq_bind, Option.bind_some]
    rw [apply_ite (Option.map _)]
    rfl

theorem addStackVariable?_withBlobs (function : UInt64) (v : StackVariable) :
    (db.withBlobs b).addStackVariable? function v =
      (db.addStackVariable? function v).map (·.withBlobs b) := by
  unfold addStackVariable?
  rw [apply_ite (Option.map _)]
  rfl

end Database

/-! ## The changes that a host accepts -/

namespace Host

variable (b : Blobs)

theorem typeSize?_withBlobs (h : Host) (o : Ordinal) :
    (h.withBlobs b).typeSize? o = h.typeSize? o := by
  have hsame : h.SameTypes (h.withBlobs b) := ⟨rfl, rfl, rfl, rfl, rfl⟩
  exact hsame.typeSize? o

variable (h : Host)

theorem addNamedType?_withBlobs (name : String) (shape : TypeShape) :
    (h.withBlobs b).addNamedType? name shape =
      (h.addNamedType? name shape).map fun (o, h) => (o, h.withBlobs b) := by
  change (if h.refuses (.addNamedType name shape) then none
    else ((h.database.withBlobs b).addNamedType? name shape).map _) = _
  rw [Database.addNamedType?_withBlobs, addNamedType?, apply_ite (Option.map _), Option.map_map,
    Option.map_map]
  rfl

theorem addEnum?_withBlobs (name : Option String) (width : UInt8) :
    (h.withBlobs b).addEnum? name width =
      (h.addEnum? name width).map fun (id, h) => (id, h.withBlobs b) := by
  change (if h.refuses (.addEnum name width) then none
    else ((h.database.withBlobs b).addEnum? name width).map _) = _
  rw [Database.addEnum?_withBlobs, addEnum?, apply_ite (Option.map _), Option.map_map,
    Option.map_map]
  rfl

theorem addEnumConstant?_withBlobs (id : EnumId) (name : String) (value : UInt64) :
    (h.withBlobs b).addEnumConstant? id name value =
      (h.addEnumConstant? id name value).map (·.withBlobs b) := by
  change ((h.database.withBlobs b).addEnumConstant? id name value).map _ =
    ((h.database.addEnumConstant? id name value).map _).map _
  rw [Database.addEnumConstant?_withBlobs, Option.map_map, Option.map_map]
  rfl

theorem addStruct?_withBlobs (name : Option String) (isUnion : Bool) :
    (h.withBlobs b).addStruct? name isUnion =
      (h.addStruct? name isUnion).map fun (id, h) => (id, h.withBlobs b) := by
  change (if h.refuses (.addStruct name isUnion) then none
    else ((h.database.withBlobs b).addStruct? name isUnion).map _) = _
  rw [Database.addStruct?_withBlobs, addStruct?, apply_ite (Option.map _), Option.map_map,
    Option.map_map]
  rfl

theorem addStructMember?_withBlobs (id : StructId) (m : Member) :
    (h.withBlobs b).addStructMember? id m = (h.addStructMember? id m).map (·.withBlobs b) := by
  change (if h.refuses (.addStructMember id m) then none
    else ((h.database.withBlobs b).addStructMember? id m).map _) = _
  rw [Database.addStructMember?_withBlobs, addStructMember?, apply_ite (Option.map _),
    Option.map_map, Option.map_map]
  rfl

theorem addStackVariable?_withBlobs (function : UInt64) (v : StackVariable) :
    (h.withBlobs b).addStackVariable? function v =
      (h.addStackVariable? function v).map (·.withBlobs b) := by
  change (if h.refuses (.addStackVariable function v) then none
    else ((h.database.withBlobs b).addStackVariable? function v).map _) = _
  rw [Database.addStackVariable?_withBlobs, addStackVariable?, apply_ite (Option.map _),
    Option.map_map, Option.map_map]
  rfl

theorem addRegisterVariable?_withBlobs (function : UInt64) (v : RegisterVariable) :
    (h.withBlobs b).addRegisterVariable? function v =
      (h.addRegisterVariable? function v).map (·.withBlobs b) := by
  unfold addRegisterVariable?
  rw [apply_ite (Option.map _)]
  rfl

theorem setName?_withBlobs (address : UInt64) (name : String) (isLocal : Bool) :
    (h.withBlobs b).setName? address name isLocal =
      (h.setName? address name isLocal).map (·.withBlobs b) := by
  unfold setName?
  rw [apply_ite (Option.map _)]
  rfl

end Host

/-! ## Steps -/

theorem Past.host_extend (p : Past) (s : Session) :
    (p.extend s).host = s.host.withBlobs p.blobs := rfl

theorem Past.sizedLinkTo_extend (p : Past) (s : Session) (o : Ordinal) :
    (p.extend s).sizedLinkTo o = s.sizedLinkTo o := by
  unfold Session.sizedLinkTo
  rw [Past.host_extend, Host.typeSize?_withBlobs]
  rfl

namespace Step

/-- The step does the same after any past. -/
def Oblivious (m : Step α) : Prop :=
  ∀ (p : Past) (s : Session), m.run (p.extend s) = ((m.run s).1, p.extend (m.run s).2)

theorem oblivious_pure (a : α) : Oblivious (pure a) := fun _ _ => rfl

theorem oblivious_bind {m : Step α} {f : α → Step β} (hm : Oblivious m)
    (hf : ∀ a, Oblivious (f a)) : Oblivious (m >>= f) := fun p s => by
  rw [StateT.run_bind, StateT.run_bind, hm p s]
  exact hf _ p _

/-- What is looked at does not depend on the past. -/
theorem oblivious_get_bind {f : Session → Step α} (hf : ∀ p s, f (Past.extend p s) = f s)
    (h : ∀ s, Oblivious (f s)) : Oblivious (get >>= f) := fun p s => by
  change (f (p.extend s)).run (p.extend s) = _
  rw [hf]
  exact h s p s

theorem oblivious_modify {f : Session → Session}
    (hf : ∀ p s, f (Past.extend p s) = p.extend (f s)) :
    Oblivious (modify f) := fun p s => by
  change ((), f (p.extend s)) = _
  rw [hf]
  rfl

theorem oblivious_count {f : Stats → Stats} (hf : ∀ a b, f (a + b) = a + f b) :
    Oblivious (count f) :=
  oblivious_modify fun p s => by
    change { p.extend s with stats := f (p.stats + s.stats) } = _
    rw [hf]
    rfl

theorem oblivious_warn (w : Warning) : Oblivious (warn w) :=
  oblivious_modify fun p s => by
    change { p.extend s with warnings := (p.warnings ++ s.warnings).push w } = _
    rw [Array.push_append]
    rfl

theorem oblivious_updateCache (f : OffsetCache → OffsetCache) : Oblivious (updateCache f) :=
  oblivious_modify fun _ _ => rfl

theorem oblivious_fail (offset : UInt64) (e : ImportError) : Oblivious (fail offset e) :=
  oblivious_bind (oblivious_warn _) fun _ => oblivious_count fun _ _ => rfl

theorem oblivious_forM {f : α → Step PUnit} (h : ∀ a, Oblivious (f a)) (l : List α) :
    Oblivious (l.forM f) := by
  induction l with
  | nil => exact oblivious_pure _
  | cons a l ih => exact oblivious_bind (h a) fun _ => ih

end Step

namespace Attempt

def Oblivious (m : Attempt α) : Prop := Step.Oblivious m.run

theorem oblivious_pure (a : α) : Oblivious (pure a) := fun _ _ => rfl

theorem oblivious_throw (e : ImportError) : Oblivious (throw e : Attempt α) := fun _ _ => rfl

theorem oblivious_bind {m : Attempt α} {f : α → Attempt β} (hm : Oblivious m)
    (hf : ∀ a, Oblivious (f a)) : Oblivious (m >>= f) := by
  unfold Oblivious
  rw [ExceptT.run_bind]
  refine Step.oblivious_bind hm fun r => ?_
  cases r with
  | ok a => exact hf a
  | error e => exact Step.oblivious_pure _

theorem oblivious_map {m : Attempt α} (f : α → β) (hm : Oblivious m) : Oblivious (f <$> m) := by
  rw [map_eq_pure_bind]
  exact oblivious_bind hm fun _ => oblivious_pure _

theorem oblivious_lift {m : Step α} (h : Step.Oblivious m) : Oblivious (liftM m : Attempt α) :=
  Step.oblivious_bind h fun _ => Step.oblivious_pure _

theorem oblivious_get_bind {f : Session → Attempt α} (hf : ∀ p s, f (Past.extend p s) = f s)
    (h : ∀ s, Oblivious (f s)) : Oblivious (get >>= f) :=
  Step.oblivious_get_bind (f := fun s => (f s).run) (fun p s => congrArg ExceptT.run (hf p s)) h

theorem oblivious_read (x : Except DebugInfo.Error α) : Oblivious (read x) := by
  cases x with
  | ok a => exact oblivious_pure a
  | error e => exact oblivious_throw _

theorem oblivious_ask {f : Session → Except ImportError α}
    (hf : ∀ p s, f (Past.extend p s) = f s) : Oblivious (ask f) := by
  refine oblivious_get_bind (fun p s => by rw [hf]) fun s => ?_
  cases f s with
  | ok a => exact oblivious_pure a
  | error e => exact oblivious_throw e

/-! Changes of the host. -/

theorem oblivious_look {f : Session → Attempt α}
    (h : ∀ (p : Past) (s : Session),
      (f (p.extend s)).run.run (p.extend s) =
        (((f s).run.run s).1, p.extend ((f s).run.run s).2)) : Oblivious (get >>= f) := h

theorem oblivious_setHost_bind {f : Host → Host}
    (hf : ∀ b h, f (Host.withBlobs h b) = (f h).withBlobs b) {m : Attempt α} (hm : Oblivious m) :
    Oblivious (do
      Step.setHost (f (← get).host)
      m) :=
  oblivious_look fun p s => by
    change m.run.run { p.extend s with host := f (s.host.withBlobs p.blobs) } = _
    rw [hf]
    exact hm p { s with host := f s.host }

theorem oblivious_setHost {f : Host → Host}
    (hf : ∀ b h, f (Host.withBlobs h b) = (f h).withBlobs b) :
    Oblivious (do Step.setHost (f (← get).host)) :=
  oblivious_setHost_bind hf (oblivious_pure _)

end Attempt

end DebugSymbols
