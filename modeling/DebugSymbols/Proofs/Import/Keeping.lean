import DebugSymbols.Import.Run
import DebugSymbols.Proofs.Database.Lasting
import DebugSymbols.Proofs.Import.Resolving

/-!
What steps keep.  `Step.Keeps R` says that a relation holds between the sessions before and after a
step, from whatever session it is taken.  A relation that allows for the little that handlers do
on their own (`Calm`, `Patient`) is kept by them if it is kept by the resolver that they use, and
one that allows for visits too (`Nesting`) is kept by resolving types, however these refer to each
other.  Main statements: `keeps_describe`, `keeps_resolveDie` and `keeps_placeVariable`.
-/

namespace DebugSymbols

/-- The same numbers of types, structures, variables and labels; other things are counted too. -/
structure Stats.SameYield (a b : Stats) : Prop where
  types : b.typesRegistered = a.typesRegistered
  pending : b.structsPending = a.structsPending
  repaired : b.structsRepaired = a.structsRepaired
  locals : b.variablesPlaced = a.variablesPlaced
  globals : b.globalsPlaced = a.globalsPlaced
  labels : b.labelsNamed = a.labelsNamed

theorem Stats.SameYield.refl (a : Stats) : a.SameYield a := ⟨rfl, rfl, rfl, rfl, rfl, rfl⟩

theorem Stats.SameYield.trans {a b c : Stats} (h : a.SameYield b) (h' : b.SameYield c) :
    a.SameYield c where
  types := h'.types.trans h.types
  pending := h'.pending.trans h.pending
  repaired := h'.repaired.trans h.repaired
  locals := h'.locals.trans h.locals
  globals := h'.globals.trans h.globals
  labels := h'.labels.trans h.labels

/-- The failure that is reported. -/
def Warning.failure? : Warning → Option (UInt64 × ImportError)
  | .failed x e => some (x, e)
  | _ => none

/-- A failure of an entry is reported and counted, and the entry is dismissed. -/
def Session.blame (s : Session) (x : UInt64) (e : ImportError) : Session :=
  { s with
    stats := { s.stats with diesFailed := s.stats.diesFailed + 1 }
    warnings := s.warnings.push (.failed x e)
    cache := s.cache.markUseless x }

/-! ## Relations -/

def Step.Keeps (R : Session → Session → Prop) (m : Step α) : Prop := ∀ s, R s (m.run s).2

def Attempt.Keeps (R : Session → Session → Prop) (m : Attempt α) : Prop := Step.Keeps R m.run

def Resolver.Keeps (R : Session → Session → Prop) (resolve : Resolver) : Prop :=
  ∀ x, Step.Keeps R (resolve x)

/-- A relation between sessions that holds if the host is extended and notes are taken, apart from
those of failures. -/
class Calm (R : Session → Session → Prop) : Prop where
  refl : ∀ s, R s s
  trans : ∀ {s t u}, R s t → R t u → R s u
  host : ∀ {s : Session} {h}, s.host.Within h → R s { s with host := h }
  warn : ∀ (s : Session) {w : Warning}, w.failure? = none →
    R s { s with warnings := s.warnings.push w }
  count : ∀ (s : Session) {stats}, s.stats.SameYield stats →
    stats.diesFailed = s.stats.diesFailed → R s { s with stats }

/-- Entries may be dismissed as well. -/
class Patient (R : Session → Session → Prop) : Prop extends Calm R where
  dismiss : ∀ (s : Session) x, R s { s with cache := s.cache.markUseless x }

/-- Failures of entries may be reported as well. -/
class Tolerant (R : Session → Session → Prop) : Prop extends Patient R where
  blame : ∀ (s : Session) x e, R s (s.blame x e)

/-- Entries may be visited as well, if their handlers keep the relation. -/
class Nesting (R : Session → Session → Prop) : Prop extends Tolerant R where
  visit : ∀ (s : Session) x result t, R (Importer.entered s x) t →
    R s ((Importer.leave x result).run t).2

variable {R : Session → Session → Prop} {α β : Type}

/-! ## Steps -/

namespace Step

theorem keeps_get_bind {f : Session → Step α} (h : ∀ s, Keeps R (f s)) :
    Keeps R (get >>= f) := fun s => h s s

section

variable [Calm R]

theorem keeps_pure (a : α) : Keeps R (pure a) := fun s => Calm.refl s

theorem keeps_bind {m : Step α} {f : α → Step β} (hm : Keeps R m) (hf : ∀ a, Keeps R (f a)) :
    Keeps R (m >>= f) := fun s => Calm.trans (hm s) (hf _ _)

theorem keeps_warn {w : Warning} (hw : w.failure? = none) : Keeps R (warn w) :=
  fun s => Calm.warn s hw

theorem keeps_count {f : Stats → Stats} (hf : ∀ a : Stats, a.SameYield (f a))
    (hfailed : ∀ a : Stats, (f a).diesFailed = a.diesFailed) : Keeps R (count f) :=
  fun s => Calm.count s (hf s.stats) (hfailed s.stats)

theorem keeps_forM {f : α → Step PUnit} (h : ∀ a, Keeps R (f a)) (l : List α) :
    Keeps R (l.forM f) := by
  induction l with
  | nil => exact keeps_pure _
  | cons a l ih => exact keeps_bind (h a) fun _ => ih

end

theorem keeps_markUseless [Patient R] (x : UInt64) : Keeps R (updateCache (·.markUseless x)) :=
  fun s => Patient.dismiss s x

/-- A failure is reported, and the entry is dismissed right away. -/
theorem keeps_fail_bind [Tolerant R] {m : Step α} (hm : Keeps R m) (x : UInt64) (e : ImportError) :
    Keeps R (do
      fail x e
      updateCache (·.markUseless x)
      m) := fun s => Calm.trans (Tolerant.blame s x e) (hm (s.blame x e))

end Step

namespace Attempt

theorem keeps_get_bind {f : Session → Attempt α} (h : ∀ s, Keeps R (f s)) :
    Keeps R (get >>= f) := fun s => h s s

/-- What is done depends on the session at hand. -/
theorem keeps_look {f : Session → Attempt α} (h : ∀ s, R s ((f s).run.run s).2) :
    Keeps R (get >>= f) := h

variable [Calm R]

theorem keeps_pure (a : α) : Keeps R (pure a) := fun s => Calm.refl s

theorem keeps_throw (e : ImportError) : Keeps R (throw e : Attempt α) := fun s => Calm.refl s

theorem keeps_bind {m : Attempt α} {f : α → Attempt β} (hm : Keeps R m)
    (hf : ∀ a, Keeps R (f a)) : Keeps R (m >>= f) := by
  unfold Keeps
  rw [ExceptT.run_bind]
  refine Step.keeps_bind hm fun r => ?_
  cases r with
  | ok a => exact hf a
  | error e => exact Step.keeps_pure _

theorem keeps_map {m : Attempt α} (f : α → β) (hm : Keeps R m) : Keeps R (f <$> m) := by
  rw [map_eq_pure_bind]
  exact keeps_bind hm fun _ => keeps_pure _

theorem keeps_lift {m : Step α} (h : Step.Keeps R m) : Keeps R (liftM m : Attempt α) :=
  Step.keeps_bind h fun _ => Step.keeps_pure _

theorem keeps_read (x : Except DebugInfo.Error α) : Keeps R (read x) := by
  cases x with
  | ok a => exact keeps_pure a
  | error e => exact keeps_throw _

theorem keeps_ask (f : Session → Except ImportError α) : Keeps R (ask f) := by
  refine keeps_get_bind fun s => ?_
  cases f s with
  | ok a => exact keeps_pure a
  | error e => exact keeps_throw e

/-- A change of the host, if it is accepted. -/
theorem keeps_change {change : Session → Option Host} {m : Attempt α} {a : α}
    (hc : ∀ s h, change s = some h → s.host.Within h) (hm : Keeps R m) :
    Keeps R (do
      match change (← get) with
      | some h =>
        Step.setHost h
        m
      | none => return a) := by
  refine keeps_look fun s => ?_
  cases hchange : change s with
  | none => exact Calm.refl s
  | some h => exact Calm.trans (Calm.host (hc s h hchange)) (hm _)

end Attempt

/-! ## Names -/

open Attempt

theorem Registry.keeps_reuseOrAdd [Calm R] {r : Registry α} (config : Config) (name : String)
    (hr : ∀ h name a h', r.add? h name = some (a, h') → h.Within h') :
    Attempt.Keeps R (r.reuseOrAdd config name) := fun s =>
  run_reuseOrAdd (P := fun result => R s result.2) (fun _ _ _ _ _ _ => Calm.refl s)
    (fun _ _ _ _ _ _ hadd => Calm.host (hr _ _ _ _ hadd)) (fun _ => Calm.refl s)
    fun _ _ _ _ _ => Calm.refl s

namespace Importer

variable {i : Importer}

section

variable [Patient R] {resolve : Resolver}

theorem keeps_registerType (name : String) (shape : TypeShape) :
    Attempt.Keeps R (i.registerType name shape) :=
  keeps_map _ (Registry.keeps_reuseOrAdd _ _ fun _ _ _ _ => Host.within_addNamedType?)

/-! ## Types -/

theorem keeps_settled {m : Attempt Ordinal} (hm : Attempt.Keeps R m) :
    Attempt.Keeps R (settled <$> m) := keeps_map _ hm

theorem keeps_baseType (d : Die) : Attempt.Keeps R (i.baseType d) := by
  refine keeps_bind (keeps_read _) fun name => ?_
  refine keeps_bind (keeps_read _) fun size => ?_
  refine keeps_bind (keeps_read _) fun encoding => ?_
  split
  · exact keeps_pure _
  · split
    · exact keeps_bind (keeps_lift (Step.keeps_warn rfl)) fun _ =>
        keeps_settled (keeps_registerType _ _)
    · exact keeps_settled (keeps_registerType _ _)

theorem keeps_unspecifiedType (d : Die) : Attempt.Keeps R (i.unspecifiedType d) :=
  keeps_bind (keeps_read _) fun _ => keeps_settled (keeps_registerType _ _)

theorem keeps_onTarget (hr : Resolver.Keeps R resolve) (d : Die)
    {f : Ordinal → Attempt Ordinal} (hf : ∀ o, Attempt.Keeps R (f o)) :
    Attempt.Keeps R (i.onTarget resolve d f) := by
  refine keeps_bind ?_ fun t => ?_
  · refine keeps_bind (keeps_read _) fun reference => ?_
    split
    · exact keeps_lift (hr _)
    · exact keeps_map _ (keeps_registerType _ _)
  · cases t with
    | resolved o => exact keeps_settled (hf o)
    | inProgress => exact keeps_pure _
    | missing => exact keeps_pure _

theorem keeps_derivedType (hr : Resolver.Keeps R resolve) (d : Die) :
    Attempt.Keeps R (i.derivedType resolve d) := by
  refine keeps_onTarget hr d fun o => keeps_bind (keeps_ask _) fun name => ?_
  split <;> exact keeps_registerType _ _

theorem keeps_functionType (hr : Resolver.Keeps R resolve) (d : Die) :
    Attempt.Keeps R (i.functionType resolve d) :=
  keeps_onTarget hr d fun _ =>
    keeps_bind (keeps_ask _) fun _ => keeps_registerType _ _

theorem keeps_arrayType (hr : Resolver.Keeps R resolve) (d : Die) :
    Attempt.Keeps R (i.arrayType resolve d) := by
  have htype : Attempt.Keeps R (i.onTarget resolve d (i.arrayOf d)) :=
    keeps_onTarget hr d fun _ =>
      keeps_bind (keeps_ask _) fun _ => keeps_registerType _ _
  unfold arrayType
  split
  · exact keeps_bind (keeps_throw _) fun _ => htype
  · exact htype

theorem keeps_typedefType (hr : Resolver.Keeps R resolve) (d : Die) :
    Attempt.Keeps R (i.typedefType resolve d) := by
  refine keeps_bind (keeps_read _) fun name => keeps_onTarget hr d fun o => ?_
  refine keeps_get_bind fun s => keeps_bind (keeps_read _) fun existing => ?_
  split
  · exact keeps_pure _
  · exact keeps_bind (keeps_ask _) fun _ => keeps_registerType _ _

theorem keeps_declaredType (d : Die) : Attempt.Keeps R (i.declaredType d) := by
  refine keeps_bind (keeps_read _) fun name => keeps_get_bind fun s => ?_
  dsimp only
  split
  · exact keeps_pure _
  · exact keeps_settled (keeps_registerType _ _)

/-! ## Enumerations -/

/-- Constants change neither variables nor other enumerations. -/
theorem addConstants_spec (id : EnumId) (constants : List (String × UInt64)) (h : Host) :
    h.database.SameVariables (addConstants id constants h).database ∧
      ∀ id', id' ≠ id →
        (addConstants id constants h).database.enumDef? id' = h.database.enumDef? id' := by
  let P (h' : Host) : Prop := h.database.SameVariables h'.database ∧
    ∀ id', id' ≠ id → h'.database.enumDef? id' = h.database.enumDef? id'
  refine addConstants_keeps (P := P) ⟨⟨rfl, rfl⟩, fun _ _ => rfl⟩ fun hP hadd => ?_
  obtain ⟨db, hdb, rfl⟩ := Host.addEnumConstant?_eq_some hadd
  obtain ⟨hsame, henums⟩ := Database.addEnumConstant?_eq_some hdb
  exact ⟨⟨hsame.stack.trans hP.1.stack, hsame.registers.trans hP.1.registers⟩,
    fun id' hne => (henums id' hne).trans (hP.2 id' hne)⟩

theorem refuses_addConstants (id : EnumId) (constants : List (String × UInt64)) (h : Host) :
    (addConstants id constants h).refuses = h.refuses := by
  refine addConstants_keeps (P := fun h' => h'.refuses = h.refuses) rfl fun hP hadd => ?_
  obtain ⟨db, -, rfl⟩ := Host.addEnumConstant?_eq_some hadd
  exact hP

/-- A new enumeration gets its constants without harm to the others. -/
theorem within_addConstants {h h' : Host} {name : Option String} {width : UInt8} {id : EnumId}
    (hadd : h.addEnum? name width = some (id, h')) (constants : List (String × UInt64)) :
    h.Within (addConstants id constants h') := by
  obtain ⟨db, hdb, rfl⟩ := Host.addEnum?_eq_some hadd
  obtain ⟨rfl, hsame, d, -, henums⟩ := Database.addEnum?_eq_some hdb
  have hwithin := Database.within_addEnum? hdb
  obtain ⟨hsame', hothers⟩ := addConstants_spec ⟨h.database.enums.size⟩ constants
    { h with database := db }
  refine ⟨Database.SameVariables.within
    ⟨hsame'.stack.trans hsame.stack, hsame'.registers.trans hsame.registers⟩ fun {id' d'} hd => ?_,
    refuses_addConstants _ _ _⟩
  have hlt : id'.val < h.database.enums.size := (Array.getElem?_eq_some_iff.mp hd).1
  rw [hothers id' fun heq => by simp [heq] at hlt]
  exact hwithin.enums hd

theorem keeps_enumWidth (d : Die) : Attempt.Keeps R (enumWidth d) := by
  refine keeps_bind (keeps_read _) fun size => ?_
  split
  · exact keeps_pure _
  · exact keeps_bind (keeps_lift (Step.keeps_warn rfl)) fun _ => keeps_pure _

theorem keeps_dismissAll (l : List Die) :
    Attempt.Keeps R (forIn l PUnit.unit fun c _ => do
      liftM (Step.updateCache (·.markUseless c.offset))
      pure (ForInStep.yield PUnit.unit)) := by
  induction l with
  | nil => exact keeps_pure _
  | cons c rest ih =>
    rw [List.forIn_cons, bind_assoc]
    refine keeps_bind (keeps_lift (Step.keeps_markUseless _)) fun _ => ?_
    rw [pure_bind]
    exact ih

theorem keeps_enumType (d : Die) : Attempt.Keeps R (i.enumType d) := by
  refine keeps_bind (keeps_dismissAll _) fun _ => ?_
  refine keeps_bind (keeps_read _) fun declared => ?_
  split
  · exact keeps_declaredType d
  · refine keeps_bind (keeps_enumWidth d) fun width => ?_
    refine keeps_bind (keeps_read _) fun constants s => ?_
    have hordinal (id : EnumId) : Attempt.Keeps R (settled <$> ask (·.enumOrdinal id)) :=
      keeps_settled (keeps_ask _)
    have hlookup := enumLookup_enumFor (i := i) d width s
    rw [ExceptT.run_bind, StateT.run_bind]
    generalize (i.enumFor d width).run.run s = result at hlookup
    cases hlookup with
    | @found id => exact hordinal id s
    | @added name id h _ hadd =>
      exact Calm.trans (Calm.host (within_addConstants hadd constants)) (hordinal id _)
    | failed => exact Calm.refl s

/-! ## Structures and unions -/

theorem keeps_recordFor (d : Die) : Attempt.Keeps R (i.recordFor d) := fun s => by
  have hlookup := recordLookup_recordFor (i := i) d s
  generalize (i.recordFor d).run.run s = result at hlookup
  cases hlookup with
  | found => exact Calm.refl s
  | added hadd => exact Calm.host (Host.within_addStruct? hadd)
  | failed => exact Calm.refl s

theorem keeps_attachMember (owner : UInt64) (id : StructId) (m : MemberLayout) (o : Ordinal) :
    Attempt.Keeps R (attachMember owner id m o) := by
  refine keeps_look fun s => ?_
  split
  · rename_i type size _
    cases hadd : s.host.addStructMember? id ⟨m.name, m.offset, size, type⟩ with
    | none =>
      change R s { s with host := (s.host.addStructMember? id _).getD s.host }
      rw [hadd]
      exact Calm.refl s
    | some h =>
      change R s { s with host := (s.host.addStructMember? id _).getD s.host }
      rw [hadd]
      exact Calm.host (Host.within_addStructMember? hadd)
  · exact keeps_lift (Step.keeps_warn rfl) s
  · exact Calm.refl s

theorem keeps_addResolved (owner : UInt64) (id : StructId) (m : MemberLayout) (t : TypeRef) :
    Attempt.Keeps R (addResolved owner id m t) := by
  cases t with
  | resolved o => exact keeps_bind (keeps_attachMember _ _ _ _) fun _ => keeps_pure _
  | inProgress => exact keeps_pure _
  | missing => exact keeps_pure _

theorem keeps_addMember (hr : Resolver.Keeps R resolve) (owner : UInt64) (id : StructId)
    (m : MemberLayout) : Attempt.Keeps R (addMember resolve owner id m) := by
  unfold addMember
  split
  · exact keeps_pure _
  · exact keeps_bind (keeps_lift (hr _)) fun t => keeps_addResolved owner id m t

theorem keeps_addMembers (hr : Resolver.Keeps R resolve) (owner : UInt64) (id : StructId)
    (layout : List MemberLayout) : Attempt.Keeps R (addMembers resolve owner id layout) := by
  induction layout with
  | nil => exact keeps_pure _
  | cons m rest ih =>
    refine keeps_bind (keeps_addMember hr _ _ _) fun _ => ?_
    exact keeps_bind ih fun _ => keeps_pure _

theorem keeps_recordType (hr : Resolver.Keeps R resolve) (d : Die) :
    Attempt.Keeps R (i.recordType resolve d) := by
  refine keeps_bind (keeps_read _) fun declared => ?_
  split
  · exact keeps_declaredType d
  · refine keeps_bind (keeps_read _) fun layout => ?_
    refine keeps_bind (keeps_recordFor d) fun found => ?_
    refine keeps_bind (keeps_ask _) fun o => ?_
    split
    · exact keeps_pure _
    · exact keeps_bind (keeps_addMembers hr _ _ _) fun _ => keeps_pure _

/-! ## All kinds of types -/

theorem keeps_describe (hr : Resolver.Keeps R resolve) (d : Die) :
    Attempt.Keeps R (i.describe resolve d) := by
  unfold describe
  split
  · exact keeps_baseType d
  · exact keeps_unspecifiedType d
  · exact keeps_enumType d
  · exact keeps_derivedType hr d
  · exact keeps_derivedType hr d
  · exact keeps_derivedType hr d
  · exact keeps_typedefType hr d
  · exact keeps_arrayType hr d
  · exact keeps_recordType hr d
  · exact keeps_recordType hr d
  · exact keeps_functionType hr d
  · exact keeps_pure _

end

/-! ## Resolving -/

section

variable [Nesting R]

theorem keeps_resolveWith {visit : Die → Step Outcome}
    (hv : ∀ d, Step.Keeps R (visit d)) : Resolver.Keeps R (i.resolveWith visit) := fun x => by
  refine Step.keeps_get_bind fun s => ?_
  split
  · exact Step.keeps_pure _
  · exact Step.keeps_pure _
  · split
    · exact Step.keeps_pure _
    · split
      · exact Step.keeps_bind (hv _) fun _ => Step.keeps_pure _
      · exact Step.keeps_fail_bind (Step.keeps_pure _) _ _

theorem keeps_resolveDie (levels : Nat) (d : Die) : Step.Keeps R (i.resolveDie levels d) := by
  -- An entry that is known changes nothing, so only the handler of a new one matters.
  have hvisit {levels : Nat} (d : Die) (h : Step.Keeps R (i.handle levels d)) :
      Step.Keeps R (i.resolveDie levels d) := by
    intro s
    by_cases hnew : s.cache.get? d.offset = none ∧ d.offset ∉ s.resolving
    · rw [run_resolveDie hnew.1 hnew.2, StateT.run_bind]
      exact Nesting.visit s d.offset _ _ (h _)
    · obtain ⟨out, hrun⟩ : ∃ out, (i.resolveDie levels d).run s = (out, s) :=
        (run_resolveDie_known hnew).imp fun _ => And.left
      rw [hrun]
      exact Calm.refl s
  induction levels generalizing d with
  | zero => exact hvisit d (Step.keeps_pure _)
  | succ levels ih => exact hvisit d (keeps_describe (keeps_resolveWith ih) d)

theorem keeps_resolve (i : Importer) : Resolver.Keeps R i.resolve :=
  keeps_resolveWith fun d => keeps_resolveDie _ d

theorem keeps_completeStruct (x : UInt64) (id : StructId) (layout : List MemberLayout) :
    Attempt.Keeps R (i.completeStruct x id layout) := by
  induction layout with
  | nil => exact keeps_pure _
  | cons m rest ih =>
    have hrest (first : Bool) : Attempt.Keeps R (do
        let others ← i.completeStruct x id rest
        return first && others) := keeps_bind ih fun _ => keeps_pure _
    refine keeps_get_bind fun s => ?_
    dsimp only
    split
    · exact keeps_bind (keeps_pure _) hrest
    · exact keeps_bind (keeps_addMember (keeps_resolve i) _ _ _) hrest

theorem keeps_completeAt (x : UInt64) : Attempt.Keeps R (i.completeAt x) := by
  refine keeps_bind (keeps_read _) fun d => keeps_bind (keeps_ask _) fun id => ?_
  exact keeps_bind (keeps_read _) fun layout => keeps_completeStruct _ _ _

end

/-! ## Variables -/

/-- A variable that fails is reported and skipped. -/
theorem keeps_fail_skip [Tolerant R] (d : Die) (e : ImportError) :
    Step.Keeps R (do
      Step.fail d.offset e
      visitLocal.skip d) := by
  intro s
  let skipped : Session :=
    { s with stats := { s.stats with variablesSkipped := s.stats.variablesSkipped + 1 } }
  have hcount : R s skipped := Calm.count s ⟨rfl, rfl, rfl, rfl, rfl, rfl⟩ rfl
  exact Calm.trans hcount (Tolerant.blame skipped d.offset e)

section

variable [Calm R]

theorem keeps_knownType (d : Die) : Attempt.Keeps R (knownType d) := by
  refine keeps_bind (keeps_read _) fun reference => ?_
  split
  · exact keeps_pure _
  · refine keeps_get_bind fun s => ?_
    split
    · exact keeps_pure _
    · split
      · exact keeps_pure _
      · exact keeps_bind (keeps_lift (Step.keeps_warn rfl)) fun _ => keeps_pure _
      · exact keeps_throw _

theorem keeps_holdInRegister (frame : Frame) (name : String) (range : Option AddressRange)
    (number : UInt16) : Attempt.Keeps R (i.holdInRegister frame name range number) := by
  unfold holdInRegister
  split
  · exact keeps_change (fun _ _ => Host.within_addRegisterVariable?) (keeps_pure _)
  · exact keeps_pure _

theorem keeps_putOnStack (frame : Frame) (d : Die) (name : String) (offset : Int64) :
    Attempt.Keeps R (putOnStack frame d name offset) := by
  refine keeps_get_bind fun s => ?_
  dsimp only
  split
  · exact keeps_pure _
  · refine keeps_bind (keeps_knownType d) fun sized => ?_
    exact keeps_change (fun _ _ => Host.within_addStackVariable?) (keeps_pure _)

theorem keeps_placeAt (frame : Frame) (d : Die) (name : String) (range : Option AddressRange)
    (atom : LocationAtom) : Attempt.Keeps R (i.placeAt frame d name range atom) := by
  unfold placeAt
  split
  · exact keeps_holdInRegister _ _ _ _
  · split
    · exact keeps_putOnStack _ _ _ _
    · exact keeps_pure _
  · split
    · exact keeps_putOnStack _ _ _ _
    · exact keeps_pure _
  · exact keeps_pure _

theorem keeps_placeAll (frame : Frame) (d : Die) (name : String) (placed : Bool)
    (locations : List Location) :
    Attempt.Keeps R (i.placeAll frame d name placed locations) := by
  induction locations generalizing placed with
  | nil => exact keeps_pure _
  | cons l rest ih =>
    unfold placeAll
    split
    · exact ih placed
    · exact keeps_pure _
    · exact keeps_bind (keeps_placeAt _ _ _ _ _) fun _ => ih _

theorem keeps_placeVariable (frame : Frame) (d : Die) :
    Attempt.Keeps R (i.placeVariable frame d) := by
  refine keeps_bind (keeps_read _) fun name => ?_
  split
  · refine keeps_bind (keeps_read _) fun locations => ?_
    split
    · exact keeps_placeAll _ _ _ _ _
    · exact keeps_pure _
  · exact keeps_pure _

theorem keeps_placeLocals (h : ∀ frame d, Step.Keeps R (i.visitLocal frame d)) (d : Die) :
    Attempt.Keeps R (i.placeLocals d) := by
  refine keeps_bind (keeps_read _) fun lowPc => ?_
  split
  · refine keeps_get_bind fun s => ?_
    split
    · refine keeps_bind (keeps_read _) fun locations => ?_
      exact keeps_bind (keeps_lift (Step.keeps_forM (h _) _)) fun _ => keeps_pure _
    · exact keeps_pure _
  · exact keeps_pure _

/-! ## Walks -/

theorem keeps_countUnit (phase : Phase) {f : Stats → Stats} (hf : ∀ a : Stats, a.SameYield (f a))
    (hfailed : ∀ a : Stats, (f a).diesFailed = a.diesFailed) :
    Step.Keeps R (countUnit phase f) := by
  unfold countUnit
  split
  · exact Step.keeps_count hf hfailed
  · exact Step.keeps_pure _

theorem keeps_visitUnit {phase : Phase} (h : ∀ d, Step.Keeps R (i.visitOnce phase d))
    (slot : DebugInfo.Slot) : Step.Keeps R (i.visitUnit phase slot) := by
  unfold visitUnit
  split
  · exact Step.keeps_bind (Step.keeps_warn rfl) fun _ =>
      keeps_countUnit _ (fun _ => ⟨rfl, rfl, rfl, rfl, rfl, rfl⟩) fun _ => rfl
  · refine Step.keeps_bind
      (keeps_countUnit _ (fun _ => ⟨rfl, rfl, rfl, rfl, rfl, rfl⟩) fun _ => rfl) fun _ => ?_
    exact Step.keeps_forM h _

theorem keeps_visitUnits {phase : Phase} (h : ∀ d, Step.Keeps R (i.visitOnce phase d)) :
    Step.Keeps R (i.visitUnits phase) :=
  Step.keeps_forM (keeps_visitUnit h) _

end

end Importer

end DebugSymbols
