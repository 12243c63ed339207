import DebugSymbols.Proofs.Import.Past

/-!
Steps do not look back: a session goes on in the same way whatever it has behind it.
Main statements: `oblivious_resolveDie` is about resolving types, `oblivious_visitUnits` about
walks over all entries, `oblivious_runSecondPass` about repairs.
-/

namespace DebugSymbols

/-! ## Names -/

/-- What a registry says does not depend on the past. -/
structure Registry.Oblivious (r : Registry α) : Prop where
  find : ∀ b h name, r.find? (Host.withBlobs h b) name = r.find? h name
  fits : ∀ p s a, r.fits (Past.extend p s) a = r.fits s a
  add : ∀ b h name, r.add? (Host.withBlobs h b) name =
    (r.add? h name).map fun (a, h) => (a, h.withBlobs b)

open Attempt

theorem Registry.Oblivious.tryNames {r : Registry α} (hr : r.Oblivious) (n : Nat) (name : String) :
    Attempt.Oblivious (r.tryNames n name) := by
  induction n generalizing name with
  | zero => exact oblivious_pure _
  | succ n ih =>
    refine oblivious_get_bind (fun p s => ?_) fun s => ?_
    · have heq : r.find? (p.extend s).host name = r.find? s.host name := hr.find _ _ _
      rw [heq]
    · split
      · refine oblivious_bind (oblivious_ask fun p s => hr.fits p s _) fun b => ?_
        split
        · exact oblivious_pure _
        · exact ih _
      · refine oblivious_look fun p s => ?_
        rw [p.host_extend, hr.add]
        cases r.add? s.host name with
        | none => exact ih _ p s
        | some found => rfl

theorem Registry.Oblivious.reuseOrAdd {r : Registry α} (hr : r.Oblivious) (config : Config)
    (name : String) : Attempt.Oblivious (r.reuseOrAdd config name) := by
  refine oblivious_bind (hr.tryNames _ _) fun found => ?_
  split
  · exact oblivious_pure _
  · exact oblivious_throw _

namespace Importer

variable {i : Importer}

theorem oblivious_registerType (name : String) (shape : TypeShape) :
    Attempt.Oblivious (i.registerType name shape) := by
  have hr : (shapeRegistry shape).Oblivious :=
    ⟨fun _ _ _ => rfl, fun _ _ _ => rfl, fun b h name => h.addNamedType?_withBlobs b name shape⟩
  exact oblivious_map _ (hr.reuseOrAdd _ _)

/-! ## Types -/

theorem oblivious_settled {m : Attempt Ordinal} (hm : Attempt.Oblivious m) :
    Attempt.Oblivious (settled <$> m) := oblivious_map _ hm

theorem oblivious_baseType (d : Die) : Attempt.Oblivious (i.baseType d) := by
  refine oblivious_bind (oblivious_read _) fun name => ?_
  refine oblivious_bind (oblivious_read _) fun size => ?_
  refine oblivious_bind (oblivious_read _) fun encoding => ?_
  split
  · exact oblivious_pure _
  · split
    · refine oblivious_bind (oblivious_lift (Step.oblivious_warn _)) fun _ => ?_
      exact oblivious_settled (oblivious_registerType _ _)
    · exact oblivious_settled (oblivious_registerType _ _)

theorem oblivious_unspecifiedType (d : Die) : Attempt.Oblivious (i.unspecifiedType d) :=
  oblivious_bind (oblivious_read _) fun _ => oblivious_settled (oblivious_registerType _ _)

/-- The types that others refer to are resolved obliviously. -/
def ObliviousResolver (resolve : Resolver) : Prop := ∀ x, Step.Oblivious (resolve x)

variable {resolve : Resolver}

theorem oblivious_onTarget (hr : ObliviousResolver resolve) (d : Die)
    {f : Ordinal → Attempt Ordinal} (hf : ∀ o, Attempt.Oblivious (f o)) :
    Attempt.Oblivious (i.onTarget resolve d f) := by
  refine oblivious_bind ?_ fun t => ?_
  · refine oblivious_bind (oblivious_read _) fun reference => ?_
    split
    · exact oblivious_lift (hr _)
    · exact oblivious_map _ (oblivious_registerType _ _)
  · cases t with
    | resolved o => exact oblivious_settled (hf o)
    | inProgress => exact oblivious_pure _
    | missing => exact oblivious_pure _

theorem oblivious_nameOf (o : Ordinal) : Attempt.Oblivious (ask (·.nameOf o)) :=
  oblivious_ask fun _ _ => rfl

theorem oblivious_derivedType (hr : ObliviousResolver resolve) (d : Die) :
    Attempt.Oblivious (i.derivedType resolve d) := by
  refine oblivious_onTarget hr d fun o => oblivious_bind (oblivious_nameOf o) fun name => ?_
  split <;> exact oblivious_registerType _ _

theorem oblivious_functionType (hr : ObliviousResolver resolve) (d : Die) :
    Attempt.Oblivious (i.functionType resolve d) :=
  oblivious_onTarget hr d fun o =>
    oblivious_bind (oblivious_nameOf o) fun _ => oblivious_registerType _ _

theorem oblivious_arrayType (hr : ObliviousResolver resolve) (d : Die) :
    Attempt.Oblivious (i.arrayType resolve d) := by
  have htype : Attempt.Oblivious (i.onTarget resolve d (i.arrayOf d)) :=
    oblivious_onTarget hr d fun o =>
      oblivious_bind (oblivious_nameOf o) fun _ => oblivious_registerType _ _
  unfold arrayType
  split
  · exact oblivious_bind (oblivious_throw _) fun _ => htype
  · exact htype

theorem oblivious_declaredType (d : Die) : Attempt.Oblivious (i.declaredType d) := by
  refine oblivious_bind (oblivious_read _) fun name => ?_
  refine oblivious_get_bind (fun _ _ => rfl) fun s => ?_
  dsimp only
  split
  · exact oblivious_pure _
  · exact oblivious_settled (oblivious_registerType _ _)

/-! ## Enumerations -/

theorem oblivious_addAnonymousEnum (width : UInt8) :
    Attempt.Oblivious (addAnonymousEnum width) :=
  oblivious_look fun p s => by
    rw [p.host_extend, Host.addEnum?_withBlobs]
    cases s.host.addEnum? none width <;> rfl

theorem oblivious_anonymousEnum (d : Die) (width : UInt8) :
    Attempt.Oblivious (anonymousEnum d width) := by
  unfold anonymousEnum
  split
  · refine oblivious_bind (oblivious_read _) fun constant => ?_
    refine oblivious_get_bind (fun _ _ => rfl) fun s => ?_
    dsimp only
    split
    · refine oblivious_bind (oblivious_read _) fun same => ?_
      split
      · exact oblivious_pure _
      · exact oblivious_addAnonymousEnum width
    · exact oblivious_addAnonymousEnum width
  · exact oblivious_addAnonymousEnum width

theorem oblivious_enumFor (d : Die) (width : UInt8) :
    Attempt.Oblivious (i.enumFor d width) := by
  have hr : (enumRegistry d width).Oblivious :=
    ⟨fun _ _ _ => rfl, fun _ _ _ => rfl, fun b h name => h.addEnum?_withBlobs b name width⟩
  refine oblivious_bind (oblivious_read _) fun name => ?_
  split
  · exact hr.reuseOrAdd _ _
  · exact oblivious_anonymousEnum d width

theorem addConstants_withBlobs (id : EnumId) (constants : List (String × UInt64)) (b : Blobs)
    (h : Host) : addConstants id constants (h.withBlobs b) =
      (addConstants id constants h).withBlobs b := by
  induction constants generalizing h with
  | nil => rfl
  | cons constant rest ih =>
    have hstep : ((h.withBlobs b).addEnumConstant? id constant.1 constant.2).getD (h.withBlobs b) =
        ((h.addEnumConstant? id constant.1 constant.2).getD h).withBlobs b := by
      rw [Host.addEnumConstant?_withBlobs]
      cases h.addEnumConstant? id constant.1 constant.2 <;> rfl
    exact (congrArg _ hstep).trans (ih _)

theorem oblivious_enumWidth (d : Die) : Attempt.Oblivious (enumWidth d) := by
  refine oblivious_bind (oblivious_read _) fun size => ?_
  split
  · exact oblivious_pure _
  · exact oblivious_bind (oblivious_lift (Step.oblivious_warn _)) fun _ => oblivious_pure _

theorem oblivious_dismissAll (l : List Die) :
    Attempt.Oblivious (forIn l PUnit.unit fun c _ => do
      liftM (Step.updateCache (·.markUseless c.offset))
      pure (ForInStep.yield PUnit.unit)) := by
  induction l with
  | nil => exact oblivious_pure _
  | cons c rest ih =>
    rw [List.forIn_cons, bind_assoc]
    refine oblivious_bind (oblivious_lift (Step.oblivious_updateCache _)) fun _ => ?_
    rw [pure_bind]
    exact ih

theorem oblivious_enumType (d : Die) : Attempt.Oblivious (i.enumType d) := by
  refine oblivious_bind (oblivious_dismissAll _) fun _ => ?_
  refine oblivious_bind (oblivious_read _) fun declared => ?_
  split
  · exact oblivious_declaredType d
  · refine oblivious_bind (oblivious_enumWidth d) fun width => ?_
    refine oblivious_bind (oblivious_read _) fun constants => ?_
    refine oblivious_bind (oblivious_enumFor d width) fun (id, existed) => ?_
    have hordinal : Attempt.Oblivious (settled <$> ask (·.enumOrdinal id)) :=
      oblivious_settled (oblivious_ask fun _ _ => rfl)
    cases existed with
    | false => exact oblivious_setHost_bind (addConstants_withBlobs id constants) hordinal
    | true => exact hordinal

/-! ## Structures and unions -/

theorem oblivious_recordFor (d : Die) : Attempt.Oblivious (i.recordFor d) := by
  have hr (isUnion : Bool) : (i.structRegistry d isUnion).Oblivious :=
    ⟨fun _ _ _ => rfl, fun _ _ _ => rfl, fun b h name => h.addStruct?_withBlobs b name isUnion⟩
  refine oblivious_bind (oblivious_read _) fun name => ?_
  split
  · exact (hr _).reuseOrAdd _ _
  · refine oblivious_look fun p s => ?_
    rw [p.host_extend, Host.addStruct?_withBlobs]
    cases s.host.addStruct? none (decide (d.tag = .unionType)) <;> rfl

theorem oblivious_attachMember (owner : UInt64) (id : StructId) (m : MemberLayout) (o : Ordinal) :
    Attempt.Oblivious (attachMember owner id m o) := by
  refine oblivious_get_bind (fun p s => ?_) fun s => ?_
  · rw [p.sizedLinkTo_extend]
  · split
    · rename_i type size _
      refine oblivious_setHost
        (f := fun h => (h.addStructMember? id ⟨m.name, m.offset, size, type⟩).getD h) fun b h => ?_
      rw [Host.addStructMember?_withBlobs]
      cases h.addStructMember? id ⟨m.name, m.offset, size, type⟩ <;> rfl
    · exact oblivious_lift (Step.oblivious_warn _)
    · exact oblivious_throw _

theorem oblivious_addMember (hr : ObliviousResolver resolve) (owner : UInt64) (id : StructId)
    (m : MemberLayout) : Attempt.Oblivious (addMember resolve owner id m) := by
  unfold addMember
  split
  · exact oblivious_pure _
  · refine oblivious_bind (oblivious_lift (hr _)) fun t => ?_
    cases t with
    | resolved o => exact oblivious_bind (oblivious_attachMember _ _ _ _) fun _ => oblivious_pure _
    | inProgress => exact oblivious_pure _
    | missing => exact oblivious_pure _

theorem oblivious_addMembers (hr : ObliviousResolver resolve) (owner : UInt64) (id : StructId)
    (layout : List MemberLayout) : Attempt.Oblivious (addMembers resolve owner id layout) := by
  induction layout with
  | nil => exact oblivious_pure _
  | cons m rest ih =>
    refine oblivious_bind (oblivious_addMember hr _ _ _) fun _ => ?_
    exact oblivious_bind ih fun _ => oblivious_pure _

theorem oblivious_recordType (hr : ObliviousResolver resolve) (d : Die) :
    Attempt.Oblivious (i.recordType resolve d) := by
  refine oblivious_bind (oblivious_read _) fun declared => ?_
  split
  · exact oblivious_declaredType d
  · refine oblivious_bind (oblivious_read _) fun layout => ?_
    refine oblivious_bind (oblivious_recordFor d) fun found => ?_
    refine oblivious_bind (oblivious_ask fun _ _ => rfl) fun o => ?_
    split
    · exact oblivious_pure _
    · exact oblivious_bind (oblivious_addMembers hr _ _ _) fun _ => oblivious_pure _

/-! ## All kinds of types -/

theorem oblivious_typedefType (hr : ObliviousResolver resolve) (d : Die) :
    Attempt.Oblivious (i.typedefType resolve d) := by
  refine oblivious_bind (oblivious_read _) fun name => oblivious_onTarget hr d fun o => ?_
  refine oblivious_get_bind (fun _ _ => rfl) fun s => ?_
  refine oblivious_bind (oblivious_read _) fun existing => ?_
  split
  · exact oblivious_pure _
  · exact oblivious_bind (oblivious_nameOf o) fun _ => oblivious_registerType _ _

theorem oblivious_describe (hr : ObliviousResolver resolve) (d : Die) :
    Attempt.Oblivious (i.describe resolve d) := by
  unfold describe
  split
  · exact oblivious_baseType d
  · exact oblivious_unspecifiedType d
  · exact oblivious_enumType d
  · exact oblivious_derivedType hr d
  · exact oblivious_derivedType hr d
  · exact oblivious_derivedType hr d
  · exact oblivious_typedefType hr d
  · exact oblivious_arrayType hr d
  · exact oblivious_recordType hr d
  · exact oblivious_recordType hr d
  · exact oblivious_functionType hr d
  · exact oblivious_pure _

/-! ## Resolving -/

theorem oblivious_settle (x : UInt64) (result : Except ImportError Outcome) :
    Step.Oblivious (settle x result) := by
  rcases result with e | ⟨o, pending⟩ | - | -
  · exact Step.oblivious_bind (Step.oblivious_fail _ _) fun _ =>
      Step.oblivious_bind (Step.oblivious_updateCache _) fun _ => Step.oblivious_pure _
  · have hmark : Step.Oblivious (do
        Step.updateCache (·.markType x o pending)
        return Outcome.type o pending) :=
      Step.oblivious_bind (Step.oblivious_updateCache _) fun _ => Step.oblivious_pure _
    refine Step.oblivious_get_bind (fun _ _ => rfl) fun s => ?_
    split
    · refine Step.oblivious_bind (Step.oblivious_count fun a b => ?_) fun _ => hmark
      change { a + b with
        typesRegistered := a.typesRegistered + b.typesRegistered + 1
        structsPending := a.structsPending + b.structsPending + pending.toNat } = _
      rw [Nat.add_assoc, Nat.add_assoc]
      rfl
    · exact hmark
  · exact Step.oblivious_bind (Step.oblivious_updateCache _) fun _ => Step.oblivious_pure _
  · exact Step.oblivious_pure _

theorem obliviousResolver_resolveWith {visit : Die → Step Outcome}
    (hv : ∀ d, Step.Oblivious (visit d)) : ObliviousResolver (i.resolveWith visit) := fun x => by
  refine Step.oblivious_get_bind (fun _ _ => rfl) fun s => ?_
  split
  · exact Step.oblivious_pure _
  · exact Step.oblivious_pure _
  · split
    · exact Step.oblivious_pure _
    · split
      · exact Step.oblivious_bind (hv _) fun _ => Step.oblivious_pure _
      · refine Step.oblivious_bind (Step.oblivious_fail _ _) fun _ => ?_
        exact Step.oblivious_bind (Step.oblivious_updateCache _) fun _ => Step.oblivious_pure _

/-- Visiting an entry that is new, given what its handler does. -/
theorem oblivious_visitNew (x : UInt64) {handle : Step (Except ImportError Outcome)}
    (h : Step.Oblivious handle) :
    Step.Oblivious (do
      Step.count fun s => { s with diesDispatched := s.diesDispatched + 1 }
      modify fun s => { s with resolving := x :: s.resolving }
      let result ← handle
      modify fun s => { s with resolving := s.resolving.tail }
      settle x result) := by
  refine Step.oblivious_bind (Step.oblivious_count fun _ _ => rfl) fun _ => ?_
  refine Step.oblivious_bind (Step.oblivious_modify fun _ _ => rfl) fun _ => ?_
  refine Step.oblivious_bind h fun result => ?_
  exact Step.oblivious_bind (Step.oblivious_modify fun _ _ => rfl) fun _ =>
    oblivious_settle x result

theorem oblivious_resolveDie (levels : Nat) (d : Die) :
    Step.Oblivious (i.resolveDie levels d) := by
  induction levels generalizing d with
  | zero =>
    unfold resolveDie
    refine Step.oblivious_get_bind (fun _ _ => rfl) fun s => ?_
    split
    · exact Step.oblivious_pure _
    · exact Step.oblivious_pure _
    · split
      · exact Step.oblivious_pure _
      · exact oblivious_visitNew _ (Step.oblivious_pure _)
  | succ levels ih =>
    unfold resolveDie
    refine Step.oblivious_get_bind (fun _ _ => rfl) fun s => ?_
    split
    · exact Step.oblivious_pure _
    · exact Step.oblivious_pure _
    · split
      · exact Step.oblivious_pure _
      · exact oblivious_visitNew _ (oblivious_describe (obliviousResolver_resolveWith ih) d)

/-! ## Repairs -/

theorem obliviousResolver_resolve (i : Importer) : ObliviousResolver i.resolve :=
  obliviousResolver_resolveWith fun d => oblivious_resolveDie _ d

theorem oblivious_completeStruct (x : UInt64) (id : StructId) (layout : List MemberLayout) :
    Attempt.Oblivious (i.completeStruct x id layout) := by
  induction layout with
  | nil => exact oblivious_pure _
  | cons m rest ih =>
    have hrest (first : Bool) : Attempt.Oblivious (do
        let others ← i.completeStruct x id rest
        return first && others) := oblivious_bind ih fun _ => oblivious_pure _
    refine oblivious_get_bind (fun _ _ => rfl) fun s => ?_
    dsimp only
    split
    · exact oblivious_bind (oblivious_pure _) hrest
    · exact oblivious_bind (oblivious_addMember (obliviousResolver_resolve i) _ _ _) hrest

theorem oblivious_completeAt (x : UInt64) : Attempt.Oblivious (i.completeAt x) := by
  refine oblivious_bind (oblivious_read _) fun d => ?_
  refine oblivious_bind (oblivious_ask fun _ _ => rfl) fun id => ?_
  exact oblivious_bind (oblivious_read _) fun layout => oblivious_completeStruct _ _ _

theorem oblivious_repair (x : UInt64) : Step.Oblivious (i.repair x) := by
  refine Step.oblivious_bind (oblivious_completeAt x) fun result => ?_
  rcases result with e | complete
  · exact Step.oblivious_warn _
  · cases complete with
    | false => exact Step.oblivious_warn _
    | true =>
      refine Step.oblivious_bind (Step.oblivious_updateCache _) fun _ => ?_
      exact Step.oblivious_count fun _ _ => rfl

theorem oblivious_runSecondPass (i : Importer) : Step.Oblivious i.runSecondPass :=
  Step.oblivious_get_bind (fun _ _ => rfl) fun _ => Step.oblivious_forM oblivious_repair _

/-! ## Variables and labels -/

theorem oblivious_knownType (d : Die) : Attempt.Oblivious (knownType d) := by
  refine oblivious_bind (oblivious_read _) fun reference => ?_
  split
  · exact oblivious_pure _
  · refine oblivious_get_bind (fun p s => ?_) fun s => ?_
    · simp only [p.sizedLinkTo_extend]
      rfl
    · split
      · exact oblivious_pure _
      · split
        · exact oblivious_pure _
        · refine oblivious_bind (oblivious_lift (Step.oblivious_warn _)) fun _ => ?_
          exact oblivious_pure _
        · exact oblivious_throw _

theorem oblivious_holdInRegister (frame : Frame) (name : String) (range : Option AddressRange)
    (number : UInt16) : Attempt.Oblivious (i.holdInRegister frame name range number) := by
  unfold holdInRegister
  split
  · refine oblivious_look fun p s => ?_
    rw [p.host_extend, Host.addRegisterVariable?_withBlobs]
    cases s.host.addRegisterVariable? frame.function.start _ <;> rfl
  · exact oblivious_pure _

theorem oblivious_putOnStack (frame : Frame) (d : Die) (name : String) (offset : Int64) :
    Attempt.Oblivious (putOnStack frame d name offset) := by
  refine oblivious_get_bind (fun _ _ => rfl) fun s => ?_
  dsimp only
  split
  · exact oblivious_pure _
  · refine oblivious_bind (oblivious_knownType d) fun sized => ?_
    refine oblivious_look fun p s => ?_
    rw [p.host_extend, Host.addStackVariable?_withBlobs]
    cases s.host.addStackVariable? frame.function.start _ <;> rfl

theorem oblivious_placeAt (frame : Frame) (d : Die) (name : String) (range : Option AddressRange)
    (atom : LocationAtom) : Attempt.Oblivious (i.placeAt frame d name range atom) := by
  unfold placeAt
  split
  · exact oblivious_holdInRegister _ _ _ _
  · split
    · exact oblivious_putOnStack _ _ _ _
    · exact oblivious_pure _
  · split
    · exact oblivious_putOnStack _ _ _ _
    · exact oblivious_pure _
  · exact oblivious_pure _

theorem oblivious_placeAll (frame : Frame) (d : Die) (name : String) (placed : Bool)
    (locations : List Location) :
    Attempt.Oblivious (i.placeAll frame d name placed locations) := by
  induction locations generalizing placed with
  | nil => exact oblivious_pure _
  | cons l rest ih =>
    unfold placeAll
    split
    · exact ih placed
    · exact oblivious_pure _
    · exact oblivious_bind (oblivious_placeAt _ _ _ _ _) fun _ => ih _

theorem oblivious_placeVariable (frame : Frame) (d : Die) :
    Attempt.Oblivious (i.placeVariable frame d) := by
  refine oblivious_bind (oblivious_read _) fun name => ?_
  split
  · refine oblivious_bind (oblivious_read _) fun locations => ?_
    split
    · exact oblivious_placeAll _ _ _ _ _
    · exact oblivious_pure _
  · exact oblivious_pure _

theorem oblivious_skip (d : Die) : Step.Oblivious (visitLocal.skip d) :=
  Step.oblivious_bind (Step.oblivious_count fun _ _ => rfl) fun _ => Step.oblivious_updateCache _

theorem oblivious_visitLocal (frame : Frame) (d : Die) :
    Step.Oblivious (i.visitLocal frame d) := by
  refine Step.oblivious_get_bind (fun _ _ => rfl) fun s => ?_
  split
  · exact Step.oblivious_pure _
  · refine Step.oblivious_bind (oblivious_placeVariable frame d) fun result => ?_
    rcases result with e | placement
    · exact Step.oblivious_bind (Step.oblivious_fail _ _) fun _ => oblivious_skip d
    · cases placement with
      | placed =>
        refine Step.oblivious_bind (Step.oblivious_count fun _ _ => rfl) fun _ => ?_
        exact Step.oblivious_updateCache _
      | skipped => exact oblivious_skip d
      | static => exact Step.oblivious_pure _

theorem oblivious_placeLocals (d : Die) : Attempt.Oblivious (i.placeLocals d) := by
  refine oblivious_bind (oblivious_read _) fun lowPc => ?_
  split
  · refine oblivious_get_bind (fun _ _ => rfl) fun s => ?_
    split
    · refine oblivious_bind (oblivious_read _) fun locations => ?_
      exact oblivious_bind (oblivious_lift (Step.oblivious_forM (oblivious_visitLocal _) _))
        fun _ => oblivious_pure _
    · exact oblivious_pure _
  · exact oblivious_pure _

theorem oblivious_nameGlobal (address : UInt64) (name : String) :
    Attempt.Oblivious (nameGlobal address name) :=
  oblivious_look fun p s => by
    rw [p.host_extend, Host.setName?_withBlobs]
    cases s.host.setName? address name false <;> rfl

theorem oblivious_placeGlobal (d : Die) : Attempt.Oblivious (i.placeGlobal d) := by
  refine oblivious_bind (oblivious_read _) fun declared => ?_
  split
  · exact oblivious_pure _
  · refine oblivious_bind (oblivious_read _) fun locations => ?_
    split
    · split
      · refine oblivious_bind (oblivious_read _) fun declaration => ?_
        refine oblivious_bind (oblivious_read _) fun name => ?_
        split
        · rename_i address _ _ name
          refine oblivious_bind (oblivious_knownType _) fun sized => ?_
          split
          · rename_i type size
            exact oblivious_setHost_bind (f := fun h => h.applyType address type size)
              (fun _ _ => rfl) (oblivious_nameGlobal _ _)
          · exact oblivious_nameGlobal _ _
        · exact oblivious_pure _
      · exact oblivious_pure _
    · exact oblivious_pure _

theorem oblivious_nameLabel (d : Die) : Attempt.Oblivious (i.nameLabel d) := by
  refine oblivious_bind (oblivious_read _) fun parts => ?_
  split
  · refine oblivious_look fun p s => ?_
    rw [p.host_extend, Host.setName?_withBlobs]
    cases s.host.setName? _ _ true <;> rfl
  · exact oblivious_pure _

theorem oblivious_of_frameHandler? {d : Die} {m : Attempt Bool} (h : i.frameHandler? d = some m) :
    Attempt.Oblivious m := by
  unfold frameHandler? at h
  split at h
  · cases h
    exact oblivious_placeLocals d
  · cases h
    exact oblivious_placeGlobal d
  · cases h
    exact oblivious_nameLabel d
  · cases h

theorem oblivious_visitPlaced (d : Die) : Step.Oblivious (i.visitPlaced d) := by
  unfold visitPlaced
  split
  · exact Step.oblivious_bind (Step.oblivious_updateCache _) fun _ => Step.oblivious_pure _
  · rename_i m hm
    refine Step.oblivious_bind (oblivious_of_frameHandler? hm) fun result => ?_
    refine Step.oblivious_bind (Step.oblivious_count fun _ _ => rfl) fun _ => ?_
    have mark (f : OffsetCache → OffsetCache) : Step.Oblivious (do
        Step.updateCache f
        return true) :=
      Step.oblivious_bind (Step.oblivious_updateCache f) fun _ => Step.oblivious_pure _
    dsimp only
    split
    · exact mark _
    · exact mark _
    · exact Step.oblivious_bind (Step.oblivious_fail _ _) fun _ => mark _

/-! ## Visits -/

theorem oblivious_visit (phase : Phase) (d : Die) : Step.Oblivious (i.visit phase d) := by
  cases phase with
  | types =>
    unfold visit
    dsimp only
    split
    · exact Step.oblivious_bind (oblivious_resolveDie _ d) fun _ => Step.oblivious_pure _
    · exact Step.oblivious_pure _
  | frames => exact oblivious_visitPlaced d

theorem oblivious_visitOnce (phase : Phase) (d : Die) : Step.Oblivious (i.visitOnce phase d) := by
  refine Step.oblivious_get_bind (fun _ _ => rfl) fun s => ?_
  split
  · exact Step.oblivious_bind (oblivious_visit phase d) fun _ => Step.oblivious_pure _
  · exact Step.oblivious_pure _

theorem oblivious_countUnit (phase : Phase) {f : Stats → Stats}
    (hf : ∀ a b, f (a + b) = a + f b) : Step.Oblivious (countUnit phase f) := by
  unfold countUnit
  split
  · exact Step.oblivious_count hf
  · exact Step.oblivious_pure _

theorem oblivious_visitUnit (phase : Phase) (slot : DebugInfo.Slot) :
    Step.Oblivious (i.visitUnit phase slot) := by
  unfold visitUnit
  split
  · exact Step.oblivious_bind (Step.oblivious_warn _) fun _ =>
      oblivious_countUnit phase fun _ _ => rfl
  · exact Step.oblivious_bind (oblivious_countUnit phase fun _ _ => rfl) fun _ =>
      Step.oblivious_forM (oblivious_visitOnce phase) _

theorem oblivious_visitUnits (i : Importer) (phase : Phase) :
    Step.Oblivious (i.visitUnits phase) :=
  Step.oblivious_forM (oblivious_visitUnit phase) _

theorem oblivious_process (i : Importer) (x : UInt64) (phase : Phase) :
    Attempt.Oblivious (i.process x phase) := by
  refine oblivious_get_bind (fun _ _ => rfl) fun s => ?_
  split
  · exact oblivious_pure _
  · exact oblivious_bind (oblivious_read _) fun d => oblivious_lift (oblivious_visit phase d)

end Importer

end DebugSymbols
