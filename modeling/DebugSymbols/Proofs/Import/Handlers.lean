import DebugSymbols.Import.Resolution
import DebugSymbols.Proofs.Dwarf.Lookup
import DebugSymbols.Proofs.Import.Aliases
import DebugSymbols.Proofs.Import.Enumerations

/-!
What the handler of each kind of entry comes to.  Given a resolver that answers truly, the handler
of an entry makes a trace, and what it finds is so (`Describes`).
-/

namespace DebugSymbols.Importer

variable {i : Importer} {scope : Scope} {σ : History} {d : Die} {resolve : Resolver}

/-! ## Contracts -/

/-- What the answer of a resolver says. -/
def Answers (i : Importer) (τ : History) (x : UInt64) : TypeRef → Prop
  | .resolved o => τ.session.TypeAt x o
  | .missing => τ.session.cache.has x = true ∧ τ.session.cache.type? x = none
  | .inProgress => i.Awaits τ.session.resolving x

/-- The resolver makes traces and answers truly. -/
def Resolves (i : Importer) (scope : Scope) (resolve : Resolver) : Prop :=
  ∀ σ x, i.Sound σ → i.MayAsk scope x σ.session.resolving →
    Step.Tracks i scope σ (resolve x) fun r τ => i.Answers τ x r

/-- The entry is the innermost one that is being resolved. -/
structure Turn (i : Importer) (σ : History) (d : Die) : Prop where
  sound : i.Sound σ
  at_ : i.info.dieAt d.offset = .ok d
  head : σ.session.resolving.head? = some d.offset

theorem Turn.later {τ : History} (h : i.Turn σ d) (ht : i.Trace scope σ τ)
    (hstack : τ.session.resolving = σ.session.resolving) : i.Turn τ d :=
  ⟨Trace.sound h.sound ht, h.at_, hstack ▸ h.head⟩

theorem Turn.mayAsk (h : i.Turn σ d) {x : UInt64} (hx : d.Refers x) :
    i.MayAsk scope x σ.session.resolving := by
  have hhead := h.head
  cases hstack : σ.session.resolving with
  | nil => simp [hstack] at hhead
  | cons y rest =>
    simp only [hstack, List.head?_cons, Option.some.injEq] at hhead
    exact ⟨d, hhead ▸ h.at_, hx⟩

/-- What the handler of an entry has to come to. -/
abbrev Describes (i : Importer) (scope : Scope) (σ : History) (d : Die)
    (m : Attempt Outcome) : Prop :=
  Attempt.Tracks i scope σ m (fun out τ => i.Finding τ d out) fun _ _ => True

theorem not_definesRecord (h : d.tag.isRecord = false) : ¬ d.DefinesRecord := by
  rintro ⟨hrecord, -⟩
  rw [h] at hrecord
  cases hrecord

theorem not_declares (h : d.tag.isRecord = false) (henum : d.tag ≠ .enumerationType)
    {stated : String} : ¬ d.Declares stated := by
  rintro ⟨hrecord | htag, -, -⟩
  · rw [h] at hrecord
    cases hrecord
  · exact henum htag

theorem not_enumerates (h : d.tag ≠ .enumerationType) {ps : List (String × UInt64)} :
    ¬ d.Enumerates ps := fun hd => h hd.tag

/-- An entry that is neither a structure, union or enumeration nor made from another type is a type
as soon as it has one. -/
theorem finding_plain {τ : History} {o : Ordinal} (hrecord : d.tag.isRecord = false)
    (hmodifier : d.tag.isModifier = false) (henum : d.tag ≠ .enumerationType)
    (ho : τ.session.Denotes d o) : i.Finding τ d (.type o false) :=
  .plain (not_definesRecord hrecord) hmodifier ho
    (fun _ hd => (not_declares hrecord henum hd).elim) fun _ hd => (not_enumerates henum hd).elim

/-! ## Types that stand for themselves -/

theorem tracks_void (hs : i.Sound σ) :
    Attempt.Tracks i scope σ i.void
      (fun o τ => ∃ name, τ.session.host.database.numberedType? o = some ⟨name, .void⟩)
      fun _ _ => True :=
  tracks_registerType hs "void" id nofun

theorem baseShape?_not_isDefinition {encoding : Int} {size : UInt64} {shape : TypeShape}
    {expected : Bool} (h : baseShape? encoding size = some (shape, expected)) :
    ¬ shape.IsDefinition := by
  unfold baseShape? at h
  simp only at h
  split at h <;> simp only [Option.some.injEq, Prod.mk.injEq, reduceCtorEq] at h
  all_goals
    rw [← h.1]
    exact id

theorem describes_baseType (ht : i.Turn σ d) (htag : d.tag = .baseType) :
    i.Describes scope σ d (i.baseType d) := by
  refine Attempt.tracks_read_bind (fun name _ => ?_) fun _ _ => trivial
  refine Attempt.tracks_read_bind (fun size hsize => ?_) fun _ _ => trivial
  refine Attempt.tracks_read_bind (fun encoding hencoding => ?_) fun _ _ => trivial
  split
  · exact Attempt.tracks_pure .useless
  · rename_i shape expected hshape
    have register {τ : History} (hs : i.Sound τ) :
        i.Describes scope τ d (settled <$> i.registerType name shape) := by
      have hplain := baseShape?_not_isDefinition hshape
      refine Attempt.tracks_map
        ((tracks_registerType hs name hplain (baseShape?_inner? hshape).2).imp ?_ fun _ _ h => h)
      rintro o υ - - ⟨taken, ho⟩
      refine finding_plain (by rw [htag]; rfl) (by rw [htag]; rfl) (by simp [htag]) ⟨_, ho, ?_⟩
      unfold Session.Translates
      rw [htag]
      exact ⟨encoding, size, expected, hencoding, hsize, hshape⟩
    split
    · exact Attempt.tracks_bind (Attempt.tracks_lift (Step.tracks_warn _))
        fun _ τ htrace _ _ => register (Trace.sound ht.sound htrace)
    · exact register ht.sound

theorem describes_unspecifiedType (ht : i.Turn σ d) (htag : d.tag = .unspecifiedType) :
    i.Describes scope σ d (i.unspecifiedType d) := by
  refine Attempt.tracks_read_bind (fun name _ => ?_) fun _ _ => trivial
  refine Attempt.tracks_map ((tracks_registerType ht.sound _ id (by simp)).imp ?_ fun _ _ h => h)
  rintro o τ - - ⟨taken, ho⟩
  refine finding_plain (by rw [htag]; rfl) (by rw [htag]; rfl) (by simp [htag]) ⟨_, ho, ?_⟩
  unfold Session.Translates
  rw [htag]

/-! ## Types that are made from others -/

/-- What the answer about the type that an entry is made from says. -/
def TargetAnswers (i : Importer) (τ : History) (d : Die) : TypeRef → Prop
  | .resolved o => τ.session.Target d o
  | .missing => True
  | .inProgress => ∃ y, d.Modifies y ∧ i.Awaits τ.session.resolving y

theorem Answers.target {τ : History} {y : UInt64} {r : TypeRef} (h : i.Answers τ y r)
    (hy : d.Modifies y) : i.TargetAnswers τ d r := by
  cases r with
  | resolved o =>
    unfold TargetAnswers Session.Target
    rw [hy.2]
    exact h
  | missing => trivial
  | inProgress => exact ⟨y, hy, h⟩

theorem tracks_target (hr : i.Resolves scope resolve) (ht : i.Turn σ d)
    (htag : d.tag.isModifier = true) :
    Attempt.Tracks i scope σ (i.target resolve d) (fun r τ => i.TargetAnswers τ d r)
      fun _ _ => True := by
  refine Attempt.tracks_read_bind (fun reference hreference => ?_) fun _ _ => trivial
  cases reference with
  | some y =>
    have hmodifies : d.Modifies y := ⟨htag, hreference⟩
    refine Attempt.tracks_lift ((hr σ y ht.sound (ht.mayAsk (.inl hmodifies))).imp ?_)
    exact fun r τ _ _ hanswer => hanswer.target hmodifies
  | none =>
    refine Attempt.tracks_map ((tracks_void ht.sound).imp ?_ fun _ _ h => h)
    intro o τ _ _ ho
    unfold TargetAnswers Session.Target
    rw [hreference]
    exact ho

/-- A target is the type of an entry, or void. -/
theorem occurs_of_target {s : Session} {o : Ordinal} (h : s.Target d o) : s.Occurs o := by
  unfold Session.Target at h
  split at h
  · exact .inl ⟨_, h⟩
  · exact .inr h
  · exact h.elim

theorem Sound.grounded_target (hs : i.Sound σ) {o : Ordinal} (h : σ.session.Target d o) :
    σ.session.host.database.Grounded o := by
  unfold Session.Target at h
  split at h
  · exact hs.grounded h
  · obtain ⟨name, ht⟩ := h
    exact .own ht rfl (by simp)
  · exact h.elim

/-- The type is the translation of the entry that is made from another type, and its size is looked
up through types that are there.  That of a typedef has the name that it is to have. -/
structure Renders (i : Importer) (τ : History) (d : Die) (o o' : Ordinal) : Prop where
  denotes : τ.session.Denotes d o'
  grounded : τ.session.host.database.Grounded o'
  aliased : d.tag = .typedef → ∀ stated, d.name = .ok stated → i.Aliased τ.session stated o o'

/-- From the type that an entry is made from, its own type is made. -/
def Derives (i : Importer) (scope : Scope) (d : Die) (f : Ordinal → Attempt Ordinal) :
    Prop :=
  ∀ o τ, i.Sound τ → τ.session.Target d o →
    Attempt.Tracks i scope τ (f o) (fun o' υ => i.Renders υ d o o') fun _ _ => True

theorem describes_ofTarget {f : Ordinal → Attempt Ordinal} (ht : i.Turn σ d)
    (htag : d.tag.isModifier = true) (hf : i.Derives scope d f) {r : TypeRef}
    (hr : i.TargetAnswers σ d r) : i.Describes scope σ d (ofTarget f r) := by
  cases r with
  | resolved o =>
    refine Attempt.tracks_map ((hf o σ ht.sound hr).imp ?_ fun _ _ h => h)
    exact fun o' τ htrace _ hrenders =>
      .derived htag (Session.Target.mono (Trace.extends ht.sound htrace) hr) hrenders.denotes
        hrenders.grounded hrenders.aliased
  | inProgress =>
    obtain ⟨y, hmodifies, hawaits⟩ := hr
    exact Attempt.tracks_pure (.deferred hmodifies hawaits)
  | missing => exact Attempt.tracks_pure .useless

theorem describes_onTarget {f : Ordinal → Attempt Ordinal} (hr : i.Resolves scope resolve)
    (ht : i.Turn σ d) (htag : d.tag.isModifier = true) (hf : i.Derives scope d f) :
    i.Describes scope σ d (i.onTarget resolve d f) :=
  Attempt.tracks_bind (tracks_target hr ht htag) fun _ _ htrace hstack hanswer =>
    describes_ofTarget (ht.later htrace hstack) htag hf hanswer

/-- A new type is the translation of the entry if its shape is, now and later. -/
theorem renders_registerType {name : String} {shape : TypeShape} {o : Ordinal} (hs : i.Sound σ)
    (hshape : ¬ shape.IsDefinition) (hsupports : σ.session.host.database.Supports shape)
    (halias : ∀ target, shape ≠ .typedef target) (htag : d.tag ≠ .typedef)
    (ht : ∀ o, σ.session.Translates d o shape) :
    Attempt.Tracks i scope σ (i.registerType name shape) (fun o' τ => i.Renders τ d o o')
      fun _ _ => True := by
  refine (tracks_registerType hs name hshape halias).imp ?_ fun _ _ h => h
  rintro o' τ htrace - ⟨taken, ho⟩
  have he := Trace.extends hs htrace
  exact ⟨⟨_, ho, (ht o').mono he⟩, (hsupports.mono he.host.database).grounded ho,
    fun h => absurd h htag⟩

theorem derives_derivedFrom
    (htag : d.tag = .constType ∨ d.tag = .volatileType ∨ d.tag = .pointerType) :
    i.Derives scope d (i.derivedFrom d) := by
  intro o τ hs htarget
  have hgrounded := hs.grounded_target htarget
  refine Attempt.tracks_ask_bind (fun name _ => ?_) fun _ _ => trivial
  split
  · rename_i hconst
    refine renders_registerType hs id (Database.supports_of_inner rfl hgrounded) nofun
      (by simp [hconst]) fun _ => ?_
    unfold Session.Translates
    rw [hconst]
    exact ⟨o, rfl, htarget⟩
  · rename_i hvolatile
    refine renders_registerType hs id (Database.supports_of_inner rfl hgrounded) nofun
      (by simp [hvolatile]) fun _ => ?_
    unfold Session.Translates
    rw [hvolatile]
    exact ⟨o, rfl, htarget⟩
  · rename_i hconst hvolatile
    have hpointer : d.tag = .pointerType := by
      rcases htag with h | h | h
      · exact absurd h hconst
      · exact absurd h hvolatile
      · exact h
    refine renders_registerType hs id ⟨nofun, nofun⟩ nofun (by simp [hpointer]) fun _ => ?_
    unfold Session.Translates
    rw [hpointer]
    exact ⟨o, rfl, htarget⟩

theorem derives_functionTo (htag : d.tag = .subroutineType) :
    i.Derives scope d i.functionTo := by
  intro o τ hs htarget
  refine Attempt.tracks_ask_bind (fun name _ => ?_) fun _ _ => trivial
  refine renders_registerType hs id ⟨nofun, nofun⟩ nofun (by simp [htag]) fun _ => ?_
  unfold Session.Translates
  rw [htag]
  exact ⟨o, rfl, htarget⟩

/-- An attribute that is there refers to something, if it can be read. -/
theorem reference?_ne_none (h : d.hasAttribute .type = true) : d.reference? .type ≠ .ok none := by
  obtain ⟨a, ha⟩ := Option.isSome_iff_exists.mp h
  unfold Die.reference? Die.optional
  rw [ha]
  intro heq
  obtain ⟨y, -, hy⟩ := Except.bind_eq_ok (x := Die.supported .type (d.unit.reference? a.value)) heq
  cases hy

theorem derives_arrayOf (htag : d.tag = .arrayType) (hattribute : d.hasAttribute .type = true) :
    i.Derives scope d (i.arrayOf d) := by
  intro o τ hs htarget
  have hgrounded := hs.grounded_target htarget
  refine Attempt.tracks_ask_bind (fun name _ => ?_) fun _ _ => trivial
  refine renders_registerType hs id (Database.supports_of_inner rfl hgrounded) nofun
      (by simp [htag]) fun _ => ?_
  unfold Session.Target at htarget
  split at htarget
  · rename_i y hreference
    unfold Session.Translates
    rw [htag]
    exact ⟨o, y, rfl, hreference, htarget⟩
  · rename_i hnone
    exact absurd hnone (reference?_ne_none hattribute)
  · exact htarget.elim

theorem describes_arrayType (hr : i.Resolves scope resolve) (ht : i.Turn σ d)
    (htag : d.tag = .arrayType) : i.Describes scope σ d (i.arrayType resolve d) := by
  unfold arrayType
  split
  · have hthrow : Attempt.Tracks i scope σ
        (throw (.debugInfo (.missingAttribute .type)) : Attempt PUnit) (fun _ _ => False)
        fun _ _ => True := Attempt.tracks_throw trivial
    exact Attempt.tracks_bind hthrow fun _ _ _ _ h => h.elim
  · rename_i hattribute
    exact describes_onTarget hr ht (by rw [htag]; rfl)
      (derives_arrayOf htag (by simpa using hattribute))

/-! ## Other names of types -/

section Aliases

variable {τ : History} {stated : String} {o : Ordinal}

theorem stated_unique (hname : d.name = .ok stated) {name : String} (h : d.name = .ok name) :
    name = stated := by
  rw [hname] at h
  cases h
  rfl

/-- The type that has the name of a typedef already and is another name for the same. -/
theorem Sound.renders_sameAlias (hs : i.Sound σ) (htag : d.tag = .typedef)
    (hname : d.name = .ok stated) {existing : Ordinal}
    (halias : i.sameAlias? σ.session stated o = .ok (some existing)) :
    i.Renders σ d o existing := by
  obtain ⟨shape, e, hcompares, hfits⟩ := hs.sameAlias?_eq_some.mp halias
  obtain ⟨other, q, hexisting, hother, hget⟩ := hcompares.aliased
  refine ⟨⟨_, hexisting, ?_⟩, .named hexisting rfl hother (.of_isDefinition hget hfits.isDefinition),
    fun _ name h => stated_unique hname h ▸ .same halias⟩
  unfold Session.Translates
  rw [htag]
  exact ⟨other, rfl, by rw [hother]; rfl⟩

/-- The type that has the first name which is not taken by something else. -/
theorem Registered.renders_typedef (hs : i.Sound σ) (htrace : i.Trace scope σ τ)
    (htag : d.tag = .typedef) (hname : d.name = .ok stated) (htarget : σ.session.Target d o)
    (halias : i.sameAlias? σ.session stated o = .ok none) {t : NamedType}
    (hget : σ.session.host.database.numberedType? o = some t) {o' : Ordinal} {k : Nat}
    (hr : Registered σ τ stated (.typedef t.name) o' k) : i.Renders τ d o o' := by
  have he := (Trace.extends hs htrace).host.database
  have hnamed := hs.coherent.named hget
  obtain ⟨t', ht', hbecomes⟩ := he.types hget
  have hrenames : τ.session.host.database.Renames stated t'.name o' k := by
    rw [hbecomes.name]
    exact ⟨hr.named, hr.numbered, fun j hj => Database.Excludes.mono he <|
      (passes_shapeRegistry_iff hs.accepts).mp (hr.reaches j hj)⟩
  have hdiffers (hk : 0 < k) (p : Ordinal) : i.sameAlias? τ.session stated o ≠ .ok (some p) :=
    hr.sameAlias?_ne hs (Trace.sound hs htrace) he hk (by simp [halias]) p
  refine ⟨⟨_, hr.numbered, ?_⟩,
    .named hr.numbered rfl (he.named hnamed) ((hs.grounded_target htarget).mono he),
    fun _ name h => stated_unique hname h ▸ .renamed ht' hrenames hdiffers⟩
  unfold Session.Translates
  rw [htag]
  exact ⟨t.name, rfl, he.isSome_named (by rw [hnamed]; rfl)⟩

/-- A typedef gets the type that has its name, if that is another name for the same, or else one
that has the first name that is not taken by something else. -/
theorem derives_aliasOf (htag : d.tag = .typedef) (hname : d.name = .ok stated) :
    i.Derives scope d (i.aliasOf stated) := by
  intro o τ hs htarget
  refine Attempt.tracks_get_bind (Attempt.tracks_read_bind (fun alias_ halias => ?_)
    fun _ _ => trivial)
  split
  · exact Attempt.tracks_pure (hs.renders_sameAlias htag hname halias)
  · refine Attempt.tracks_ask_bind (fun name' hname' => ?_) fun _ _ => trivial
    unfold Session.nameOf at hname'
    rw [hs.numberedType?] at hname'
    split at hname'
    · rename_i t hget
      cases hname'
      have hoccurs (target : String) (h : TypeShape.typedef t.name = .typedef target) :
          ∃ q, τ.session.host.database.namedType? target = some q ∧ τ.session.Occurs q := by
        cases h
        exact ⟨o, hs.coherent.named hget, occurs_of_target htarget⟩
      refine (tracks_registerType_first hs stated id hoccurs).imp ?_ fun _ _ h => h
      rintro o' υ htrace - ⟨k, hregistered⟩
      exact hregistered.renders_typedef hs htrace htag hname htarget halias hget
    · cases hname'

end Aliases

theorem describes_typedefType (hr : i.Resolves scope resolve) (ht : i.Turn σ d)
    (htag : d.tag = .typedef) : i.Describes scope σ d (i.typedefType resolve d) := by
  refine Attempt.tracks_read_bind (fun name hname => ?_) fun _ _ => trivial
  exact describes_onTarget hr ht (by rw [htag]; rfl) (derives_aliasOf htag hname)

/-! ## Declarations -/

theorem translates_declaration {s : Session} {o : Ordinal} {shape : TypeShape}
    (htag : d.tag.isRecord = true ∨ d.tag = .enumerationType) (hd : d.isDeclaration = .ok true)
    (hshape : shape = .incomplete ∨ shape.IsDefinition) : s.Translates d o shape := by
  unfold Session.Translates
  rw [isRecord_iff, or_assoc] at htag
  rcases htag with htag | htag | htag
  all_goals
    rw [htag, hd]
    exact hshape

/-- The structure, union or enumeration of that name. -/
def definitionNamed? (h : Host) (name : String) : Option Ordinal := do
  let ordinal ← h.namedType? name
  match (← h.numberedType? ordinal).shape with
  | .struct _ | .union _ | .enum _ => some ordinal
  | _ => none

/-- What a declaration stands for, given the definition of its name. -/
def declaredAs (i : Importer) (name : String) : Option Ordinal → Attempt Outcome
  | some o => pure (settled o)
  | none => settled <$> i.registerType name .incomplete

theorem Sound.definitionNamed?_eq_some (hs : i.Sound σ) {name : String} {o : Ordinal}
    (h : definitionNamed? σ.session.host name = some o) :
    σ.session.host.database.namedType? name = some o ∧
      ∃ t, σ.session.host.database.numberedType? o = some t ∧ t.shape.IsDefinition := by
  obtain ⟨o', hnamed, h⟩ := Option.bind_eq_some_iff.mp h
  obtain ⟨t, hget, h⟩ := Option.bind_eq_some_iff.mp h
  rw [hs.numberedType?] at hget
  split at h
  case h_4 => cases h
  all_goals
    rename_i hshape
    cases h
    exact ⟨hnamed, t, hget, by rw [hshape]; trivial⟩

/-- What has taken a name is foreign if it is no definition. -/
theorem Sound.foreign_of_taken (hs : i.Sound σ) {name : String}
    (hnone : definitionNamed? σ.session.host name = none)
    (htaken : σ.session.host.database.Taken name) : σ.session.host.database.Foreign name := by
  obtain ⟨o, t, hnamed, ht, hshape⟩ := htaken
  refine ⟨o, t, hnamed, ht, hshape, fun hdefinition => ?_⟩
  have hfind : σ.session.host.namedType? name = some o := hnamed
  simp only [definitionNamed?, hfind, hs.numberedType?, ht, Option.bind_eq_bind,
    Option.bind_some] at hnone
  unfold TypeShape.IsDefinition at hdefinition
  split at hnone <;> simp_all

/-- A new incomplete type stands for what is declared. -/
theorem Registered.stands {τ : History} (hs : i.Sound σ) (htrace : i.Trace scope σ τ)
    {name : String} (hnone : definitionNamed? σ.session.host name = none) {o : Ordinal} {k : Nat}
    (hr : Registered σ τ name .incomplete o k) : τ.session.host.database.Stands name o k := by
  have he := (Trace.extends hs htrace).host.database
  have htaken (j : Nat) (hj : j < k) : σ.session.host.database.Taken (underscored j name) :=
    (passes_shapeRegistry_iff hs.accepts).mp (hr.reaches j hj)
  exact ⟨hr.named, ⟨_, hr.numbered, .inl rfl⟩, fun j hj => (htaken j hj).mono he,
    fun hk => (hs.foreign_of_taken hnone (htaken 0 hk)).mono he⟩

theorem describes_declaredType (ht : i.Turn σ d)
    (htag : d.tag.isRecord = true ∨ d.tag = .enumerationType) (hd : d.isDeclaration = .ok true) :
    i.Describes scope σ d (i.declaredType d) := by
  have hrecord : ¬ d.DefinesRecord := by
    rintro ⟨-, hfalse⟩
    rw [hd] at hfalse
    cases hfalse
  have hmodifier : d.tag.isModifier = false := by
    rcases htag with htag | htag
    · exact isModifier_of_isRecord htag
    · rw [htag]
      rfl
  refine Attempt.tracks_read_bind (fun name hname => ?_) fun _ _ => trivial
  have hdefines {ps : List (String × UInt64)} : ¬ d.Enumerates ps := fun hps =>
    nomatch hd.symm.trans hps.definition
  refine Attempt.tracks_get_bind ?_
  change Attempt.Tracks i scope σ (i.declaredAs name (definitionNamed? σ.session.host name)) _ _
  cases hknown : definitionNamed? σ.session.host name with
  | some o =>
    obtain ⟨hnamed, t, hget, hshape⟩ := ht.sound.definitionNamed?_eq_some hknown
    refine Attempt.tracks_pure (.plain hrecord hmodifier
      ⟨t, hget, translates_declaration htag hd (.inr hshape)⟩
      (fun stated hdeclares => ⟨0, ?_⟩) fun _ hps => (hdefines hps).elim)
    rw [stated_unique hname hdeclares.name]
    exact ⟨hnamed, ⟨t, hget, .inr hshape⟩, nofun, nofun⟩
  | none =>
    refine Attempt.tracks_map
      ((tracks_registerType_first ht.sound name id (by simp)).imp ?_ fun _ _ h => h)
    rintro o τ htrace - ⟨k, hregistered⟩
    refine .plain hrecord hmodifier
      ⟨_, hregistered.numbered, translates_declaration htag hd (.inl rfl)⟩
      (fun stated hdeclares => ⟨k, ?_⟩) fun _ hps => (hdefines hps).elim
    rw [stated_unique hname hdeclares.name]
    exact hregistered.stands ht.sound htrace hknown

/-! ## Enumerations -/

/-- All but the first of the types that are being resolved refer to another one. -/
theorem exists_of_isChain {α : Type} {R : α → α → Prop} {x : α} {l : List α}
    (h : (x :: l).IsChain R) : ∀ y ∈ l, ∃ z, R z y := by
  induction l generalizing x with
  | nil => exact nofun
  | cons z rest ih =>
    obtain ⟨hxz, hrest⟩ := List.isChain_cons_cons.mp h
    intro y hy
    rcases List.mem_cons.mp hy with rfl | hy
    · exact ⟨x, hxz⟩
    · exact ih hrest y hy

/-- The constants of an enumeration are not being resolved. -/
theorem Turn.enumerator_notMem (hi : i.info.Indexed) (ht : i.Turn σ d)
    (htag : d.tag = .enumerationType) {c : Die} (hc : c ∈ d.enumerators) :
    c.offset ∉ σ.session.resolving := by
  obtain ⟨hchild, hctag⟩ := List.mem_filter.mp hc
  simp only [decide_eq_true_eq] at hctag
  have hat := hi.dieAt_of_holds ((DebugInfo.holds_of_dieAt ht.at_).child hchild)
  have hhead := ht.head
  have hchain := ht.sound.chain
  cases hstack : σ.session.resolving with
  | nil => exact nofun
  | cons x rest =>
    rw [hstack] at hhead hchain
    cases hhead
    intro hmem
    rcases List.mem_cons.mp hmem with heq | hmem
    · have hdc := ht.at_
      rw [← heq, hat] at hdc
      cases hdc
      rw [htag] at hctag
      cases hctag
    · obtain ⟨z, d', hat', hrefers⟩ := exists_of_isChain hchain _ hmem
      rw [hat] at hat'
      cases hat'
      rcases hrefers with ⟨hmodifier, -⟩ | ⟨hrecord, -⟩
      · rw [hctag] at hmodifier
        cases hmodifier
      · rw [hctag] at hrecord
        cases hrecord

theorem Turn.enumerates (ht : i.Turn σ d) (htag : d.tag = .enumerationType) :
    i.Enumerates σ.session.resolving :=
  ⟨d, ht.head, ht.at_, htag⟩

theorem tracks_setHost {σ τ : History} {h : Host} (hc : i.Change scope σ τ)
    (hτ : τ.session = { σ.session with host := h }) :
    Step.Tracks i scope σ (Step.setHost h) fun _ υ => υ = τ :=
  Step.tracks_modify hc hτ.symm (by rw [hτ]) rfl

theorem tracks_dismissAll {l : List Die} (hl : ∀ c ∈ l, c.offset ∉ σ.session.resolving) :
    Attempt.Tracks i scope σ
      (forIn l PUnit.unit fun c _ => do
        liftM (Step.updateCache (·.markUseless c.offset))
        pure (ForInStep.yield PUnit.unit))
      (fun _ _ => True) fun _ _ => True := by
  induction l generalizing σ with
  | nil => exact Attempt.tracks_pure trivial
  | cons c rest ih =>
    rw [List.forIn_cons, bind_assoc]
    refine Attempt.tracks_bind (Attempt.tracks_lift (Step.tracks_markUseless (hl c (by simp)))) ?_
    intro _ τ _ hstack _
    rw [pure_bind]
    exact ih fun c' hc' => by
      rw [hstack]
      exact hl c' (by simp [hc'])

theorem tracks_enumWidth (d : Die) :
    Attempt.Tracks i scope σ (enumWidth d) (fun _ _ => True) fun _ _ => True := by
  refine Attempt.tracks_read_bind (fun size _ => ?_) fun _ _ => trivial
  split
  · exact Attempt.tracks_pure trivial
  · exact Attempt.tracks_bind (Attempt.tracks_lift (Step.tracks_warn _))
      fun _ _ _ _ _ => Attempt.tracks_pure trivial

/-- An enumeration gets its constants when it is made, so this is one change. -/
theorem describes_enumFor_bind (ht : i.Turn σ d) (htag : d.tag = .enumerationType) {width : UInt8}
    {constants : List (String × UInt64)}
    (hconstants : d.enumerators.mapM Die.constant = .ok constants) {f : EnumId → Attempt Outcome}
    (hf : ∀ id τ, i.Trace scope σ τ → τ.session.resolving = σ.session.resolving →
      (∀ e ps, τ.session.host.database.enumDef? id = some e → d.Enumerates ps →
        Counts τ.session d ps e.ordinal) → i.Describes scope τ d (f id)) :
    i.Describes scope σ d (i.enumFor d width >>= fun found =>
      if !found.2 then do
        Step.setHost (addConstants found.1 constants (← get).host)
        f found.1
      else f found.1) := by
  have hs := ht.sound
  have hlookup := enumLookup_enumFor (i := i) d width σ.session
  generalize hrun : (i.enumFor d width).run.run σ.session = result at hlookup
  cases hlookup with
  | @found id hfinds =>
    exact (hf id σ .refl rfl fun e ps he hd => hfinds.counts hs hd he).after .refl rfl
      (Attempt.run_bind_ok hrun)
  | @added name id h hlacks hadd =>
    obtain ⟨e, hnew⟩ := newEnum hs.coherent hadd constants
    have hchange : i.Change scope σ _ :=
      .grow σ hnew.grows hnew.retains (.inl ∘ hnew.aliases) (.inr (ht.enumerates htag))
    refine (hf id _ (.single hchange) rfl fun e' ps he hd => ?_).after (.single hchange) rfl
      (Attempt.run_bind_ok hrun)
    rw [hnew.definition] at he
    cases he
    have hsame := hd.constants
    rw [hconstants] at hsame
    cases hsame
    exact hlacks.counts hs hd hnew
  | @failed e =>
    refine ⟨.error e, σ, ?_, .refl, rfl, trivial⟩
    rw [ExceptT.run_bind, StateT.run_bind, hrun]
    rfl

theorem describes_enumType (hi : i.info.Indexed) (ht : i.Turn σ d)
    (htag : d.tag = .enumerationType) : i.Describes scope σ d (i.enumType d) := by
  refine Attempt.tracks_bind (tracks_dismissAll fun c hc => ht.enumerator_notMem hi htag hc) ?_
  intro _ σ₁ htrace₁ hstack₁ _
  have ht₁ := ht.later htrace₁ hstack₁
  refine Attempt.tracks_read_bind (fun declaration hdeclaration => ?_) fun _ _ => trivial
  cases declaration with
  | true => exact describes_declaredType ht₁ (.inr htag) hdeclaration
  | false =>
    have hrecord : ¬ d.DefinesRecord := not_definesRecord (by rw [htag]; rfl)
    simp only [Bool.false_eq_true, if_false]
    refine Attempt.tracks_bind (tracks_enumWidth d) fun width σ₂ htrace₂ hstack₂ _ => ?_
    have ht₂ := ht₁.later htrace₂ hstack₂
    refine Attempt.tracks_read_bind (fun constants hconstants => ?_) fun _ _ => trivial
    refine describes_enumFor_bind (f := fun id => settled <$> Attempt.ask (·.enumOrdinal id)) ht₂
      htag hconstants fun id τ htrace hstack hcounts => ?_
    have hs := (ht₂.later htrace hstack).sound
    rw [map_eq_pure_bind]
    refine Attempt.tracks_ask_bind (fun o ho => ?_) fun _ _ => trivial
    have hdefines {stated : String} : ¬ d.Declares stated := fun hd =>
      nomatch hdeclaration.symm.trans hd.declaration
    unfold Session.enumOrdinal at ho
    rw [hs.enumDef?] at ho
    split at ho
    · rename_i def_ hdef
      cases ho
      refine Attempt.tracks_pure (.plain hrecord (by rw [htag]; rfl)
        ⟨_, hs.coherent.enums hdef, ?_⟩ (fun _ hd => (hdefines hd).elim)
        fun ps hd => hcounts def_ ps hdef hd)
      unfold Session.Translates
      rw [htag, hdeclaration]
      exact ⟨htag, def_, hdef, rfl⟩
    · cases ho

end DebugSymbols.Importer
