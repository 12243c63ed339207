import DebugSymbols.Proofs.Database.Enumerations
import DebugSymbols.Proofs.Database.Steady
import DebugSymbols.Proofs.Import.Denotation
import DebugSymbols.Proofs.OffsetCache
import Mathlib.Logic.Relation

/-!
What an import does to a session, change by change.  A `Trace` is a sequence of changes, each of
which comes with what was known when it was made.  `Sound` holds along every trace, so whatever
a session is shown to do as a trace keeps it.
-/

namespace DebugSymbols

/-- A session, and which entry each structure was made for since it started. -/
structure History where
  session : Session
  makers : List (UInt64 × StructId)

/-- No structure was made for an entry. -/
def History.Fresh (σ : History) (x : UInt64) : Prop := ∀ id, (x, id) ∉ σ.makers

/-- What may happen while nothing is being resolved: which types may be asked for, and whether
structures may get members that they lack. -/
structure Scope where
  roots : UInt64 → Prop
  repairs : Prop

/-- The entry defines a structure or union. -/
def Die.DefinesRecord (d : Die) : Prop := d.tag.isRecord = true ∧ d.isDeclaration = .ok false

instance (d : Die) : Decidable d.DefinesRecord := inferInstanceAs (Decidable (_ ∧ _))

/-- The entry declares a structure, union or enumeration of the name and does not define it. -/
structure Die.Declares (d : Die) (stated : String) : Prop where
  tag : d.tag.isRecord = true ∨ d.tag = .enumerationType
  declaration : d.isDeclaration = .ok true
  name : d.name = .ok stated

/-- The entry defines an enumeration that has the constants, each with a name of its own. -/
structure Die.Enumerates (d : Die) (ps : List (String × UInt64)) : Prop where
  tag : d.tag = .enumerationType
  definition : d.isDeclaration = .ok false
  constants : d.enumerators.mapM Die.constant = .ok ps
  names : (Listing.names ps).Nodup

instance (d : Die) (ps : List (String × UInt64)) : Decidable (d.Enumerates ps) :=
  decidable_of_iff (d.tag = .enumerationType ∧ d.isDeclaration = .ok false ∧
      d.enumerators.mapM Die.constant = .ok ps ∧ (Listing.names ps).Nodup)
    ⟨fun ⟨htag, hdefinition, hconstants, hnames⟩ => ⟨htag, hdefinition, hconstants, hnames⟩,
      fun h => ⟨h.tag, h.definition, h.constants, h.names⟩⟩

/-- The structure or union with the handle has the ordinal. -/
def Session.Record (s : Session) (id : StructId) (o : Ordinal) : Prop :=
  ∃ d, s.host.database.structDef? id = some d ∧ d.ordinal = o

theorem Session.Record.mono {s s' : Session} (he : s.Extends s') {id : StructId} {o : Ordinal}
    (h : s.Record id o) : s'.Record id o := by
  obtain ⟨d, hd, ho⟩ := h
  obtain ⟨members, hd', -⟩ := he.host.database.structs hd
  exact ⟨_, hd', ho⟩

theorem Session.Record.ordinal_eq {s : Session} {id : StructId} {o o' : Ordinal}
    (h : s.Record id o) (h' : s.Record id o') : o = o' := by
  obtain ⟨d, hd, rfl⟩ := h
  obtain ⟨d', hd', rfl⟩ := h'
  rw [hd] at hd'
  cases hd'
  rfl

/-- The type is void or that of an entry. -/
def Session.Occurs (s : Session) (o : Ordinal) : Prop :=
  (∃ x, s.TypeAt x o) ∨ ∃ name, s.host.database.numberedType? o = some ⟨name, .void⟩

theorem Session.Occurs.mono {s s' : Session} (he : s.Extends s') {o : Ordinal}
    (h : s.Occurs o) : s'.Occurs o := by
  rcases h with ⟨x, htype⟩ | ⟨name, ht⟩
  · exact .inl ⟨x, he.types htype⟩
  · exact .inr ⟨name, he.host.database.type_eq ht nofun⟩

/-- Whatever is new in the host and another name for a type is one for a type that occurs. -/
def Session.Aliases (s : Session) (h : Host) : Prop :=
  ∀ {o name target}, h.database.numberedType? o = some ⟨name, .typedef target⟩ →
    s.host.database.numberedType? o = some ⟨name, .typedef target⟩ ∨
      ∃ q, s.host.database.namedType? target = some q ∧ s.Occurs q

/-! ## Names -/

/-- A name with some underscores more. -/
def underscored : Nat → String → String
  | 0, name => name
  | k + 1, name => underscored k (name ++ "_")

namespace Database

/-- The name belongs to a type that is not to be completed, or is complete already. -/
def Taken (db : Database) (name : String) : Prop :=
  ∃ o t, db.namedType? name = some o ∧ db.numberedType? o = some t ∧ t.shape ≠ .incomplete

/-- The name belongs to a type that is neither a structure, union or enumeration nor to become
one. -/
def Foreign (db : Database) (name : String) : Prop :=
  ∃ o t, db.namedType? name = some o ∧ db.numberedType? o = some t ∧ t.shape ≠ .incomplete ∧
    ¬ t.shape.IsDefinition

/-- The type stands for what is declared under the stated name.  It has that name if that can be
had, or else the first one with some underscores more that was not taken. -/
structure Stands (db : Database) (stated : String) (o : Ordinal) (k : Nat) : Prop where
  named : db.namedType? (underscored k stated) = some o
  shape : ∃ t, db.numberedType? o = some t ∧ (t.shape = .incomplete ∨ t.shape.IsDefinition)
  taken : ∀ j < k, db.Taken (underscored j stated)
  foreign : 0 < k → db.Foreign stated

/-- The name belongs to something else than another name for the target. -/
def Excludes (db : Database) (name target : String) : Prop :=
  ∃ o t, db.namedType? name = some o ∧ db.numberedType? o = some t ∧ t.shape ≠ .typedef target

/-- The type is another name for the target.  It has the stated name if that can be had, or else
the first one with some underscores more that did not belong to something else. -/
structure Renames (db : Database) (stated target : String) (o : Ordinal) (k : Nat) : Prop where
  named : db.namedType? (underscored k stated) = some o
  shape : db.numberedType? o = some ⟨underscored k stated, .typedef target⟩
  excluded : ∀ j < k, db.Excludes (underscored j stated) target

theorem Taken.mono {db db' : Database} (he : db.Extends db') {name : String} (h : db.Taken name) :
    db'.Taken name := by
  obtain ⟨o, t, hnamed, ht, hshape⟩ := h
  exact ⟨o, t, he.named hnamed, he.type_eq ht hshape, hshape⟩

theorem Foreign.mono {db db' : Database} (he : db.Extends db') {name : String}
    (h : db.Foreign name) : db'.Foreign name := by
  obtain ⟨o, t, hnamed, ht, hshape, hdefinition⟩ := h
  exact ⟨o, t, he.named hnamed, he.type_eq ht hshape, hshape, hdefinition⟩

theorem Excludes.mono {db db' : Database} (he : db.Extends db') {name target : String}
    (h : db.Excludes name target) : db'.Excludes name target := by
  obtain ⟨o, t, hnamed, ht, hshape⟩ := h
  obtain ⟨⟨name', shape'⟩, ht', -⟩ := he.types ht
  refine ⟨o, ⟨name', shape'⟩, he.named hnamed, ht', ?_⟩
  rintro rfl
  exact hshape (by rw [he.typedef_eq ht ht'])

theorem Renames.mono {db db' : Database} (he : db.Extends db') {stated target : String}
    {o : Ordinal} {k : Nat} (h : db.Renames stated target o k) : db'.Renames stated target o k where
  named := he.named h.named
  shape := he.type_eq h.shape nofun
  excluded j hj := (h.excluded j hj).mono he

end Database

namespace Registry

/-- The name is taken by something else. -/
def Passes (r : Registry α) (s : Session) (name : String) : Prop :=
  match r.find? s.host name with
  | some a => r.fits s a = .ok false
  | none => r.add? s.host name = none

/-- All names with fewer underscores are taken by something else. -/
def Reaches (r : Registry α) (s : Session) (name : String) (k : Nat) : Prop :=
  ∀ j < k, r.Passes s (underscored j name)

end Registry

namespace Importer

/-! ## References -/

def Refers (i : Importer) (x y : UInt64) : Prop := ∃ d, i.info.dieAt x = .ok d ∧ d.Refers y

/-- The type at an offset may be asked for: by the innermost type that is being resolved, or as
one to begin with. -/
def MayAsk (i : Importer) (scope : Scope) (x : UInt64) : List UInt64 → Prop
  | [] => scope.roots x
  | y :: _ => i.Refers y x

/-- What the type at an offset is made from leads back to a type that is being resolved. -/
inductive Awaits (i : Importer) : List UInt64 → UInt64 → Prop
  | here {resolving : List UInt64} {x : UInt64} : x ∈ resolving → Awaits i resolving x
  | there {resolving : List UInt64} {x y : UInt64} {d : Die} :
      i.info.dieAt x = .ok d → d.Modifies y → Awaits i (x :: resolving) y → Awaits i resolving x

/-! ## Changes -/

/-- The registry in which the structure or union of an entry is looked up. -/
def recordRegistry (i : Importer) (d : Die) : Registry StructId :=
  i.structRegistry d (decide (d.tag = .unionType))

/-- An entry got a structure or union of its own.  Unless that is pending, the types of all members
are there; otherwise they are at least being looked for. -/
structure Made (i : Importer) (σ : History) (d : Die) (id : StructId) (o : Ordinal)
    (pending : Bool) : Prop where
  defines : d.DefinesRecord
  denotes : σ.session.Denotes d o
  record : σ.session.Record id o
  maker : (d.offset, id) ∈ σ.makers
  members : ∃ layout, d.layout = .ok layout ∧ ∀ m ∈ layout, ∀ y, m.typeOffset = some y →
    (∃ o', σ.session.TypeAt y o') ∨
      pending = true ∧ (σ.session.cache.has y = true ∨ i.Awaits σ.session.resolving y)

/-- The type is the enumeration of an entry that defines one of the constants.  It has the name of
the entry if that can be had, or else the first one with some underscores more that is not barred.
Without a name it is the one that the first constant leads to, unless that has other constants. -/
structure Counts (s : Session) (d : Die) (ps : List (String × UInt64)) (o : Ordinal) : Prop where
  enumOf : s.host.database.EnumOf o ps
  named : s.host.database.EnumsBacked → ∀ stated, d.name? = .ok (some stated) →
    ∃ k, s.host.database.namedType? (underscored k stated) = some o ∧
      ∀ j < k, s.host.database.BarsEnum ps (underscored j stated)
  unnamed : d.name? = .ok none → ∀ c, (Listing.names ps).head? = some c →
    s.host.database.LeadsTo c o ∨ s.host.database.Misleads c ps ∧ ∀ x, ¬ s.TypeAt x o

/-- What a typedef of the stated name is found to be, given its target: the type that has the name,
as that is a typedef of the same, or else another name for just this target. -/
inductive Aliased (i : Importer) (s : Session) (stated : String) (target o : Ordinal) : Prop
  | same : i.sameAlias? s stated target = .ok (some o) → Aliased i s stated target o
  | renamed {t : NamedType} {k : Nat} :
      s.host.database.numberedType? target = some t →
      s.host.database.Renames stated t.name o k →
      (0 < k → ∀ p, i.sameAlias? s stated target ≠ .ok (some p)) → Aliased i s stated target o

/-- What a finished entry may be found to be. -/
inductive Finding (i : Importer) (σ : History) (d : Die) : Outcome → Prop
  | useless : Finding i σ d .useless
  | deferred {y : UInt64} :
      d.Modifies y → i.Awaits σ.session.resolving y → Finding i σ d .deferred
  | plain {o : Ordinal} :
      ¬ d.DefinesRecord → d.tag.isModifier = false → σ.session.Denotes d o →
      (∀ stated, d.Declares stated → ∃ k, σ.session.host.database.Stands stated o k) →
      (∀ ps, d.Enumerates ps → Counts σ.session d ps o) → Finding i σ d (.type o false)
  | derived {o o' : Ordinal} :
      d.tag.isModifier = true → σ.session.Target d o' → σ.session.Denotes d o →
      σ.session.host.database.Grounded o →
      (d.tag = .typedef → ∀ stated, d.name = .ok stated → i.Aliased σ.session stated o' o) →
      Finding i σ d (.type o false)
  | known {o : Ordinal} {id : StructId} {name : String} {k : Nat} :
      d.DefinesRecord → σ.Fresh d.offset → σ.session.Denotes d o → σ.session.Record id o →
      d.name? = .ok (some name) → (i.recordRegistry d).Reaches σ.session name k →
      σ.session.host.findStruct? (underscored k name) = some id →
      i.describesStruct σ.session id d = .ok true → Finding i σ d (.type o false)
  | made {o : Ordinal} {id : StructId} {pending : Bool} :
      i.Made σ d id o pending → Finding i σ d (.type o pending)

/-- What the cache remembers of an outcome. -/
def remember (offset : UInt64) (c : OffsetCache) : Outcome → OffsetCache
  | .type o pending => c.markType offset o pending
  | .useless => c.markUseless offset
  | .deferred => c

/-- A structure or union is made for an entry, under the first name that is free. -/
structure Creates (i : Importer) (s : Session) (d : Die) (id : StructId) (h : Host) : Prop where
  at_ : i.info.dieAt d.offset = .ok d
  defines : d.DefinesRecord
  layout : ∃ layout, d.layout = .ok layout
  added : ∃ name, s.host.addStruct? name (decide (d.tag = .unionType)) = some (id, h) ∧
    (d.name? = .ok none ∧ name = none ∨
      ∃ stated k, d.name? = .ok (some stated) ∧ name = some (underscored k stated) ∧
        (i.recordRegistry d).Reaches s stated k)

/-- A structure gets a member that the entry describes which it was made for. -/
structure Attaches (i : Importer) (σ : History) (d : Die) (id : StructId) (m : Member)
    (h : Host) : Prop where
  at_ : i.info.dieAt d.offset = .ok d
  made : (d.offset, id) ∈ σ.makers
  described : ∃ layout, d.layout = .ok layout ∧ ∃ l ∈ layout, ∃ y o, l.typeOffset = some y ∧
    σ.session.TypeAt y o ∧ ∃ type size, σ.session.sizedLinkTo o = .ok (type, size) ∧
      m = ⟨l.name, l.offset, size, type⟩
  added : σ.session.host.addStructMember? id m = some h

/-- The innermost type that is being resolved is an enumeration. -/
def Enumerates (i : Importer) (resolving : List UInt64) : Prop :=
  ∃ d, resolving.head? = some d.offset ∧ i.info.dieAt d.offset = .ok d ∧ d.tag = .enumerationType

/-- An entry may give a structure members while it is the innermost that is being resolved, or
in a repair. -/
def MayFill (scope : Scope) (x : UInt64) (resolving : List UInt64) : Prop :=
  resolving.head? = some x ∨ scope.repairs ∧ resolving = []

/-- Every member of a structure is there, or has a type at least. -/
structure Completes (i : Importer) (s : Session) (d : Die) : Prop where
  at_ : i.info.dieAt d.offset = .ok d
  idle : s.resolving = []
  members : ∃ o id def_ layout, s.TypeAt d.offset o ∧
    s.host.database.structDef? id = some def_ ∧ def_.ordinal = o ∧ d.layout = .ok layout ∧
    ∀ m ∈ layout, ∀ y, m.typeOffset = some y →
      (∃ o', s.TypeAt y o') ∨ ∃ member ∈ def_.members, member.name = m.name

/-- The changes that an import consists of. -/
inductive Change (i : Importer) (scope : Scope) : History → History → Prop
  | note (σ : History) (stats : Stats) (warnings : Array Warning) :
      Change i scope σ { σ with session := { σ.session with stats, warnings } }
  | grow (σ : History) {h : Host} :
      σ.session.host.Grows h → σ.session.host.database.Retains h.database →
      σ.session.Aliases h →
      σ.session.host.database.Steady h.database ∨ i.Enumerates σ.session.resolving →
      Change i scope σ { σ with session := { σ.session with host := h } }
  | create (σ : History) {d : Die} {id : StructId} {h : Host} :
      σ.session.resolving.head? = some d.offset → σ.Fresh d.offset → i.Creates σ.session d id h →
      Change i scope σ ⟨{ σ.session with host := h }, (d.offset, id) :: σ.makers⟩
  | attach (σ : History) {d : Die} {id : StructId} {m : Member} {h : Host} :
      MayFill scope d.offset σ.session.resolving → i.Attaches σ d id m h →
      Change i scope σ { σ with session := { σ.session with host := h } }
  | dismiss (σ : History) {x : UInt64} :
      x ∉ σ.session.resolving →
      Change i scope σ
        { σ with session := { σ.session with cache := σ.session.cache.markUseless x } }
  | place (σ : History) {x : UInt64} :
      σ.session.resolving = [] →
      Change i scope σ
        { σ with session := { σ.session with cache := σ.session.cache.markPlaced x } }
  | enter (σ : History) {d : Die} :
      σ.session.cache.get? d.offset = none → d.offset ∉ σ.session.resolving →
      i.info.dieAt d.offset = .ok d → i.MayAsk scope d.offset σ.session.resolving →
      Change i scope σ
        { σ with session := { σ.session with resolving := d.offset :: σ.session.resolving } }
  | leave (σ : History) {d : Die} {rest : List UInt64} {out : Outcome} :
      σ.session.resolving = d.offset :: rest → i.info.dieAt d.offset = .ok d →
      i.Finding σ d out →
      Change i scope σ
        { σ with
          session :=
            { σ.session with
              resolving := rest
              cache := remember d.offset σ.session.cache out } }
  | clear (σ : History) {d : Die} :
      scope.repairs → i.Completes σ.session d →
      Change i scope σ
        { σ with session := { σ.session with cache := σ.session.cache.clearPending d.offset } }

/-- Changes in a row. -/
abbrev Trace (i : Importer) (scope : Scope) : History → History → Prop :=
  Relation.ReflTransGen (i.Change scope)

end Importer

end DebugSymbols
