import DebugSymbols.Proofs.Import.Verdicts
import Mathlib.Data.List.Pairwise

/-!
Which structure an entry gets.  Names that were passed over stay barred (`Change.bars`), so an
entry has the first of its names that is not (`Placed`), unless it was met on the way from an
entry that resembles it: the structure of that one had members to come.
-/

namespace DebugSymbols

/-- A structure that was made for the first entry may be taken for one of the second. -/
structure Die.Resembles (c x : Die) : Prop where
  defines : c.DefinesRecord
  includes : c.Includes x
  name : ∃ stated k, x.name? = .ok (some stated) ∧ c.MayBear (underscored k stated)

namespace Importer

variable {i : Importer} {scope : Scope} {σ τ : History} {x : Die} {stated : String}
  {id : StructId}

/-- Another entry resembles this one, and leads to it. -/
def Enclosed (i : Importer) (x : Die) : Prop :=
  ∃ y c, i.info.dieAt y = .ok c ∧ y ≠ x.offset ∧ c.Resembles x ∧
    Relation.TransGen i.Refers y x.offset

/-- An entry that gets a structure by its name, and is not met within another that resembles
it. -/
structure Seeks (i : Importer) (x : Die) (stated : String) : Prop where
  at_ : i.info.dieAt x.offset = .ok x
  defines : x.DefinesRecord
  name : x.name? = .ok (some stated)
  apart : ¬ i.Enclosed x

/-! ## What structures say of an entry -/

/-- The structure does not describe the entry, and never will. -/
def Differs (i : Importer) (σ : History) (x : Die) (id : StructId) : Prop :=
  i.describesStruct σ.session id x ≠ .ok true ∧
    (Filled σ id ∨ ∃ y c, (y, id) ∈ σ.makers ∧ i.info.dieAt y = .ok c ∧ ¬ c.Includes x)

/-- The structure describes the entry, and always will. -/
def Matches (i : Importer) (σ : History) (x : Die) (id : StructId) : Prop :=
  i.describesStruct σ.session id x = .ok true ∧ Filled σ id

theorem Change.differs (hs : i.Sound σ) (hf : i.Founded σ) (hc : i.Change walking σ τ)
    (h : i.Differs σ x id) : i.Differs τ x id := by
  obtain ⟨hd, hfilled | ⟨y, c, hmade, hat, hlacks⟩⟩ := h
  · rw [← hc.describesStruct_eq hs hf hfilled] at hd
    exact ⟨hd, .inl (hc.filled hs hfilled)⟩
  · have hmade' := hc.makers hmade
    refine ⟨fun hd' => hlacks ?_, .inr ⟨y, c, hmade', hat, hlacks⟩⟩
    exact Founded.includes (hc.sound hs) (hc.founded hs hf) hmade' hat hd'

theorem Change.matches (hs : i.Sound σ) (hf : i.Founded σ) (hc : i.Change walking σ τ)
    (h : i.Matches σ x id) : i.Matches τ x id := by
  obtain ⟨hd, hfilled⟩ := h
  rw [← hc.describesStruct_eq hs hf hfilled] at hd
  exact ⟨hd, hc.filled hs hfilled⟩

/-! ## Names -/

/-- The name belongs to something that does not describe the entry, and never will. -/
def Bars (i : Importer) (σ : History) (x : Die) (name : String) : Prop :=
  ∃ o t, σ.session.host.database.namedType? name = some o ∧
    σ.session.host.database.numberedType? o = some t ∧ t.shape ≠ .incomplete ∧
    ∀ id, t.shape = .struct id ∨ t.shape = .union id → i.Differs σ x id

/-- The structure has the first of the entry's names that is not barred. -/
def IsFirst (i : Importer) (σ : History) (x : Die) (stated : String) (id : StructId) : Prop :=
  ∃ o k, σ.session.Record id o ∧
    σ.session.host.database.namedType? (underscored k stated) = some o ∧
    ∀ j < k, i.Bars σ x (underscored j stated)

theorem Change.bars (hs : i.Sound σ) (hf : i.Founded σ) (hc : i.Change walking σ τ)
    {name : String} (h : i.Bars σ x name) : i.Bars τ x name := by
  obtain ⟨o, t, hnamed, ht, hcomplete, hdiffers⟩ := h
  have he := (hc.extends hs).host.database
  exact ⟨o, t, he.named hnamed, he.type_eq ht hcomplete, hcomplete,
    fun id hid => hc.differs hs hf (hdiffers id hid)⟩

theorem Change.isFirst (hs : i.Sound σ) (hf : i.Founded σ) (hc : i.Change walking σ τ)
    (h : i.IsFirst σ x stated id) : i.IsFirst τ x stated id := by
  obtain ⟨o, k, hrecord, hnamed, hbars⟩ := h
  have he := hc.extends hs
  exact ⟨o, k, hrecord.mono he, he.host.database.named hnamed,
    fun j hj => hc.bars hs hf (hbars j hj)⟩

/-! ## Lookups -/

/-- The innermost entry is reached from all others that are being resolved. -/
theorem Sound.reaches_of_mem (hs : i.Sound σ) {y z : UInt64}
    (hhead : σ.session.resolving.head? = some y) (hz : z ∈ σ.session.resolving) (hne : z ≠ y) :
    Relation.TransGen i.Refers z y := by
  obtain ⟨rest, hstack⟩ := List.head?_eq_some_iff.mp hhead
  have hchain : σ.session.resolving.IsChain fun x y => Relation.TransGen i.Refers y x :=
    hs.chain.imp fun _ _ hrefers => .single hrefers
  have htrans : IsTrans UInt64 fun x y => Relation.TransGen i.Refers y x :=
    ⟨fun _ _ _ hxy hyz => hyz.trans hxy⟩
  rw [hstack] at hchain hz
  have hpairs := List.isChain_iff_pairwise.mp hchain
  exact (List.pairwise_cons.mp hpairs).1 z ((List.mem_cons.mp hz).resolve_left hne)

/-- A structure that has a name of the entry, and may have all of its members, was made for an
entry that is done with. -/
theorem Seeks.filled (hx : i.Seeks x stated) (hs : i.Sound σ) (hf : i.Founded σ)
    (hhead : σ.session.resolving.head? = some x.offset) (hfresh : σ.Fresh x.offset)
    {y : UInt64} {c : Die} (hmade : (y, id) ∈ σ.makers) (hat : i.info.dieAt y = .ok c)
    (hincludes : c.Includes x) {o : Ordinal} {k : Nat} (hrecord : σ.session.Record id o)
    (hnamed : σ.session.host.database.namedType? (underscored k stated) = some o) :
    Filled σ id := by
  refine ⟨y, hmade, fun hresolving => hx.apart ?_⟩
  have hne : y ≠ x.offset := by
    rintro rfl
    exact hfresh id hmade
  obtain ⟨⟨c', hat', hdefines⟩, -⟩ := hs.makers hmade
  rw [hat] at hat'
  cases hat'
  obtain ⟨c', def_, hat', hget, hdepicts⟩ := hf.made hmade
  rw [hat] at hat'
  cases hat'
  obtain ⟨def', hget', rfl⟩ := hrecord
  rw [hget] at hget'
  cases hget'
  have hname : c.MayBear (underscored k stated) := by
    obtain ⟨shape, ht⟩ := Database.numberedType?_of_named hnamed
    rw [hs.coherent.structs hget] at ht
    have hsame : def_.name = underscored k stated := congrArg NamedType.name (Option.some.inj ht)
    rw [← hsame]
    exact hdepicts.name
  exact ⟨y, c, hat, hne, ⟨hdefines, hincludes, stated, k, hx.name, hname⟩,
    hs.reaches_of_mem hhead hresolving hne⟩

/-- What is found under a name is the structure of that name. -/
theorem Founded.of_findStruct? (hf : i.Founded σ) {name : String}
    (h : σ.session.host.findStruct? name = some id) :
    ∃ o t, σ.session.host.database.namedType? name = some o ∧
      σ.session.host.database.numberedType? o = some t ∧
      (t.shape = .struct id ∨ t.shape = .union id) ∧ σ.session.Record id o := by
  obtain ⟨o, hnamed, h⟩ := Option.bind_eq_some_iff.mp h
  obtain ⟨t, ht, h⟩ := Option.bind_eq_some_iff.mp h
  have hshape : t.shape = .struct id ∨ t.shape = .union id := by
    split at h <;> cases h
    · exact .inl ‹_›
    · exact .inr ‹_›
  obtain ⟨def_, hget, hordinal⟩ := hf.backed.structs ht hshape
  exact ⟨o, t, hnamed, ht, hshape, def_, hget, hordinal⟩

/-- The name under which no structure can be added belongs to something complete. -/
theorem Sound.taken (hs : i.Sound σ) {name : String} {isUnion : Bool}
    (h : σ.session.host.addStruct? (some name) isUnion = none) :
    ∃ o t, σ.session.host.database.namedType? name = some o ∧
      σ.session.host.database.numberedType? o = some t ∧ t.shape ≠ .incomplete := by
  have hnone : σ.session.host.database.addStruct? (some name) isUnion = none := by
    simpa [Host.addStruct?, hs.accepts] using h
  rw [Database.addStruct?_eq, Option.map_eq_none_iff] at hnone
  exact Database.taken_of_reserve? hnone

/-- A name that is passed over in a lookup is barred from then on. -/
theorem Seeks.bars (hx : i.Seeks x stated) (hs : i.Sound σ) (hf : i.Founded σ)
    (hhead : σ.session.resolving.head? = some x.offset) (hfresh : σ.Fresh x.offset) {k : Nat}
    (h : (i.recordRegistry x).Passes σ.session (underscored k stated)) :
    i.Bars σ x (underscored k stated) := by
  unfold Registry.Passes at h
  split at h
  · rename_i id hfind
    obtain ⟨o, t, hnamed, ht, hshape, hrecord⟩ := hf.of_findStruct? hfind
    have hd : i.describesStruct σ.session id x = .ok false := Except.mapError_eq_ok.mp h
    have hdiffers : i.Differs σ x id := by
      refine ⟨by rw [hd]; simp, ?_⟩
      obtain ⟨def_, hget, hordinal⟩ := hrecord
      obtain ⟨y, hmade⟩ := hf.maker hget
      obtain ⟨⟨c, hat, -⟩, -⟩ := hs.makers hmade
      by_cases hincludes : c.Includes x
      · exact .inl (hx.filled hs hf hhead hfresh hmade hat hincludes ⟨def_, hget, hordinal⟩ hnamed)
      · exact .inr ⟨y, c, hmade, hat, hincludes⟩
    refine ⟨o, t, hnamed, ht, ?_, fun id' hid' => ?_⟩
    · rcases hshape with hshape | hshape <;> simp [hshape]
    · have heq : id' = id := by
        rcases hshape with hshape | hshape <;> rcases hid' with hid' | hid' <;>
          rw [hshape] at hid' <;> cases hid' <;> rfl
      exact heq ▸ hdiffers
  · rename_i hfind
    obtain ⟨o, t, hnamed, ht, hcomplete⟩ := hs.taken h
    refine ⟨o, t, hnamed, ht, hcomplete, fun id hid => ?_⟩
    have hfound : σ.session.host.database.findStruct? (underscored k stated) = some id := by
      rcases hid with hid | hid <;> simp [Database.findStruct?, hnamed, ht, hid]
    change σ.session.host.database.findStruct? (underscored k stated) = none at hfind
    rw [hfind] at hfound
    cases hfound

/-! ## The structures of an entry -/

/-- An entry has the structure of the first name that is not barred: one that was made for it, or
that describes it. -/
structure Placed (i : Importer) (σ : History) (x : Die) (stated : String) : Prop where
  made : ∀ {id}, (x.offset, id) ∈ σ.makers → i.IsFirst σ x stated id
  type : ∀ {o}, σ.session.TypeAt x.offset o → ∃ id, σ.session.Record id o ∧
    i.IsFirst σ x stated id ∧ ((x.offset, id) ∈ σ.makers ∨ i.Matches σ x id)

/-- A structure that was made for the entry has its first name. -/
theorem Seeks.isFirst_of_creates (hx : i.Seeks x stated) (hs : i.Sound σ) (hf : i.Founded σ)
    (hhead : σ.session.resolving.head? = some x.offset) (hfresh : σ.Fresh x.offset) {h : Host}
    (hc : i.Creates σ.session x id h) :
    i.IsFirst ⟨{ σ.session with host := h }, (x.offset, id) :: σ.makers⟩ x stated id := by
  have hchange : i.Change walking σ ⟨{ σ.session with host := h }, (x.offset, id) :: σ.makers⟩ :=
    .create σ hhead hfresh hc
  obtain ⟨name, hadd, hname⟩ := hc.added
  rcases hname with ⟨hnone, -⟩ | ⟨stated', k, hstated, rfl, hreaches⟩
  · rw [hx.name] at hnone
    cases hnone
  · rw [hx.name] at hstated
    cases hstated
    obtain ⟨db, hdb, rfl⟩ := Host.addStruct?_eq_some hadd
    obtain ⟨def_, ha⟩ := Database.addsStruct hs.coherent hdb
    have hget : db.structDef? id = some def_ := by rw [ha.structDef?, if_pos rfl]
    have hnamed : db.namedType? (underscored k stated) = some def_.ordinal := by
      have hnames : def_.name = underscored k stated := ha.names
      rw [← hnames]
      exact ha.coherent.named (ha.coherent.structs hget)
    exact ⟨def_.ordinal, k, ⟨def_, hget, rfl⟩, hnamed,
      fun j hj => hchange.bars hs hf (hx.bars hs hf hhead hfresh (hreaches j hj))⟩

/-- What an entry is found to be has its first name. -/
theorem Seeks.placed_of_finding (hx : i.Seeks x stated) (hs : i.Sound σ) (hf : i.Founded σ)
    (hp : i.Placed σ x stated) (hhead : σ.session.resolving.head? = some x.offset) {o : Ordinal}
    {pending : Bool} (h : i.Finding σ x (.type o pending)) :
    ∃ id, σ.session.Record id o ∧ i.IsFirst σ x stated id ∧
      ((x.offset, id) ∈ σ.makers ∨ i.Matches σ x id) := by
  cases h with
  | plain hnot => exact absurd hx.defines hnot
  | derived hmodifier =>
    rw [isModifier_of_isRecord hx.defines.1] at hmodifier
    cases hmodifier
  | made hmade => exact ⟨_, hmade.record, hp.made hmade.maker, .inl hmade.maker⟩
  | @known o id name k _ hfresh _ hrecord hname hreaches hfind hdescribes =>
    rw [hx.name] at hname
    cases hname
    obtain ⟨o', t, hnamed, -, -, hrecord'⟩ := hf.of_findStruct? hfind
    obtain rfl := hrecord.ordinal_eq hrecord'
    obtain ⟨def_, hget, hordinal⟩ := hrecord
    obtain ⟨y, hmade⟩ := hf.maker hget
    obtain ⟨⟨c, hat, -⟩, -⟩ := hs.makers hmade
    have hfilled : Filled σ id := hx.filled hs hf hhead hfresh hmade hat
      (Founded.includes hs hf hmade hat hdescribes) ⟨def_, hget, hordinal⟩ hnamed
    exact ⟨id, ⟨def_, hget, hordinal⟩,
      ⟨o, k, ⟨def_, hget, hordinal⟩, hnamed,
        fun j hj => hx.bars hs hf hhead hfresh (hreaches j hj)⟩,
      .inr ⟨hdescribes, hfilled⟩⟩

theorem Change.placed_made (hx : i.Seeks x stated) (hs : i.Sound σ) (hf : i.Founded σ)
    (hc : i.Change walking σ τ) (hp : i.Placed σ x stated) (hmade : (x.offset, id) ∈ τ.makers) :
    i.IsFirst τ x stated id := by
  by_cases hold : (x.offset, id) ∈ σ.makers
  · exact hc.isFirst hs hf (hp.made hold)
  · cases hc with
    | @create d id' h hhead hfresh hcreates =>
      obtain ⟨hoffset, rfl⟩ := Prod.mk.inj ((List.mem_cons.mp hmade).resolve_right hold)
      have hat := hcreates.at_
      rw [← hoffset, hx.at_] at hat
      cases hat
      exact hx.isFirst_of_creates hs hf hhead hfresh hcreates
    | _ => exact absurd hmade hold

theorem Change.placed (hx : i.Seeks x stated) (hs : i.Sound σ) (hf : i.Founded σ)
    (hc : i.Change walking σ τ) (hp : i.Placed σ x stated) : i.Placed τ x stated where
  made := hc.placed_made hx hs hf hp
  type {o} htype := by
    have he := hc.extends hs
    obtain ⟨pending, htype⟩ := htype
    have hold : ∃ id, σ.session.Record id o ∧ i.IsFirst σ x stated id ∧
        ((x.offset, id) ∈ σ.makers ∨ i.Matches σ x id) := by
      rcases hc.typeAt_cases hs htype with ⟨pending', hold, -⟩ | ⟨d, -, hhead, hat, hfinding⟩
      · exact hp.type ⟨pending', hold⟩
      · rw [hx.at_] at hat
        cases hat
        exact hx.placed_of_finding hs hf hp hhead hfinding
    obtain ⟨id, hrecord, hfirst, hgot⟩ := hold
    exact ⟨id, hrecord.mono he, hc.isFirst hs hf hfirst,
      hgot.imp (fun hmade => hc.makers hmade) (hc.matches hs hf)⟩

theorem Trace.placed (hx : i.Seeks x stated) (hs : i.Sound σ) (hf : i.Founded σ)
    (ht : i.Trace walking σ τ) (hp : i.Placed σ x stated) : i.Placed τ x stated := by
  induction ht with
  | refl => exact hp
  | tail ht hc ih => exact hc.placed hx (Trace.sound hs ht) (Trace.founded hs hf ht) ih

end Importer

end DebugSymbols
